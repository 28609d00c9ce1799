import AdaStubs.Proofs.Emission.Position
import AdaStubs.Proofs.Emission.Reference
import AdaStubs.Proofs.FixedSize

/-!
# What a session can fail with

A session that refers to nodes of the tree only, and has recorded nothing but nodes of the tree, fails only
where a reference, a name or a bound is refused. In particular it never goes on for ever: what is under way
is set apart, so that every type that has to be written before another one is a further node of the tree.
-/

namespace AdaStubs

open Ada Run Dependencies

namespace NameTable

/-- The name of a package is always found, so that a full name fails with the local one. -/
theorem localResult_of_fullResult_error {ctx : Context} (wf : ctx.tree.WellFormed) {id : Nat} {kind : Kind}
    (found : ctx.tree.kind? id = some kind) {fault : Fault} (failed : fullResult ctx id = .error fault) :
    localResult ctx id = .error fault := by
  obtain ⟨node, lookup, rfl⟩ := Option.map_eq_some_iff.mp found
  cases own : localResult ctx id with
  | error other =>
    rw [fullResult, own] at failed
    exact failed
  | ok name =>
    rw [fullResult, own, need_of_found lookup] at failed
    by_cases alone : ctx.tree.standsAlone id node.kind
    · cases (dif_pos alone).symm.trans failed
    · obtain ⟨outer, around⟩ : ∃ outer, fullResult ctx (ctx.tree.enclosingUnit id) = .ok outer :=
        fullResult_of_unit wf (wf.isUnit_enclosingUnit id)
      have given := (dif_neg alone).symm.trans failed
      rw [around] at given
      cases given

end NameTable

namespace Emit

/-- Whatever the declarations of the tree lead to is a node, and is refused in tolerated ways only. -/
structure Sustains (ctx : Context) (tolerated : Fault → Prop) : Prop where
  wellFormed : ctx.tree.WellFormed
  resolves : ctx.tree.Resolves tolerated
  names : ∀ {node kind fault}, ctx.tree.kind? node = some kind → NameTable.localResult ctx node = .error fault →
    tolerated fault
  bases : ∀ {node kind base}, ctx.tree.kind? node = some kind → base ∈ kind.firstBase? → base ∈ ctx.tree.ids
  enumerators : ∀ {node kind e}, ctx.tree.kind? node = some kind → e ∈ kind.enumerators → e ∈ ctx.tree.ids
  bounds : ∀ {node kind e}, ctx.tree.kind? node = some kind → kind.BoundRefused node e → tolerated (.error e)

/-- The state of a session that refers to nodes of the tree only, with `busy` under way. -/
structure Working (ctx : Context) (busy : List Nat) (s : Session) : Prop where
  rests : NameTable.Rests ctx s.names
  busy_eq : s.progress.busy = busy
  sized : s.sizes.busy = []
  unit : s.deps.unit ∈ ctx.tree.ids
  recorded : ∀ {a : Aspect} {e}, e ∈ a.recorded s.deps → e ∈ ctx.tree.ids
  declared : ∀ n ∈ s.declared, ctx.tree.hasKind Kind.isType n = true

def working (ctx : Context) (tolerated : Fault → Prop) (busy : List Nat) : Conduct Session where
  holds := Working ctx busy
  moves _ _ := True
  stops _ _ := True
  settled _ _ := True
  faults := tolerated

variable {ctx : Context} {tolerated : Fault → Prop} {busy : List Nat} {node : Nat}

theorem working_lawful : (working ctx tolerated busy).Lawful :=
  ⟨fun _ => trivial, fun _ _ _ => trivial, fun _ => trivial, fun _ _ _ => trivial, fun _ _ => trivial⟩

theorem Working.withDeps {s : Session} (holds : Working ctx busy s) {deps : Dependencies}
    (unit_eq : deps.unit = s.deps.unit) (recorded : ∀ {a : Aspect} {e}, e ∈ a.recorded deps →
      e ∈ a.recorded s.deps ∨ e ∈ ctx.tree.ids) : Working ctx busy { s with deps } := by
  refine ⟨holds.rests, holds.busy_eq, holds.sized, ?_, fun listed => ?_, holds.declared⟩
  · exact unit_eq ▸ holds.unit
  · exact (recorded listed).elim holds.recorded id

theorem updateDeps_working {f : Dependencies → Dependencies} (unit_eq : ∀ d, (f d).unit = d.unit)
    (recorded : ∀ d (a : Aspect) e, e ∈ a.recorded (f d) → e ∈ a.recorded d ∨ e ∈ ctx.tree.ids) :
    (updateDeps f).Follows (working ctx tolerated busy) [] :=
  .modify fun holds => ⟨holds.withDeps (unit_eq _) (recorded _ _ _), trivial⟩

theorem withNames_working {act : NameTable.Lookup String} {result : Except Fault String}
    (answers : NameTable.Answers ctx act result) (permitted : ∀ {fault}, result = .error fault → tolerated fault) :
    (withNames act).Follows (working ctx tolerated busy) [] := by
  intro s holds
  obtain ⟨names, rests, run⟩ := withNames_lift answers holds.rests
  rw [run]
  cases result with
  | ok name =>
    exact ⟨⟨rests, holds.busy_eq, holds.sized, holds.unit, holds.recorded, holds.declared⟩, trivial,
      fun _ _ => trivial⟩
  | error fault => exact ⟨trivial, permitted rfl⟩

theorem isFixedSize_working (resolves : ctx.tree.Resolves tolerated) (admits : ctx.tree.Admits tolerated node) :
    (isFixedSize ctx node).Follows (working ctx tolerated busy) [] := by
  intro s holds
  have looks := SizeTable.isFixedWithin_follows resolves (.start ctx.tree) admits
  unfold isFixedSize withSizes SizeTable.isFixed
  cases run : SizeTable.isFixedWithin ctx.tree (ctx.tree.size + 1) node s.sizes with
  | ok fixed sizes =>
    have idle := (looks.ok holds.sized run).1
    exact ⟨⟨holds.rests, holds.busy_eq, idle, holds.unit, holds.recorded, holds.declared⟩, trivial,
      fun _ _ => trivial⟩
  | error fault sizes => exact ⟨trivial, (looks.error holds.sized run).2⟩

theorem mem_recorded_recordPackage {a b : Aspect} {d : Dependencies} {package e : Nat}
    (listed : e ∈ b.recorded (a.recordPackage d package)) : e ∈ b.recorded d ∨ e = package := by
  have recorded : e ∈ b.recorded (d.record package) → e ∈ b.recorded d ∨ e = package :=
    fun listed => (mem_recorded_record.mp listed).imp_right (·.2)
  cases a with
  | declaration => exact recorded listed
  | marshalling =>
    rcases mem_recorded_recordMarshal.mp listed with earlier | ⟨-, same⟩
    · exact recorded earlier
    · exact .inr same

theorem hoist_working (items : List Item) : (hoist items).Follows (working ctx tolerated busy) [] :=
  .modify fun holds =>
    ⟨⟨holds.rests, holds.busy_eq, holds.sized, holds.unit, holds.recorded, holds.declared⟩, trivial⟩

section Sustained

variable (sustains : Sustains ctx tolerated)
include sustains

theorem localName_working {kind : Kind} (found : ctx.tree.kind? node = some kind) :
    (localName ctx node).Follows (working ctx tolerated busy) [] :=
  withNames_working (NameTable.localName_run sustains.wellFormed node) (sustains.names found)

theorem fullName_working {kind : Kind} (found : ctx.tree.kind? node = some kind) :
    (fullName ctx node).Follows (working ctx tolerated busy) [] := by
  refine withNames_working (NameTable.fullName_run sustains.wellFormed node) fun failed => ?_
  exact sustains.names found (NameTable.localResult_of_fullResult_error sustains.wellFormed found failed)

theorem working_notes : Notes ctx (working ctx tolerated busy) where
  lawful := working_lawful
  wellFormed := sustains.wellFormed
  localNames := localName_working sustains
  fullNames := fullName_working sustains
  requires _ := updateDeps_working (fun _ => rfl) fun _ a _ listed => by cases a <;> exact .inl listed
  uses _ := updateDeps_working (fun _ => rfl) fun _ a _ listed => by cases a <;> exact .inl listed
  records a node := updateDeps_working (fun _ => by cases a <;> rfl) fun d b e listed => by
    rcases mem_recorded_recordPackage listed with earlier | rfl
    · exact .inl earlier
    · exact .inr (Tree.mem_ids_of_hasKind (sustains.wellFormed.isUnit_packageOf node))
  mentions _ _ := updateDeps_working (fun _ => rfl) fun _ a _ listed => by cases a <;> exact .inl listed
  marks a _ := .modify fun holds =>
    ⟨⟨holds.rests, by cases a <;> exact holds.busy_eq, holds.sized, holds.unit, holds.recorded, holds.declared⟩, trivial⟩
  units holds := fits_of_mem_ids holds.unit

theorem working_allows : Allows ctx (working ctx tolerated busy) := by
  apply (working_notes sustains).allows
  case sizes =>
    intro node dims element found
    exact isFixedSize_working sustains.resolves (sustains.resolves node _ found element List.mem_cons_self)
  case enumerators => exact fun found listed => fits_of_mem_ids (sustains.enumerators found listed)
  case bounds => exact sustains.bounds
  case bases =>
    intro node kind base _ found first
    have among := sustains.bases found first
    obtain ⟨other, present⟩ := Tree.exists_of_mem_ids among
    refine ⟨updateDeps_working (fun _ => rfl) fun d a e listed => ?_, fullName_working sustains present⟩
    rcases mem_recorded_record.mp listed with earlier | ⟨-, rfl⟩
    · exact .inl earlier
    · exact .inr among

/-- The step: a node that is not under way is written while it is. -/
theorem produce_working {a : Aspect} {resolve : Nat → Emit String}
    (whole : Fits ctx (working ctx tolerated busy) (!·.isPart) node)
    (refs : node ∉ busy → ∀ r ∈ a.refs ctx.tree node,
      (resolve r).Follows (working ctx tolerated (node :: busy)) [r]) :
    (produce ctx a resolve node).Follows (working ctx tolerated busy) [] := by
  have item {s : Session} (holds : Working ctx busy s) (idle : node ∉ s.progress.busy) :
      (a.item ctx resolve node).Follows (working ctx tolerated (node :: busy)) (a.refs ctx.tree node) :=
    item_follows (working_allows sustains) whole trivial (refs (holds.busy_eq ▸ idle))
  refine produce_follows (d := working ctx tolerated (node :: busy)) working_lawful ?_ ?_ (fun _ _ _ => trivial) id item
  · intro s holds idle
    refine ⟨holds.rests, ?_, holds.sized, holds.unit, holds.recorded, holds.declared⟩
    rw [← holds.busy_eq]
    exact List.insert_of_not_mem idle
  · intro s s' holds idle held _
    refine ⟨⟨held.rests, ?_, held.sized, held.unit, held.recorded, ?_⟩, trivial⟩
    · have left : s'.progress.busy.erase node = busy := by rw [held.busy_eq, List.erase_cons_head]
      cases a <;> exact left
    · intro n listed
      rcases List.mem_append.mp listed with earlier | last
      · exact held.declared n earlier
      · split at last
        · next awaits =>
          rw [List.mem_singleton.mp last]
          obtain ⟨present, found, kind⟩ := Tree.exists_of_hasKind (Bool.and_eq_true_iff.mp awaits).2
          rw [Tree.hasKind_eq found]
          exact (Bool.and_eq_true_iff.mp kind).1
        · cases last

/-- The run: the nodes under way are all different, so that the depth suffices. -/
theorem nameWithin_working {a : Aspect} {depth : Nat} (room : ctx.tree.Room busy depth)
    (admits : ctx.tree.Admits tolerated node) :
    (nameWithin ctx a depth node).Follows (working ctx tolerated busy) [node] := by
  induction depth generalizing busy node with
  | zero => exact absurd room.not_zero id
  | succ depth ih =>
    have notes : Notes ctx (working ctx tolerated busy) := working_notes sustains
    have named : (nameWithin ctx a (depth + 1) node).Follows (working ctx tolerated busy) [] := by
      apply refer_follows notes (working_allows sustains)
      · exact expectType_follows notes.lawful (fits_of_mem_ids admits.found) admits.refused
      · intro isType s seen _ _
        have whole : Fits ctx (working ctx tolerated busy) Kind.isType node := .inl isType
        apply place_follows notes.lawful hoist_working
        apply produce_working sustains (whole.imp Kind.not_isPart_of_isType)
        intro idle r refers
        have refers := Aspect.mem_declarationRefs refers
        exact ih (room.push (Tree.mem_ids_of_declarationRefs refers) idle) (sustains.resolves.admits refers)
    exact named.settle fun _ _ => trivial

theorem produce_nameFor_working {a : Aspect} (whole : Fits ctx (working ctx tolerated []) (!·.isPart) node) :
    (produce ctx a (nameFor ctx a) node).Follows (working ctx tolerated []) [] := by
  apply produce_working sustains whole
  intro idle r refers
  have refers := Aspect.mem_declarationRefs refers
  have room := (Tree.Room.start ctx.tree).deeper.push (Tree.mem_ids_of_declarationRefs refers) idle
  exact nameWithin_working sustains room (sustains.resolves.admits refers)

end Sustained

end Emit

end AdaStubs
