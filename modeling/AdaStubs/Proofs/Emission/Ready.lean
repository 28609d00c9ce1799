import AdaStubs.Proofs.Emission.Sessions
import AdaStubs.Proofs.Emission.Trace

/-!
# Types that are ready

Once an artifact of an interface has referred to a type, another one can do so at any time: what had to be written
before has been written, and the name that was found then is found again. Such a reference cannot fail, and all it
leaves behind is a note.
-/

namespace AdaStubs

open Ada Run

/-! ## Progress -/

/-- Nothing that has been written is forgotten, and what was under way still is. -/
structure Progress.Extends (p p' : Progress) : Prop where
  done : ∀ {a : Aspect} {n : Nat}, a.isDone p n = true → a.isDone p' n = true
  busy_eq : p'.busy = p.busy

namespace Progress.Extends

variable {p p' p'' : Progress}

theorem refl (p : Progress) : p.Extends p := ⟨id, rfl⟩

theorem trans (first : p.Extends p') (second : p'.Extends p'') : p.Extends p'' :=
  ⟨second.done ∘ first.done, second.busy_eq.trans first.busy_eq⟩

theorem finish {a : Aspect} {node : Nat} (idle : node ∉ p.busy) (inside : (p.enter node).Extends p') :
    p.Extends (a.markDone (p'.leave node) node) := by
  have left : p'.busy.erase node = p.busy := by
    rw [inside.busy_eq, Progress.enter, List.insert_of_not_mem idle, List.erase_cons_head]
  constructor
  · intro b n done
    have before : b.isDone (p'.leave node) n = true := inside.done (a := b) done
    simp [Aspect.isDone_markDone, before]
  · cases a <;> exact left

theorem of_trace {s s' : Session} (same : s'.trace = s.trace) : s.progress.Extends s'.progress := by
  refine ⟨fun {a n} done => ?_, congrArg Trace.busy same⟩
  rw [Emit.isDone_iff] at done ⊢
  rwa [same]

end Progress.Extends

theorem Session.Advances.progress {ctx : Context} {s s' : Session} (advances : s.Advances ctx s') :
    s.progress.Extends s'.progress :=
  ⟨fun {_ n} => Aspect.isDone_of_flags_le (advances.flags n), advances.busy_eq⟩

namespace Emit

variable {ctx : Context} {unit node : Nat} {s s' : Session}

/-! ## Notes -/

/-- A conduct of sessions at work on `unit` that nothing breaks which is only noted. -/
structure Bears (ctx : Context) (unit : Nat) (c : Conduct Session) : Prop where
  lawful : c.Lawful
  wellFormed : ctx.tree.WellFormed
  isUnit : ctx.tree.hasKind Kind.isUnit unit = true
  rests : ∀ {s}, c.holds s → NameTable.Rests ctx s.names
  packaged : ∀ {s}, c.holds s → ctx.Packaged unit s.deps
  still : ∀ {s t}, c.holds s → NameTable.Rests ctx t.names → ctx.Packaged unit t.deps → t.sizes = s.sizes →
    t.trace = s.trace → c.holds t ∧ c.moves s t

namespace Bears

variable {c : Conduct Session} (bears : Bears ctx unit c)
include bears

theorem updates {f : Dependencies → Dependencies} (keeps : ∀ {d}, ctx.Packaged unit d → ctx.Packaged unit (f d)) :
    (updateDeps f).Follows c [] :=
  .modify fun {s} holds => bears.still holds (bears.rests (s := s) holds) (keeps (bears.packaged holds)) rfl rfl

theorem records : Records ctx c where
  lawful := bears.lawful
  wellFormed := bears.wellFormed
  requires _ := bears.updates (·.setRuntime _)
  uses _ := bears.updates (·.setRuntime _)
  records a node := bears.updates (·.recordPackage a (bears.wellFormed.isUnit_packageOf node))
  mentions _ _ := bears.updates (·.mention _)
  marks a _ := .modify fun {s} holds =>
    bears.still holds (bears.rests (s := s) holds) (bears.packaged (s := s) holds) rfl (by cases a <;> rfl)
  units holds := by
    rw [(bears.packaged holds).unit_eq]
    exact fits_of_mem_ids (Tree.mem_ids_of_hasKind bears.isUnit)

theorem names {act : NameTable.Lookup String} {result : Except Fault String}
    (answers : NameTable.Answers ctx act result)
    (refused : ∀ {s s' fault}, result = .error fault → c.stops s s' ∧ c.faults fault) :
    (withNames act).Follows c [] := by
  intro s holds
  obtain ⟨names, rests, run⟩ := withNames_lift answers (bears.rests holds)
  rw [run]
  cases result with
  | ok name =>
    obtain ⟨held, moved⟩ := bears.still (t := { s with names }) holds rests (bears.packaged (s := s) holds) rfl rfl
    exact ⟨held, moved, nofun⟩
  | error fault => exact refused rfl

theorem named {act : NameTable.Lookup String} {result : Except Fault String}
    (answers : NameTable.Answers ctx act result) {name : String} (given : result = .ok name) : (withNames act).Follows c [] :=
  bears.names answers fun failed => by cases given.symm.trans failed

theorem typeName {kind : Kind} (found : ctx.tree.kind? node = some kind) {qualified : Bool} {name : String}
    (given : ctx.typeName node qualified = .ok name) : (typeName ctx node qualified).Follows c [] := by
  apply typeName_follows_of_name bears.lawful found
  rw [typeName_alone bears.wellFormed found] at given
  cases qualified with
  | true =>
    cases result : NameTable.fullResult ctx node with
    | ok own => exact bears.named (NameTable.fullName_run bears.wellFormed node) result
    | error fault =>
      rw [if_pos rfl, result] at given
      cases given
  | false =>
    cases result : NameTable.localResult ctx node with
    | ok own => exact bears.named (NameTable.localName_run bears.wellFormed node) result
    | error fault =>
      rw [if_neg Bool.false_ne_true, result] at given
      cases given

end Bears

/-! ## Making types ready -/

/-- An artifact of `unit` can refer to the type `node` without anything being written before. -/
structure Ready (ctx : Context) (unit node : Nat) (s : Session) : Prop where
  isType : ctx.tree.hasKind Kind.isType node = true
  named : ∃ name, ctx.typeName node (!ctx.isLocal unit node) = .ok name
  written : ctx.isLocal unit node = true → s.progress.isDefined node = true ∨ node ∈ s.progress.busy

theorem Ready.mono (ready : Ready ctx unit node s) (grows : s.progress.Extends s'.progress) :
    Ready ctx unit node s' where
  isType := ready.isType
  named := ready.named
  written isLocal := by
    rw [grows.busy_eq]
    exact (ready.written isLocal).imp_left (grows.done (a := .declaration))

theorem ready_of_refer (wf : ctx.tree.WellFormed) {resolve : Nat → Emit String} {name : String}
    (rests : NameTable.Rests ctx s.names) (packaged : ctx.Packaged unit s.deps)
    (done : refer ctx .declaration resolve node s = .ok name s')
    (restsPlaced : ∀ {placed}, ctx.tree.packageOf node = unit →
      place (produce ctx .declaration resolve node) s = .ok () placed → NameTable.Rests ctx placed.names) :
    Ready ctx unit node s' := by
  obtain ⟨isType, outside, seen, sighting, rest⟩ := refer_run done
  have position := sighting.isLocal_iff wf packaged isType
  obtain ⟨kind, found⟩ := sighting.found
  rcases rest with ⟨rfl, external⟩ | ⟨rfl, placed, written, last⟩
  · have foreign : ctx.isLocal unit node = false := by simpa using position
    have named := externalName_eq wf (sighting.names_eq ▸ rests) found external
    exact ⟨isType, ⟨name, by simpa [foreign] using named⟩, fun isLocal => by simp [foreign] at isLocal⟩
  · have isLocal : ctx.isLocal unit node = true := position.mpr rfl
    cases sighting with
    | own _ ordinary unreached home =>
      have named := typeName_eq wf (restsPlaced (home.trans packaged.unit_eq) written) found last
      obtain ⟨names, rfl⟩ := typeName_run last
      refine ⟨isType, ⟨name, by simpa [isLocal] using named⟩, fun _ => ?_⟩
      exact (place_done written).imp_left (isDone_iff (a := .declaration)).mpr

/-- The session is at work on `unit`, whose own references have been declared if it is an interface. -/
structure Stubbing (ctx : Context) (unit : Nat) (s : Session) : Prop where
  rests : NameTable.Rests ctx s.names
  packaged : ctx.Packaged unit s.deps
  declared : isInterface ctx unit = true → s.progress.isDefined unit = true

/-- The conduct of making ready what is referred to. -/
def preparing (ctx : Context) (unit : Nat) : Conduct Session where
  holds := Stubbing ctx unit
  moves s s' := s.progress.Extends s'.progress
  stops _ _ := True
  settled n s := Ready ctx unit n s

theorem preparing_lawful : (preparing ctx unit).Lawful :=
  ⟨fun _ => .refl _, fun _ => .trans, fun _ => trivial, fun _ _ _ => trivial, fun ready grows => ready.mono grows⟩

theorem preparing_bears (wf : ctx.tree.WellFormed) (isUnit : ctx.tree.hasKind Kind.isUnit unit = true) :
    Bears ctx unit (preparing ctx unit) where
  lawful := preparing_lawful
  wellFormed := wf
  isUnit := isUnit
  rests := Stubbing.rests
  packaged := Stubbing.packaged
  still holds rests packaged _ same := by
    have grows := Progress.Extends.of_trace same
    exact ⟨⟨rests, packaged, fun interface => grows.done (a := .declaration) (holds.declared interface)⟩, grows⟩

section

variable (wf : ctx.tree.WellFormed) (isUnit : ctx.tree.hasKind Kind.isUnit unit = true)
include wf isUnit

theorem preparing_notes : Notes ctx (preparing ctx unit) :=
  { (preparing_bears wf isUnit).records with
    localNames := fun _ => (preparing_bears wf isUnit).names (NameTable.localName_run wf _) fun _ => ⟨trivial, trivial⟩
    fullNames := fun _ => (preparing_bears wf isUnit).names (NameTable.fullName_run wf _) fun _ => ⟨trivial, trivial⟩ }

/-- No other interface is written, so that only packages are recorded. -/
theorem preparing_allows : Allows ctx (preparing ctx unit) (fun n => isInterface ctx n = false) := by
  apply (preparing_notes wf isUnit).allows
  case sizes =>
    intro _ _ element _ s holds
    cases done : isFixedSize ctx element s with
    | error fault s' => exact ⟨trivial, trivial⟩
    | ok fixed s' =>
      obtain ⟨sizes, rfl⟩ := isFixedSize_run done
      exact ⟨⟨holds.rests, holds.packaged, holds.declared⟩, .refl _, nofun⟩
  case enumerators => exact fun _ _ => .inr fun _ => trivial
  case bounds => exact fun _ _ => trivial
  case bases =>
    intro node kind base plain found first
    cases kind with
    | interface bases => simp [isInterface, Tree.hasKind, found] at plain
    | _ => cases first

theorem place_preparing {resolve : Nat → Emit String} (home : ctx.tree.packageOf node = unit)
    (refs : ∀ r, (resolve r).Follows (preparing ctx unit) [r]) :
    (place (produce ctx .declaration resolve node)).Follows (preparing ctx unit) [] := by
  cases interface : isInterface ctx node with
  | true =>
    rw [wf.packageOf_unit (isInterface_iff.mp interface).1] at home
    subst home
    intro s holds
    unfold place
    rw [bind_of_ok (produce_of_isDone (a := .declaration) _ (holds.declared interface))]
    exact ⟨⟨holds.rests, holds.packaged, holds.declared⟩, .refl _, nofun⟩
  | false =>
    have item := item_follows (a := .declaration) (preparing_allows wf isUnit) (.inr fun _ => trivial) interface
      fun r _ => refs r
    apply place_follows preparing_lawful
    · exact fun _ => .modify fun holds => ⟨⟨holds.rests, holds.packaged, holds.declared⟩, .refl _⟩
    apply produce_follows preparing_lawful _ _ (fun _ _ _ => trivial) id fun _ _ => item
    · exact fun holds _ => ⟨holds.rests, holds.packaged, holds.declared⟩
    · intro s s' holds idle held inside
      have grows := Progress.Extends.finish (a := .declaration) idle inside
      exact ⟨⟨held.rests, held.packaged, fun own => grows.done (a := .declaration) (holds.declared own)⟩, grows⟩

theorem nameWithin_preparing (depth node : Nat) :
    (nameWithin ctx .declaration depth node).Follows (preparing ctx unit) [node] := by
  induction depth generalizing node with
  | zero => exact .throw preparing_lawful trivial
  | succ depth ih =>
    have notes : Notes ctx (preparing ctx unit) := preparing_notes wf isUnit
    have placed (home : ctx.tree.packageOf node = unit) := place_preparing wf isUnit home ih
    have follows : (nameWithin ctx .declaration (depth + 1) node).Follows (preparing ctx unit) [] := by
      apply refer_follows notes (preparing_allows wf isUnit)
      · exact expectType_follows preparing_lawful (.inr fun _ => trivial) fun _ _ => trivial
      · intro _ s seen holds sighting
        cases sighting with
        | own found ordinary unreached home => exact placed (home.trans holds.packaged.unit_eq)
    intro s holds
    cases done : nameWithin ctx .declaration (depth + 1) node s with
    | error fault s' => exact ⟨trivial, trivial⟩
    | ok name s' =>
      obtain ⟨held, moved, -⟩ := follows.ok holds done
      refine ⟨held, moved, fun n listed => ?_⟩
      cases List.mem_singleton.mp listed
      exact ready_of_refer wf holds.rests holds.packaged done fun home written =>
        ((placed home).ok holds written).1.rests

end

/-! ## Referring to what is ready -/

/-- Apart from the names it has found and from the artifact under construction, `s` is as `before`. -/
structure Unmoved (ctx : Context) (before s : Session) : Prop where
  rests : NameTable.Rests ctx s.names
  sizes_eq : s.sizes = before.sizes
  trace_eq : s.trace.cleared = before.trace.cleared

theorem Unmoved.refl (rests : NameTable.Rests ctx s.names) : Unmoved ctx s s := ⟨rests, rfl, rfl⟩

theorem Unmoved.isDone_eq {before : Session} (unmoved : Unmoved ctx before s) (a : Aspect) (n : Nat) :
    a.isDone s.progress n = a.isDone before.progress n := by
  have same : a.done s.trace = a.done before.trace := by
    have cleared := congrArg a.done unmoved.trace_eq
    cases a <;> exact cleared
  rw [Bool.eq_iff_iff, isDone_iff, isDone_iff, same]

/-- The conduct of an artifact of `unit` for which nothing more has to be written. -/
abbrev undisturbed (ctx : Context) (unit : Nat) (before : Session) : Conduct Session :=
  .ensuring fun s => Unmoved ctx before s ∧ ctx.Packaged unit s.deps

section

variable {before : Session} (wf : ctx.tree.WellFormed) (isUnit : ctx.tree.hasKind Kind.isUnit unit = true)
include wf isUnit

theorem undisturbed_bears : Bears ctx unit (undisturbed ctx unit before) where
  lawful := Conduct.ensuring_lawful _
  wellFormed := wf
  isUnit := isUnit
  rests holds := holds.1.rests
  packaged holds := holds.2
  still holds rests packaged sizes same :=
    ⟨⟨⟨rests, sizes.trans holds.1.sizes_eq, (congrArg Trace.cleared same).trans holds.1.trace_eq⟩, packaged⟩, trivial⟩

theorem localName_undisturbed {kind : Kind} (found : ctx.tree.kind? node = some kind)
    (named : kind.isAnonymous = false) : (localName ctx node).Follows (undisturbed ctx unit before) [] := by
  obtain ⟨present, lookup, rfl⟩ := Option.map_eq_some_iff.mp found
  obtain ⟨name, given⟩ := NameTable.localResult_of_named wf lookup named
  exact (undisturbed_bears wf isUnit).named (NameTable.localName_run wf node) given

variable (idle : before.progress.busy = [])
include idle

theorem nameType_undisturbed (ready : Ready ctx unit node before) :
    (nameType ctx node).Follows (undisturbed ctx unit before) [node] := by
  have bears : Bears ctx unit (undisturbed ctx unit before) := undisturbed_bears wf isUnit
  obtain ⟨present, found, isType⟩ := Tree.exists_of_hasKind ready.isType
  have found := Tree.kind?_eq found
  obtain ⟨name, named⟩ := ready.named
  have follows : (nameType ctx node).Follows (undisturbed ctx unit before) [] := by
    apply refer_follows_of_names bears.records
    · apply expectType_follows bears.lawful (.inl (Tree.hasKind_of_kind found rfl))
      intro kind known plain
      cases found.symm.trans known
      simp [isType] at plain
    · intro _ s seen holds sighting
      have position := sighting.isLocal_iff wf holds.2 ready.isType
      have foreign : ctx.isLocal unit node = false := by simpa using position
      rw [foreign] at named
      exact bears.typeName found named
    · intro _ s seen holds sighting
      have isLocal : ctx.isLocal unit node = true := (sighting.isLocal_iff wf holds.2 ready.isType).mpr rfl
      rw [isLocal] at named
      refine ⟨?_, bears.typeName found named⟩
      have written : before.progress.isDefined node = true := by simpa [idle] using ready.written isLocal
      intro s holds
      have done : Aspect.declaration.isDone s.progress node = true :=
        (holds.1.isDone_eq .declaration node).trans written
      unfold place
      rw [bind_of_ok (produce_of_isDone _ done)]
      obtain ⟨held, -⟩ := bears.still (t := { s with hoisted := s.hoisted ++ [] }) holds holds.1.rests holds.2 rfl
        (by simp [Session.trace])
      exact ⟨held, trivial, by simp⟩
  exact follows.settle fun _ _ => trivial

theorem subprogramsOf_undisturbed (operation : ctx.tree.hasKind Kind.isOperation node = true)
    (ready : ∀ r ∈ ctx.tree.declarationRefs node, Ready ctx unit r before) :
    (subprogramsOf ctx node).Follows (undisturbed ctx unit before) [] := by
  have lawful : (undisturbed ctx unit before).Lawful := Conduct.ensuring_lawful _
  apply (subprograms_follows_of_names lawful (.inl operation) _ _ _).weaken (by simp)
  · intro kind found
    apply localName_undisturbed wf isUnit found
    rw [Tree.hasKind, found, Option.any_some] at operation
    cases kind <;> simp_all [Kind.isOperation, Kind.isAnonymous]
  · exact fun p listed => localName_undisturbed wf isUnit (Tree.kind?_of_mem_arguments listed) rfl
  · exact fun r refers => nameType_undisturbed wf isUnit idle (ready r refers)

end

end Emit

end AdaStubs
