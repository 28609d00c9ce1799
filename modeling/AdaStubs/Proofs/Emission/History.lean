import AdaStubs.Emission.Call
import AdaStubs.Proofs.Emission.Position
import AdaStubs.Proofs.Emission.Reference
import AdaStubs.Proofs.Generation.Phases
import AdaStubs.Proofs.SizeVerdict

/-!
# Histories of a session

A session is asked for one thing after another, now for one artifact and now for another, and goes on where
it has to refuse. What a type is called in an artifact does not hang on any of this.

Main statement: `name_determined_by_position`.
-/

namespace AdaStubs

open Ada Run

/-- A call that is made for the artifact in view, or for another one with dependencies of its own. -/
inductive Event where
  | here (call : Call)
  | elsewhere (deps : Dependencies) (call : Call)

namespace Session

/-- The session after a call, which may have failed. -/
def next (ctx : Context) (s : Session) : Event → Session
  | .here call => (call.perform ctx).final s
  | .elsewhere deps call =>
    { (call.perform ctx).final (s.turnTo deps) with deps := s.deps, hoisted := s.hoisted }

def after (ctx : Context) (s : Session) (history : List Event) : Session := history.foldl (next ctx) s

end Session

namespace Emit

/-! ## Calls -/

/-- A conduct that permits every fault is kept to by every call if references and writing keep to it. -/
theorem perform_follows {ctx : Context} {c : Conduct Session} (allows : Allows ctx c)
    (lenient : ∀ fault, c.faults fault) (names : ∀ a node, (nameFor ctx a node).Follows c [node])
    (produces : ∀ a node, (produce ctx a (nameFor ctx a) node).Follows c [])
    (sizes : ∀ node, (isFixedSize ctx node).Follows c []) (call : Call)
    (takes : call = .takeDeclared → takeDeclared.Follows c []) : (call.perform ctx).Follows c [] := by
  have lawful := allows.lawful
  have fits {p : Kind → Bool} {node : Nat} : Fits ctx c p node := .inr lenient
  have types (node : Nat) : ∀ r ∈ ctx.tree.declarationRefs node, (nameType ctx r).Follows c [r] :=
    fun r _ => names .declaration r
  have codecs (node : Nat) : ∀ r ∈ ctx.tree.declarationRefs node, (nameCodec ctx r).Follows c [r] :=
    fun r _ => names .marshalling r
  have reply {α : Type} {act : Emit α} {nodes : List Nat} (follows : act.Follows c nodes) (f : α → Reply) :
      (do return f (← act) : Emit Reply).Follows c [] :=
    .seq lawful (follows.weaken (by simp)) fun _ => .pure lawful _
  cases call with
  | nameType node => exact reply (names .declaration node) _
  | nameCodec node => exact reply (names .marshalling node) _
  | declaration node => exact reply (produces .declaration node) _
  | marshalBody node => exact reply (produces .marshalling node) _
  | marshalProfiles node => exact reply (marshalProfiles_follows allows fits) _
  | body node => exact reply (body_follows allows fits (types node)) _
  | descriptors node => exact reply (descriptors_follows allows fits (types node)) _
  | descriptorBodies node => exact reply (descriptorBodies_follows allows fits (types node) (codecs node)) _
  | servants node => exact reply (servants_follows allows fits (types node)) _
  | servantBodies node => exact reply (servantBodies_follows allows fits (types node)) _
  | dispatchEntries node => exact reply (dispatchEntries_follows lawful fits) _
  | servantParent node => exact reply (servantParent_follows allows fits trivial) _
  | subprograms node => exact reply (subprogramsOf_follows allows fits (types node)) _
  | wireNames node => exact reply (wireNames_follows lawful fits) _
  | isFixedSize node => exact reply (sizes node) _
  | arrayPlan node => exact reply (arrayPlan_follows allows fits) _
  | takeDeclared => exact reply (takes rfl) _

/-! ## Invariants of the dependencies -/

/-- Nothing that a session notes breaks a property of dependencies. -/
structure Absorbs (ctx : Context) (Q : Dependencies → Prop) : Prop where
  runtime : ∀ {d} packages, Q d → Q { d with runtime := packages }
  mention : ∀ {d} m, Q d → Q (d.mention m)
  package : ∀ {d} (a : Aspect) (node : Nat), Q d → Q (a.recordPackage d (ctx.tree.packageOf node))
  base : ∀ {d node kind base}, ctx.tree.kind? node = some kind → base ∈ kind.firstBase? → Q d → Q (d.record base)

theorem absorbs_true (ctx : Context) : Absorbs ctx fun _ => True := by
  constructor <;> intros <;> trivial

theorem absorbs_packaged {ctx : Context} (wf : ctx.tree.WellFormed)
    (bases : ∀ {node kind base}, ctx.tree.kind? node = some kind → base ∈ kind.firstBase? →
      ctx.tree.hasKind Kind.isUnit base = true) (unit : Nat) (known : List Nat) :
    Absorbs ctx (Dependencies.Packaged ctx.tree unit known) where
  runtime packages packaged := packaged.setRuntime packages
  mention m packaged := packaged.mention m
  package a node packaged := packaged.recordPackage a (wf.isUnit_packageOf node)
  base found first packaged := packaged.record (bases found first)

/-- The tables of the session are right, its dependencies have the property `Q` and what is hoisted `F`. -/
structure Orderly (ctx : Context) (Q : Dependencies → Prop) (F : Item → Prop) (s : Session) : Prop where
  rests : NameTable.Rests ctx s.names
  deps : Q s.deps
  sizes : s.sizes.Sound ctx.tree ∧ s.sizes.busy = []
  hoisted : ∀ item ∈ s.hoisted, F item

abbrev orderly (ctx : Context) (Q : Dependencies → Prop) (F : Item → Prop) : Conduct Session :=
  .upholding (Orderly ctx Q F)

/-- What is written from an orderly session has the property `F`, if references leave the session orderly. -/
def Writes (ctx : Context) (Q : Dependencies → Prop) (F : Item → Prop) : Prop :=
  ∀ ⦃a resolve node s items s'⦄, (∀ r, (resolve r).Follows (orderly ctx Q F) []) → Orderly ctx Q F s →
    Aspect.item ctx a resolve node s = .ok items s' → ∀ item ∈ items, F item

theorem writes_true (ctx : Context) (Q : Dependencies → Prop) : Writes ctx Q fun _ => True :=
  fun _ _ _ _ _ _ _ _ _ _ _ => trivial

section Orderly

variable {ctx : Context} {Q : Dependencies → Prop} {F : Item → Prop}

theorem orderly_start (deps : Dependencies) (told : Q deps) : Orderly ctx Q F (Session.start.turnTo deps) where
  rests := NameTable.rests_empty ctx
  deps := told
  sizes := ⟨by simp [SizeTable.Sound, Session.turnTo, Session.start, SizeTable.empty], rfl⟩
  hoisted := nofun

theorem withNames_orderly {act : NameTable.Lookup String} {result : Except Fault String}
    (answers : NameTable.Answers ctx act result) : (withNames act).Follows (orderly ctx Q F) [] := by
  intro s holds
  obtain ⟨names, rests, run⟩ := withNames_lift answers holds.rests
  rw [run]
  cases result with
  | ok name => exact ⟨⟨rests, holds.deps, holds.sizes, holds.hoisted⟩, trivial, fun _ _ => trivial⟩
  | error fault => exact ⟨⟨rests, holds.deps, holds.sizes, holds.hoisted⟩, trivial⟩

theorem updateDeps_orderly {f : Dependencies → Dependencies} (keeps : ∀ {d}, Q d → Q (f d)) :
    (updateDeps f).Follows (orderly ctx Q F) [] :=
  .modify fun holds => ⟨⟨holds.rests, keeps holds.deps, holds.sizes, holds.hoisted⟩, trivial⟩

theorem isFixedSize_orderly (node : Nat) : (isFixedSize ctx node).Follows (orderly ctx Q F) [] := by
  intro s holds
  have found := SizeTable.isFixed_finds ctx.tree node s.sizes holds.sizes.1 holds.sizes.2
  unfold isFixedSize withSizes
  cases run : SizeTable.isFixed ctx.tree node s.sizes with
  | ok fixed sizes =>
    rw [run] at found
    exact ⟨⟨holds.rests, holds.deps, found.2, holds.hoisted⟩, trivial, fun _ _ => trivial⟩
  | error fault sizes =>
    rw [run] at found
    exact ⟨⟨holds.rests, holds.deps, found.2, holds.hoisted⟩, trivial⟩

variable (wf : ctx.tree.WellFormed) (absorbs : Absorbs ctx Q)
include wf absorbs

theorem orderly_notes : Notes ctx (orderly ctx Q F) where
  lawful := Conduct.upholding_lawful _
  wellFormed := wf
  localNames _ := withNames_orderly (NameTable.localName_run wf _)
  fullNames _ := withNames_orderly (NameTable.fullName_run wf _)
  requires _ := updateDeps_orderly (absorbs.runtime _)
  uses _ := updateDeps_orderly (absorbs.runtime _)
  records a node := updateDeps_orderly (absorbs.package a node)
  mentions _ _ := updateDeps_orderly (absorbs.mention _)
  marks _ _ := .modify fun holds => ⟨⟨holds.rests, holds.deps, holds.sizes, holds.hoisted⟩, trivial⟩
  units _ := .inr fun _ => trivial

theorem orderly_allows : Allows ctx (orderly ctx Q F) := by
  apply (orderly_notes wf absorbs).allows
  case sizes => exact fun _ => isFixedSize_orderly _
  case enumerators => exact fun _ _ => .inr fun _ => trivial
  case bounds => exact fun _ _ => trivial
  case bases =>
    intro node kind base _ found first
    exact ⟨updateDeps_orderly (absorbs.base found first), withNames_orderly (NameTable.fullName_run wf _)⟩

section

variable {a : Aspect} {resolve : Nat → Emit String} {node : Nat}
  (refs : ∀ r, (resolve r).Follows (orderly ctx Q F) [])
include refs

theorem item_orderly : (a.item ctx resolve node).Follows (orderly ctx Q F) [] := by
  have allows : Allows ctx (orderly ctx Q F) := orderly_allows wf absorbs
  exact (item_follows allows (.inr fun _ => trivial) trivial fun r _ => (refs r).settle fun _ _ => trivial).weaken
    (by simp)

theorem produce_orderly : (produce ctx a resolve node).Follows (orderly ctx Q F) [] := by
  refine produce_follows (Conduct.upholding_lawful _) ?_ ?_ ?_ id fun _ _ => item_orderly wf absorbs refs
  · exact fun holds _ => ⟨holds.rests, holds.deps, holds.sizes, holds.hoisted⟩
  · exact fun _ _ holds _ => ⟨⟨holds.rests, holds.deps, holds.sizes, holds.hoisted⟩, trivial⟩
  · exact fun _ _ stopped => ⟨stopped.rests, stopped.deps, stopped.sizes, stopped.hoisted⟩

variable (writes : Writes ctx Q F)
include writes

omit wf absorbs in
theorem mem_of_produce {s s' : Session} {items : List Item} (holds : Orderly ctx Q F s)
    (done : produce ctx a resolve node s = .ok items s') : ∀ item ∈ items, F item := by
  rcases produce_ok done with ⟨-, rfl, -⟩ | ⟨-, -, inner, run, -⟩
  · simp
  · have entered : Orderly ctx Q F { s with progress := s.progress.enter node } :=
      ⟨holds.rests, holds.deps, holds.sizes, holds.hoisted⟩
    exact writes refs entered run

theorem place_orderly : (place (produce ctx a resolve node)).Follows (orderly ctx Q F) [] := by
  refine .bindRun (Conduct.upholding_lawful _) (produce_orderly wf absorbs refs) fun {s items _} holds done => ?_
  have new := mem_of_produce refs writes holds done
  refine .modify fun held => ⟨⟨held.rests, held.deps, held.sizes, fun item listed => ?_⟩, trivial⟩
  rcases List.mem_append.mp listed with earlier | late
  · exact held.hoisted item earlier
  · exact new item late

end

variable (writes : Writes ctx Q F)
include writes

theorem nameWithin_orderly (a : Aspect) (depth node : Nat) :
    (nameWithin ctx a depth node).Follows (orderly ctx Q F) [] := by
  have notes : Notes ctx (orderly ctx Q F) := orderly_notes wf absorbs
  induction depth generalizing node with
  | zero => exact .throw notes.lawful trivial
  | succ depth ih =>
    apply refer_follows notes (orderly_allows wf absorbs)
    · exact expectType_follows notes.lawful (.inr fun _ => trivial) fun _ _ => trivial
    · exact fun _ _ _ _ _ => place_orderly wf absorbs ih writes

theorem perform_orderly (call : Call) : (call.perform ctx).Follows (orderly ctx Q F) [] := by
  apply perform_follows (orderly_allows wf absorbs) (fun _ => trivial)
  · exact fun a node => (nameWithin_orderly wf absorbs writes a _ node).settle fun _ _ => trivial
  · exact fun a node => produce_orderly wf absorbs fun r => nameWithin_orderly wf absorbs writes a _ r
  · exact isFixedSize_orderly
  · exact fun _ => takeDeclared_follows fun holds =>
      ⟨⟨holds.rests, holds.deps, holds.sizes, holds.hoisted⟩, trivial⟩

theorem after_orderly {s : Session} (holds : Orderly ctx Q F s) (history : List Event) :
    Orderly ctx Q F (s.after ctx history) := by
  induction history generalizing s with
  | nil => exact holds
  | cons event history ih =>
    apply ih
    cases event with
    | here call => exact (perform_orderly wf absorbs writes call).final holds
    | elsewhere deps call =>
      have aside : Orderly ctx (fun _ => True) (fun _ => True) (s.turnTo deps) :=
        ⟨holds.rests, trivial, holds.sizes, fun _ _ => trivial⟩
      have done := (perform_orderly wf (absorbs_true ctx) (writes_true ctx _) call).final aside
      exact ⟨done.rests, holds.deps, done.sizes, holds.hoisted⟩

end Orderly

end Emit

/-! ## Names by position -/

def Kind.runtimeName? : Kind → Option String
  | .primitive p => some p.adaName
  | kind => kind.runtimeString?

/-- How the type of a declaration is spelled, given the name of the declaration. -/
def Kind.typeSpelling (kind : Kind) (qualified : Bool) (name : String) : String :=
  match kind with
  | .interface _ => if qualified then s!"{name}.Ref" else "Ref"
  | .exception => s!"{name}_Members"
  | _ => name

/-- The local name of `node`, looked up alone. -/
def Context.localName (ctx : Context) (node : Nat) : Except Fault String :=
  (NameTable.localName ctx node).outcome .empty

/-- The name of the type that values of `node` have, from names that are looked up alone. -/
def Context.typeName (ctx : Context) (node : Nat) (qualified : Bool) : Except Fault String := do
  let found ← ctx.tree.need node
  let name ← (if qualified then NameTable.fullName ctx node else NameTable.localName ctx node).outcome .empty
  return found.kind.typeSpelling qualified name

/-- What a type is called in an artifact of `unit` that was told of what is known: the runtime's own name, the
name with its package if the type comes from outside, and else the local name. -/
def Context.positionName (ctx : Context) (unit : Nat) (known : List Nat) (node : Nat) : Except Fault String :=
  match (ctx.tree.kind? node).bind Kind.runtimeName? with
  | some name => .ok name
  | none => ctx.typeName node (ctx.tree.isOutside unit known node)

theorem NameTable.outcome_alone {ctx : Context} {act : Lookup String} {result : Except Fault String}
    (answers : Answers ctx act result) : act.outcome .empty = result := by
  obtain ⟨names, run, -⟩ := answers (rests_empty ctx)
  exact outcome_of_lift run

namespace Emit

open Dependencies

variable {ctx : Context} {a : Aspect} {unit node : Nat} {known : List Nat} {s s' : Session} {kind : Kind}
  {name : String}

theorem withNames_alone {act : NameTable.Lookup String} {result : Except Fault String}
    (answers : NameTable.Answers ctx act result) (rests : NameTable.Rests ctx s.names)
    (done : withNames act s = .ok name s') : act.outcome .empty = .ok name := by
  rw [NameTable.outcome_alone answers, (withNames_answers answers rests done).1]

/-- Where the names are at rest, a local name is what it is when looked up alone. -/
theorem localName_yields (wf : ctx.tree.WellFormed) {c : Conduct Session}
    (rests : ∀ {s}, c.holds s → NameTable.Rests ctx s.names) (follows : (localName ctx node).Follows c []) :
    (localName ctx node).Yields c.holds fun name => ctx.localName node = .ok name := by
  intro s name s' holds done
  exact ⟨withNames_alone (NameTable.localName_run wf node) (rests holds) done, (follows.ok holds done).1⟩

theorem typeName_alone (wf : ctx.tree.WellFormed) (found : ctx.tree.kind? node = some kind) (qualified : Bool) :
    ctx.typeName node qualified =
      (if qualified then NameTable.fullResult ctx node else NameTable.localResult ctx node).map
        (kind.typeSpelling qualified) := by
  obtain ⟨present, lookup, rfl⟩ := Option.map_eq_some_iff.mp found
  unfold Context.typeName
  rw [NameTable.need_of_found lookup]
  cases qualified with
  | true =>
    rw [if_pos rfl, if_pos rfl, NameTable.outcome_alone (NameTable.fullName_run wf node)]
    cases NameTable.fullResult ctx node <;> rfl
  | false =>
    rw [if_neg Bool.false_ne_true, if_neg Bool.false_ne_true,
      NameTable.outcome_alone (NameTable.localName_run wf node)]
    cases NameTable.localResult ctx node <;> rfl

/-- A session names a type as if it had never named anything. -/
theorem typeName_eq (wf : ctx.tree.WellFormed) {qualified : Bool} (rests : NameTable.Rests ctx s.names)
    (found : ctx.tree.kind? node = some kind) (done : typeName ctx node qualified s = .ok name s') :
    ctx.typeName node qualified = .ok name := by
  have spelled : ∀ {act : NameTable.Lookup String} {result : Except Fault String},
      NameTable.Answers ctx act result → (withNames act >>= fun name => do
        match ← kindOf ctx node with
        | .interface _ => return if qualified then s!"{name}.Ref" else "Ref"
        | .exception => return s!"{name}_Members"
        | _ => return name) s = .ok name s' → result.map (kind.typeSpelling qualified) = .ok name := by
    intro act result answers done
    obtain ⟨own, named, first, last⟩ := bind_eq_ok.mp done
    obtain ⟨rfl, -⟩ := withNames_answers answers rests first
    rw [kindOf_of_kind found] at last
    cases kind <;> cases last <;> rfl
  rw [typeName_alone wf found]
  cases qualified with
  | true => exact spelled (NameTable.fullName_run wf node) done
  | false => exact spelled (NameTable.localName_run wf node) done

theorem runtimeName_of_ordinary (ordinary : kind.isRuntime = false) : kind.runtimeName? = none := by
  cases kind with
  | primitive p => cases ordinary
  | string bound wide =>
    cases bound with
    | none => cases ordinary
    | some bound => rfl
  | _ => rfl

/-- Types of the runtime library have a name of their own and no package before it. -/
theorem typeName_of_isRuntime (wf : ctx.tree.WellFormed) (found : ctx.tree.kind? node = some kind)
    (isRuntime : kind.isRuntime = true) : ∃ name, kind.runtimeName? = some name ∧
      ctx.typeName node true = .ok name := by
  rw [typeName_alone wf found, if_pos rfl]
  obtain ⟨present, lookup, rfl⟩ := Option.map_eq_some_iff.mp found
  have inner : node ≠ Tree.root := by
    rintro rfl
    obtain ⟨top, first, -, module⟩ := wf.root_node
    cases lookup.symm.trans first
    simp [module, Kind.isRuntime] at isRuntime
  have named {own : String} (given : present.kind.runtimeName? = some own)
      (fixed : NameTable.fixedName? ctx node present.kind = some own)
      (alone : ctx.tree.standsAlone node present.kind = true)
      (plain : present.kind.typeSpelling true own = own) : ∃ name, present.kind.runtimeName? = some name ∧
        (NameTable.fullResult ctx node).map (present.kind.typeSpelling true) = .ok name := by
    refine ⟨own, given, ?_⟩
    have full : NameTable.fullResult ctx node = .ok own := by
      rw [NameTable.fullResult, NameTable.localResult_of_fixed lookup fixed, NameTable.need_of_found lookup]
      exact dif_pos alone
    rw [full, Except.map, plain]
  cases shape : present.kind with
  | primitive p =>
    rw [shape] at named
    exact named rfl rfl (by simp [Tree.standsAlone, Kind.isUnqualified]) rfl
  | string bound wide =>
    cases bound with
    | none =>
      rw [shape] at named
      exact named rfl (by simp [NameTable.fixedName?, inner]; rfl) (by simp [Tree.standsAlone, Kind.isUnqualified]) rfl
    | some bound =>
      rw [shape] at isRuntime
      cases isRuntime
  | _ =>
    rw [shape] at isRuntime
    cases isRuntime

theorem externalName_eq (wf : ctx.tree.WellFormed) (rests : NameTable.Rests ctx s.names)
    (found : ctx.tree.kind? node = some kind) (done : externalName ctx a node s = .ok name s') :
    ctx.typeName node true = .ok name := by
  unfold externalName at done
  obtain ⟨_, marked, first, rest⟩ := bind_eq_ok.mp done
  cases first
  obtain ⟨own, named, spelled, last⟩ := bind_eq_ok.mp rest
  cases last
  exact typeName_eq wf (s := { s with progress := a.markImported s.progress node }) rests found spelled

theorem nameWithin_eq (wf : ctx.tree.WellFormed) (absorbs : Absorbs ctx (Packaged ctx.tree unit known))
    (holds : Orderly ctx (Packaged ctx.tree unit known) (fun _ => True) s) {depth : Nat}
    (done : nameWithin ctx a depth node s = .ok name s') : ctx.positionName unit known node = .ok name := by
  cases depth with
  | zero => cases done
  | succ depth =>
    obtain ⟨-, outside, seen, sighting, named⟩ := refer_run done
    obtain ⟨kind, found⟩ := sighting.found
    have decided := sighting.outside_eq wf holds.deps
    have seenHolds : Orderly ctx (Packaged ctx.tree unit known) (fun _ => True) seen := by
      refine ⟨sighting.names_eq ▸ holds.rests, sighting.packaged wf holds.deps, ?_, fun _ _ => trivial⟩
      cases sighting <;> exact holds.sizes
    have hasKind : ctx.tree.hasKind Kind.isRuntime node = kind.isRuntime := by simp [Tree.hasKind, found]
    rw [hasKind] at decided
    unfold Context.positionName
    rw [found, Option.bind_some]
    rcases named with ⟨rfl, external⟩ | ⟨rfl, placed, written, last⟩
    · have full := externalName_eq wf seenHolds.rests found external
      cases isRuntime : kind.isRuntime with
      | true =>
        obtain ⟨own, given, called⟩ := typeName_of_isRuntime wf found isRuntime
        rw [given]
        exact called.symm.trans full
      | false =>
        rw [isRuntime, Bool.false_or] at decided
        rw [runtimeName_of_ordinary isRuntime, ← decided]
        exact full
    · have ordinary := Bool.or_eq_false_iff.mp decided.symm
      have placedHolds := (place_orderly wf absorbs
        (fun r => nameWithin_orderly wf absorbs (writes_true ctx _) a depth r) (writes_true ctx _)).ok seenHolds written
      rw [runtimeName_of_ordinary ordinary.1, ordinary.2]
      exact typeName_eq wf placedHolds.1.rests found last

end Emit

open Emit

/-- Whatever a session was asked for before, and for whichever artifacts, an artifact calls a type what its
position says. A member of the unit is imported only if it, or something around it, was known from the start,
and two artifacts that know the same call a type the same. -/
theorem name_determined_by_position (script : List Step) (settings : Settings) (unit : Nat) (known : List Nat)
    (bases : ∀ id ∈ (Tree.ofSteps script).ids, ∀ kind ∈ (Tree.ofSteps script).kind? id,
      ∀ base ∈ kind.firstBase?, isInterface ⟨.ofSteps script, settings⟩ base = true) (history : List Event) :
    let ctx : Context := ⟨.ofSteps script, settings⟩
    let s := (Session.start.turnTo (.told unit known)).after ctx history
    (∀ a node name s', nameFor ctx a node s = .ok name s' → ctx.positionName unit known node = .ok name) ∧
    (∀ (a : Aspect) (node : Nat) (imported : Bool), ctx.tree.packageOf node = unit →
      a.isImported s.deps ctx.tree node = .ok imported →
      imported = (ctx.tree.pathTo unit node).any known.contains) ∧
    (∀ a a' node other name name' s₁ s₂, nameFor ctx a node s = .ok name s₁ →
      nameFor ctx a' node ((Session.start.turnTo (.told unit known)).after ctx other) = .ok name' s₂ →
      name = name') := by
  intro ctx s
  have wf : ctx.tree.WellFormed := Tree.ofSteps_wellFormed script
  have absorbs : Absorbs ctx (Dependencies.Packaged ctx.tree unit known) := by
    refine absorbs_packaged wf (fun {node kind base} found first => ?_) unit known
    exact (isInterface_iff.mp (bases node (Tree.mem_ids_of_kind? found) kind found base first)).1
  have holds (events : List Event) := after_orderly wf absorbs (writes_true ctx _)
    (orderly_start (.told unit known) (.of_told ctx.tree unit known)) events
  have called {events a node name s'}
      (done : nameFor ctx a node ((Session.start.turnTo (.told unit known)).after ctx events) = .ok name s') :
      ctx.positionName unit known node = .ok name := nameWithin_eq wf absorbs (holds events) done
  refine ⟨fun a node name s' done => called done, ?_, ?_⟩
  · intro a node imported home answer
    have packaged := (holds history).deps
    rw [Aspect.isImported_eq, packaged.unit_eq] at answer
    have decision := (Dependencies.reaches_iff answer).trans (packaged.reaches_iff wf home)
    rw [Bool.eq_iff_iff, decision, Tree.isOutside, home, bne_self_eq_false, Bool.false_or]
  · intro a a' node other name name' s₁ s₂ first second
    cases (called first).symm.trans (called second)
    rfl

/-- A structure with an enumeration inside, an interface with a structure of its own that a typedef of the
module refers to, and an exception of another module. -/
def nestedDeclarations : List Step :=
  [.module 0 "A", .struct 1 "T", .enum 2 "Colour" ["red"], .interface 1 "I" [], .struct 5 "S", .typedef 1 "Alias" 6,
    .module 0 "B", .exception 8 "Failed", .primitive .long]

/-- A question that has no answer, a declaration written for another unit, and two for this one. -/
def mixedHistory : List Event :=
  [.here (.nameType 99), .elsewhere (.ofUnit 8) (.declaration 7), .here (.nameType 6), .here (.declaration 3)]

/-- In `A`, to which `T` is known, what is inside `T` is named in full and the typedef is not, though the
package of what it refers to was recorded. -/
theorem nested_declarations_named_by_position :
    let ctx : Context := ⟨.ofSteps nestedDeclarations, {}⟩
    let s := (Session.start.turnTo (.told 1 [2])).after ctx mixedHistory
    s.deps.imports = [2, 5] ∧ ∀ a ∈ [Aspect.declaration, .marshalling],
      ∀ named ∈ [(3, "A.Colour"), (5, "A.I.Ref"), (6, "A.I.S"), (7, "Alias"), (9, "B.Failed_Members"),
        (10, "Corba.Long")],
      (nameFor ctx a named.1).outcome s = .ok named.2 ∧ ctx.positionName 1 [2] named.1 = .ok named.2 := by
  intro ctx s
  have asked : ∀ a ∈ [Aspect.declaration, .marshalling],
      ∀ named ∈ [(3, "A.Colour"), (5, "A.I.Ref"), (6, "A.I.S"), (7, "Alias"), (9, "B.Failed_Members"),
        (10, "Corba.Long")],
      (nameFor ctx a named.1).outcome s = .ok named.2 := by decide +kernel
  refine ⟨by decide +kernel, fun a aspect named listed => ⟨asked a aspect named listed, ?_⟩⟩
  obtain ⟨s', done⟩ := exists_of_outcome (asked a aspect named listed)
  exact (name_determined_by_position nestedDeclarations {} 1 [2] (by decide +kernel) mixedHistory).1 _ _ _ _ done

end AdaStubs
