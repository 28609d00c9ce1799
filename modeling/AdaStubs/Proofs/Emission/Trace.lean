import AdaStubs.Proofs.Emission.Position

/-!
# The trace of a session

What a session has written and what it is about to write, apart from names, sizes and dependencies. As long
as only packages are recorded as dependencies, a reference leaves the trace alone unless it is to a type that
the artifact has to declare itself.
-/

namespace AdaStubs

open Ada Run

/-- The parts of an artifact that stand for a declaration as a whole; all others are stubs. -/
inductive Part where
  | declaration
  | profiles
  | codec
deriving DecidableEq, Repr

def Ada.Item.part? : Item → Option (Part × Nat)
  | .declaration node _ => some (.declaration, node)
  | .profiles node _ => some (.profiles, node)
  | .codec node _ => some (.codec, node)
  | .stub _ _ => none

@[ext] structure Trace where
  defined : List Nat
  marshalDefined : List Nat
  busy : List Nat
  declared : List Nat
  parts : List (Part × Nat)

/-- The trace at the start of another artifact. -/
def Trace.cleared (τ : Trace) : Trace := { τ with parts := [] }

def Session.trace (s : Session) : Trace :=
  ⟨s.progress.defined, s.progress.marshalDefined, s.progress.busy, s.declared,
    s.hoisted.filterMap Item.part?⟩

namespace Aspect

def part : Aspect → Part
  | declaration => .declaration
  | marshalling => .codec

def done : Aspect → Trace → List Nat
  | declaration => Trace.defined
  | marshalling => Trace.marshalDefined

@[simp] theorem done_declaration (τ : Trace) : declaration.done τ = τ.defined := rfl

@[simp] theorem done_marshalling (τ : Trace) : marshalling.done τ = τ.marshalDefined := rfl

def other : Aspect → Aspect
  | declaration => marshalling
  | marshalling => declaration

/-- Whether there is something to write for a declaration of this kind. -/
def writes : Aspect → Kind → Bool
  | _, .module | _, .primitive _ | _, .string none _ => false
  | declaration, _ => true
  | marshalling, kind => kind.isType

theorem writes_of_type {a : Aspect} {kind : Kind} (isType : kind.isType = true) :
    a.writes kind = !kind.isRuntime := by
  cases kind with
  | string bound wide => cases a <;> cases bound <;> rfl
  | _ => cases a <;> first | rfl | cases isType

theorem writes_of_isDeclared {kind : Kind} (declared : kind.isDeclared = true) :
    declaration.writes kind = true := by
  cases kind <;> first | rfl | cases declared

theorem writes_marshalling {kind : Kind} (writes : marshalling.writes kind = true) :
    kind.isType = true ∧ declaration.writes kind = true := by
  cases kind with
  | string bound wide =>
    cases bound with
    | none => cases writes
    | some bound => exact ⟨rfl, rfl⟩
  | _ => first | exact ⟨rfl, rfl⟩ | cases writes

end Aspect

namespace Emit

variable {ctx : Context} {a : Aspect} {unit node : Nat} {s s' : Session} {outside : Bool}

theorem declare_returns {resolve : Nat → Emit String}
    (writes : ctx.tree.hasKind (Aspect.declaration.writes ·) node = true) :
    (declare ctx resolve node).Returns (·.isSome) := by
  unfold declare
  obtain ⟨present, found, written⟩ := Tree.exists_of_hasKind writes
  rw [kindOf_of_kind (Tree.kind?_eq found), pure_bind]
  cases kind : present.kind with
  | module | primitive => simp [kind, Aspect.writes] at written
  | string bound wide =>
    cases bound with
    | none => simp [kind, Aspect.writes] at written
    | some bound =>
      repeat refine Returns.bind fun _ => ?_
      exact Returns.pure rfl
  | branch | enumerator | argument | field => exact Returns.throw
  | _ =>
    repeat refine Returns.bind fun _ => ?_
    exact Returns.pure rfl

theorem encode_returns {resolve : Nat → Emit String}
    (writes : ctx.tree.hasKind (Aspect.marshalling.writes ·) node = true) :
    (encode ctx resolve node).Returns (·.isSome) := by
  unfold encode
  obtain ⟨present, found, written⟩ := Tree.exists_of_hasKind writes
  rw [kindOf_of_kind (Tree.kind?_eq found), pure_bind]
  cases kind : present.kind with
  | module | primitive | constant | «attribute» | operation =>
    simp [kind, Aspect.writes, Kind.isType] at written
  | string bound wide =>
    cases bound with
    | none => simp [kind, Aspect.writes] at written
    | some bound =>
      repeat refine Returns.bind fun _ => ?_
      exact Returns.pure rfl
  | branch | enumerator | argument | field => exact Returns.throw
  | _ =>
    repeat refine Returns.bind fun _ => ?_
    exact Returns.pure rfl

theorem item_parts {resolve : Nat → Emit String} (writes : ctx.tree.hasKind a.writes node = true) :
    (a.item ctx resolve node).Returns (·.filterMap Item.part? = [(a.part, node)]) := by
  intro items gives
  unfold Aspect.item at gives
  cases a with
  | declaration =>
    obtain ⟨declared, given, last⟩ := gives.bind
    obtain ⟨d, rfl⟩ := Option.isSome_iff_exists.mp (declare_returns writes declared given)
    rw [last.pure]
    rfl
  | marshalling =>
    obtain ⟨encoded, given, last⟩ := gives.bind
    obtain ⟨codec, rfl⟩ := Option.isSome_iff_exists.mp (encode_returns writes encoded given)
    rw [last.pure]
    rfl

theorem marshalProfiles_parts (isType : ctx.tree.hasKind Kind.isType node = true)
    (writes : ctx.tree.hasKind a.writes node = true) :
    (marshalProfiles ctx node).Returns (·.filterMap Item.part? = [(.profiles, node)]) := by
  unfold marshalProfiles
  obtain ⟨present, found, typed⟩ := Tree.exists_of_hasKind isType
  rw [Tree.hasKind_eq found] at writes
  rw [kindOf_of_kind (Tree.kind?_eq found), pure_bind]
  cases kind : present.kind with
  | module | constant | «attribute» | operation | branch | enumerator | argument | field =>
    simp [kind, Kind.isType] at typed
  | primitive => simp [kind, Aspect.writes] at writes
  | _ =>
    repeat refine Returns.bind fun _ => ?_
    exact Returns.pure rfl

theorem body_parts (node : Nat) : (body ctx node).Returns (·.filterMap Item.part? = []) := by
  unfold body
  refine Returns.bind fun kind => ?_
  cases kind with
  | branch | enumerator | argument | field => exact Returns.throw
  | _ =>
    repeat refine Returns.bind fun _ => ?_
    exact Returns.pure rfl

theorem descriptors_parts (node : Nat) : (descriptors ctx node).Returns fun parts =>
    parts.1.filterMap Item.part? = [] ∧ parts.2.filterMap Item.part? = [] := by
  unfold descriptors
  repeat refine Returns.bind fun _ => ?_
  exact Returns.pure ⟨rfl, rfl⟩

theorem descriptorBodies_parts (node : Nat) :
    (descriptorBodies ctx node).Returns (·.filterMap Item.part? = []) := by
  unfold descriptorBodies
  repeat refine Returns.bind fun _ => ?_
  exact Returns.pure rfl

theorem servants_parts (node : Nat) : (servants ctx node).Returns (·.filterMap Item.part? = []) :=
  Returns.bind fun _ => Returns.pure rfl

theorem servantBodies_parts (node : Nat) :
    (servantBodies ctx node).Returns (·.filterMap Item.part? = []) :=
  Returns.bind fun _ => Returns.pure rfl

theorem dispatchEntries_parts (node : Nat) :
    (dispatchEntries ctx node).Returns (·.filterMap Item.part? = []) :=
  Returns.bind fun _ => Returns.pure rfl

end Emit

/-! ## References to the own package -/

/-- There is something to write for `node`, and `unit` is the package it belongs in. -/
def Tree.Owns (t : Tree) (unit : Nat) (a : Aspect) (node : Nat) : Prop :=
  t.hasKind a.writes node = true ∧ t.packageOf node = unit

theorem Tree.owns_of_isLocal {t : Tree} {unit node : Nat} {known : List Nat} (a : Aspect)
    (isLocal : t.isLocal unit known node = true) : t.Owns unit a node := by
  obtain ⟨ordinary, inside⟩ := isLocal_iff.mp isLocal
  obtain ⟨present, found, kind⟩ := exists_of_hasKind ordinary
  obtain ⟨isType, isOrdinary⟩ := Bool.and_eq_true_iff.mp kind
  exact ⟨by rw [hasKind_eq found, Aspect.writes_of_type isType, isOrdinary], (isOutside_eq_false.mp inside).1⟩

/-- Types that an artifact of `unit` has to declare itself, under the settings. -/
abbrev Context.isLocal (ctx : Context) (unit node : Nat) : Bool := ctx.tree.isLocal unit ctx.settings.imports node

/-- An artifact of `unit` has to write the aspect of `node` itself, under the settings. -/
structure Context.Expects (ctx : Context) (unit : Nat) (a : Aspect) (node : Nat) : Prop where
  owns : ctx.tree.Owns unit a node
  inside : ctx.tree.isOutside unit ctx.settings.imports node = false

theorem Context.expects_of_isLocal {ctx : Context} {unit node : Nat} (a : Aspect)
    (isLocal : ctx.isLocal unit node = true) : ctx.Expects unit a node :=
  ⟨Tree.owns_of_isLocal a isLocal, (Tree.isLocal_iff.mp isLocal).2⟩

theorem Context.Expects.isLocal {ctx : Context} {unit node : Nat} {a : Aspect} (expects : ctx.Expects unit a node)
    (isType : ctx.tree.hasKind Kind.isType node = true) : ctx.isLocal unit node = true := by
  obtain ⟨present, found, kind⟩ := Tree.exists_of_hasKind isType
  have writes := expects.owns.1
  rw [Tree.hasKind_eq found, Aspect.writes_of_type kind] at writes
  refine Tree.isLocal_iff.mpr ⟨?_, expects.inside⟩
  rw [Tree.hasKind_eq found, kind, writes]
  rfl

/-- The dependencies are those of an artifact of `unit` under the settings. -/
abbrev Context.Packaged (ctx : Context) (unit : Nat) (d : Dependencies) : Prop :=
  d.Packaged ctx.tree unit ctx.settings.imports

namespace Emit

open Dependencies

variable {ctx : Context} {a : Aspect} {unit node : Nat} {s s' : Session} {outside : Bool}

theorem Sighting.trace (sighting : Sighting ctx a node s outside s') : s'.trace = s.trace := by
  cases sighting <;> rfl

/-! ## What leaves the trace alone -/

/-- A step that keeps the trace, and records packages only, keeps to the conduct. -/
structure Tolerates (ctx : Context) (unit : Nat) (c : Conduct Session) : Prop where
  lawful : c.Lawful
  packaged : ∀ {s}, c.holds s → ctx.Packaged unit s.deps
  still : ∀ {s s'}, c.holds s → ctx.Packaged unit s'.deps → s'.trace = s.trace →
    c.holds s' ∧ c.moves s s'
  stops : ∀ {s s'}, c.stops s s'
  faults : ∀ fault, c.faults fault

namespace Tolerates

variable {c : Conduct Session} (tolerates : Tolerates ctx unit c)
include tolerates

theorem follows {α : Type} {act : Emit α} (step : ∀ {s r s'}, ctx.Packaged unit s.deps →
    act s = .ok r s' → ctx.Packaged unit s'.deps ∧ s'.trace = s.trace) : act.Follows c [] := by
  intro s holds
  cases done : act s with
  | error fault s' => exact ⟨tolerates.stops, tolerates.faults fault⟩
  | ok r s' =>
    obtain ⟨packaged, same⟩ := step (tolerates.packaged holds) done
    obtain ⟨held, moved⟩ := tolerates.still holds packaged same
    exact ⟨held, moved, fun n listed => absurd listed List.not_mem_nil⟩

theorem names (act : NameTable.Lookup String) : (withNames act).Follows c [] := by
  apply tolerates.follows
  intro s name s' packaged done
  obtain ⟨names, rfl⟩ := withNames_run done
  exact ⟨packaged, rfl⟩

theorem runtime (package : String) (isUsed : Bool) :
    (updateDeps fun d => { d with runtime := addRuntime package isUsed d.runtime }).Follows c [] := by
  apply tolerates.follows
  intro s _ s' packaged done
  cases done
  exact ⟨packaged.setRuntime _, rfl⟩

theorem allows {written : Nat → Prop} (wf : ctx.tree.WellFormed)
    (bases : ∀ {node kind base}, written node → ctx.tree.kind? node = some kind → base ∈ kind.firstBase? →
      ctx.tree.hasKind Kind.isUnit base = true) : Allows ctx c written := by
  constructor
  case lawful => exact tolerates.lawful
  case wellFormed => exact wf
  case localNames => exact fun _ => tolerates.names _
  case fullNames => exact fun _ => tolerates.names _
  case requires => exact fun package => tolerates.runtime package false
  case uses => exact fun package => tolerates.runtime package true
  case bounds => exact fun _ _ => tolerates.faults _
  case sizes =>
    intro node dims element found
    apply tolerates.follows
    intro s fixed s' packaged done
    obtain ⟨sizes, rfl⟩ := isFixedSize_run done
    exact ⟨packaged, rfl⟩
  case enumerators =>
    intro node kind e found listed
    apply tolerates.follows
    intro s name s' packaged done
    obtain ⟨outside, seen, sighting, rest⟩ := enumeratorName_run done
    have packagedSeen := sighting.packaged wf packaged
    rcases rest with ⟨-, short⟩ | ⟨-, named, full, rfl⟩
    · obtain ⟨names, rfl⟩ := withNames_run short
      exact ⟨packagedSeen, sighting.trace⟩
    · obtain ⟨names, rfl⟩ := withNames_run full
      exact ⟨packagedSeen.mention _, sighting.trace⟩
  case bases =>
    intro node kind base among found first
    refine ⟨?_, tolerates.names _⟩
    apply tolerates.follows
    intro s _ s' packaged done
    cases done
    exact ⟨packaged.record (bases among found first), rfl⟩

theorem fits {p : Kind → Bool} {node : Nat} : Fits ctx c p node := .inr tolerates.faults

end Tolerates

theorem refer_trace {resolve : Nat → Emit String} {name : String} (wf : ctx.tree.WellFormed)
    (packaged : ctx.Packaged unit s.deps) (done : refer ctx a resolve node s = .ok name s') :
    ¬ ctx.Expects unit a node ∧ ctx.Packaged unit s'.deps ∧ s'.trace = s.trace ∨
      ctx.isLocal unit node = true ∧ ∃ placed names,
        place (produce ctx a resolve node) s = .ok () placed ∧ s' = { placed with names } := by
  obtain ⟨isType, outside, seen, sighting, rest⟩ := refer_run done
  have local_iff := sighting.isLocal_iff wf packaged isType
  have packagedSeen := sighting.packaged wf packaged
  rcases rest with ⟨rfl, named⟩ | ⟨rfl, placed, written, named⟩
  · left
    obtain ⟨names, rfl⟩ := externalName_run named
    refine ⟨fun expects => absurd (local_iff.mp (expects.isLocal isType)) (by simp), packagedSeen.mention _, ?_⟩
    rw [← sighting.trace]
    cases a <;> rfl
  · right
    obtain ⟨names, rfl⟩ := typeName_run named
    refine ⟨local_iff.mpr rfl, placed, names, ?_, rfl⟩
    cases sighting
    exact written

/-- The session is at work on `unit` and has come to the trace `τ`. -/
structure Stands (ctx : Context) (unit : Nat) (τ : Trace) (s : Session) : Prop where
  packaged : ctx.Packaged unit s.deps
  trace_eq : s.trace = τ

theorem stands_tolerates (τ : Trace) : Tolerates ctx unit (.keeping (Stands ctx unit τ)) :=
  ⟨Conduct.keeping_lawful _, fun stands => stands.packaged,
    fun stands packaged same => ⟨⟨packaged, same.trans stands.trace_eq⟩, trivial⟩, trivial, fun _ => trivial⟩

theorem isDone_iff {a : Aspect} : a.isDone s.progress node = true ↔ node ∈ a.done s.trace := by
  cases a <;> exact List.contains_iff_mem

theorem nameWithin_stands (wf : ctx.tree.WellFormed) {τ : Trace}
    (settled : ctx.isLocal unit node = true → node ∈ a.done τ) (depth : Nat) :
    (nameWithin ctx a depth node).Follows (.keeping (Stands ctx unit τ)) [node] := by
  cases depth with
  | zero => exact .throw (Conduct.keeping_lawful _) trivial
  | succ depth =>
    apply Follows.keeping
    intro s name s' stands done
    rcases refer_trace wf stands.packaged done with ⟨-, packaged, same⟩ | ⟨isLocal, placed, names, written, rfl⟩
    · exact ⟨packaged, same.trans stands.trace_eq⟩
    · obtain ⟨items, after, run, rfl⟩ := place_ok written
      rcases produce_ok run with ⟨-, rfl, rfl⟩ | ⟨fresh, -⟩
      · refine ⟨stands.packaged, ?_⟩
        rw [← stands.trace_eq, List.append_nil]
        rfl
      · rw [← stands.trace_eq] at settled
        exact absurd (isDone_iff.mpr (settled isLocal)) (by simp [fresh])

end Emit

end AdaStubs
