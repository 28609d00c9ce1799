import AdaStubs.Proofs.Emission.Completion
import AdaStubs.Proofs.Generation.Course

/-!
# Completion of a generation

A generation fails only where the tree refers to something that is no type, names an anonymous type without an
owner, or has a bound that is refused. It always comes to an end, and looks up nodes of the tree only, if the
tree refers to its own nodes only.

Main statements: `generate_succeeds`, `generate_ends_within_tree`.
-/

namespace AdaStubs

open Ada Run

namespace Emit

variable {ctx : Context} {tolerated : Fault → Prop} {unit : Nat} {s : Session}

theorem Working.opening (imports : ∀ e ∈ ctx.settings.imports, e ∈ ctx.tree.ids)
    (isUnit : ctx.tree.hasKind Kind.isUnit unit = true) (holds : Working ctx [] s) :
    Working ctx [] (opening ctx unit s) := by
  have packaged := Dependencies.Packaged.of_told ctx.tree unit ctx.settings.imports
  refine ⟨holds.rests, holds.busy_eq, holds.sized, ?_, fun {a e} listed => ?_, holds.declared⟩
  · rw [show (Emit.opening ctx unit s).deps.unit = unit from packaged.unit_eq]
    exact Tree.mem_ids_of_hasKind isUnit
  · exact (packaged.packages listed).elim (imports e) Tree.mem_ids_of_hasKind

theorem working_carries (sustains : Sustains ctx tolerated)
    (imports : ∀ e ∈ ctx.settings.imports, e ∈ ctx.tree.ids)
    (isUnit : ctx.tree.hasKind Kind.isUnit unit = true) : Carries ctx unit (working ctx tolerated []) where
  allows := working_allows sustains
  opens := .modify fun holds => ⟨holds.opening imports isUnit, trivial⟩
  hoists := hoist_working
  takes holds := ⟨⟨holds.rests, holds.busy_eq, holds.sized, holds.unit, holds.recorded, nofun⟩, trivial⟩
  declared holds n listed := .inl (holds.declared n listed)
  units holds := fits_of_mem_ids holds.unit
  entries holds _ _ listed := fits_of_mem_ids (holds.recorded listed)
  refers listed _ := nameWithin_working sustains (.start ctx.tree) (sustains.resolves.admits listed)
  declares declared _ := produce_nameFor_working sustains (Fits.imp Kind.not_isPart_of_isDeclared (.inl declared))
  encodes isType := produce_nameFor_working sustains (isType.imp Kind.not_isPart_of_isType)

theorem working_start (wf : ctx.tree.WellFormed) : Working ctx [] .start := by
  refine ⟨NameTable.rests_empty ctx, rfl, rfl, Tree.mem_ids_of_hasKind wf.isUnit_root, fun {a e} listed => ?_, nofun⟩
  cases a <;> cases listed

end Emit

open Emit

/-- A generation that does not fail at once, at an import that is no node of the tree, fails only in a way that
is tolerated. -/
theorem generate_tolerated {ctx : Context} {tolerated : Fault → Prop} (sustains : Sustains ctx tolerated)
    (known : ctx.unknownImport? = none) {fault : Fault} (failed : generate ctx = .error fault) : tolerated fault := by
  have wf := sustains.wellFormed
  have imports := mem_ids_of_imports known
  have follows : (generateUnits ctx (ctx.tree.units Tree.root)).Follows (working ctx tolerated []) [] := by
    have each : ∀ u ∈ ctx.tree.units Tree.root, (generateUnit ctx u).Follows (working ctx tolerated []) [] := by
      intro u listed
      have isUnit := Tree.isUnit_of_mem_units wf.isUnit_root listed
      exact generateUnit_follows (working_carries sustains imports isUnit) isUnit
    refine .seq working_lawful ?_ fun _ => .pure working_lawful _
    exact (Follows.mapM working_lawful each).weaken (by simp)
  unfold generate at failed
  rw [known] at failed
  dsimp only at failed
  split at failed
  · cases failed
  · next run =>
    cases failed
    exact (follows.error (working_start wf) run).2

/-! ## Trees that refer to their own nodes -/

theorem NameTable.error_of_localResult {ctx : Context} (wf : ctx.tree.WellFormed) {node : Nat} {kind : Kind}
    (found : ctx.tree.kind? node = some kind) {fault : Fault} (failed : localResult ctx node = .error fault) :
    kind.isAnonymous = true ∧ fault = .error (.unowned node kind) := by
  obtain ⟨present, lookup, rfl⟩ := Option.map_eq_some_iff.mp found
  cases anonymous : present.kind.isAnonymous with
  | false =>
    obtain ⟨name, given⟩ := localResult_of_named wf lookup anonymous
    cases given.symm.trans failed
  | true =>
    rcases localResult_of_anonymous wf lookup anonymous with ⟨name, given⟩ | ⟨-, refused⟩
    · cases given.symm.trans failed
    · cases refused.symm.trans failed
      exact ⟨rfl, rfl⟩

/-- Whatever is referred to, be it a type or not and be it declared later or in a circle, a generation on a tree
that refers to its own nodes only makes its artifacts or reports an error. -/
theorem generate_ends_within_tree (script : List Step) (settings : Settings)
    (inRange : ∀ id ∈ (Tree.ofSteps script).ids, ∀ kind ∈ (Tree.ofSteps script).kind? id,
      ∀ r ∈ kind.typeRefs ++ kind.firstBase?.toList ++ kind.enumerators, r ∈ (Tree.ofSteps script).ids) :
    (∃ outputs, generate ⟨.ofSteps script, settings⟩ = .ok outputs) ∨
      ∃ e, generate ⟨.ofSteps script, settings⟩ = .error (.error e) := by
  have wf := Tree.ofSteps_wellFormed script
  have reached {node kind r} (found : (Tree.ofSteps script).kind? node = some kind) :=
    inRange node (Tree.mem_ids_of_kind? found) kind found r
  have sustains : Sustains ⟨.ofSteps script, settings⟩ fun fault => ∃ e, fault = .error e := by
    constructor
    case wellFormed => exact wf
    case resolves => exact fun node kind found r listed => ⟨reached found (by simp [listed]), fun _ _ => ⟨_, rfl⟩⟩
    case names => exact fun found failed => ⟨_, (NameTable.error_of_localResult wf found failed).2⟩
    case bases => exact fun found first => reached found (by simp [Option.mem_def.mp first])
    case enumerators => exact fun found listed => reached found (by simp [listed])
    case bounds => exact fun _ _ => ⟨_, rfl⟩
  cases known : Context.unknownImport? ⟨.ofSteps script, settings⟩ with
  | some node =>
    right
    unfold generate
    rw [known]
    exact ⟨_, rfl⟩
  | none =>
    cases made : generate ⟨.ofSteps script, settings⟩ with
    | ok outputs => exact .inl ⟨outputs, rfl⟩
    | error fault =>
      obtain ⟨e, rfl⟩ := generate_tolerated sustains known made
      exact .inr ⟨e, rfl⟩

/-- A typedef, an array and a sequence of themselves, a field of another field, and an interface that inherits
from the typedef. -/
def oddReferences : List Step :=
  [.module 0 "M", .typedef 1 "Loop" 2, .struct 1 "S", .array 3 [.long 2] 4, .field 3 "grid" 4, .sequence 3 6 none,
    .field 3 "list" 6, .field 3 "odd" 5, .interface 1 "I" [2]]

/-- The circles are gone through, and the field that is no type is reported. -/
theorem odd_references_reported : (generate ⟨.ofSteps oddReferences, {}⟩).isOk = false ∧
    ∃ e, generate ⟨.ofSteps oddReferences, {}⟩ = .error (.error e) := by
  have refused : (generate ⟨.ofSteps oddReferences, {}⟩).isOk = false := by decide +kernel
  refine ⟨refused, (generate_ends_within_tree oddReferences {} (by decide +kernel)).resolve_left ?_⟩
  rintro ⟨outputs, made⟩
  rw [made] at refused
  cases refused

/-! ## Trees that refer to types -/

/-- Non-negative values of the types that a bound may have. -/
def Value.isExtent : Value → Bool
  | .short v => 0 ≤ v.toInt
  | .long v => 0 ≤ v.toInt
  | .unsignedShort _ | .unsignedLong _ => true
  | _ => false

namespace Kind

/-- The bound of a sequence or string. -/
def bound? : Kind → Option Value
  | .sequence _ bound | .string bound _ => bound
  | _ => none

/-- The dimensions of an array. -/
def dims? : Kind → Option (List Value)
  | .array dims _ => some dims
  | _ => none

end Kind

/-- All that the nodes of the tree refer to is of the right kind, their bounds can be counted, and the types
among them that have no name of their own are given one. -/
structure Context.WellTyped (ctx : Context) : Prop where
  types : ∀ id ∈ ctx.tree.ids, ∀ kind ∈ ctx.tree.kind? id, ∀ r ∈ kind.typeRefs, ctx.tree.hasKind Kind.isType r = true
  bases : ∀ id ∈ ctx.tree.ids, ∀ kind ∈ ctx.tree.kind? id, ∀ base ∈ kind.firstBase?, isInterface ctx base = true
  enumerators : ∀ id ∈ ctx.tree.ids, ∀ kind ∈ ctx.tree.kind? id, ∀ e ∈ kind.enumerators,
    ctx.tree.kind? e = some .enumerator
  bounds : ∀ id ∈ ctx.tree.ids, ∀ kind ∈ ctx.tree.kind? id, ∀ bound ∈ kind.bound?, bound.isExtent = true
  counts : ∀ id ∈ ctx.tree.ids, ∀ kind ∈ ctx.tree.kind? id, ∀ dims ∈ kind.dims?, (elementCount dims id).isOk = true
  names : ∀ id ∈ ctx.tree.ids, ctx.tree.hasKind Kind.isAnonymous id = true →
    ((NameTable.localName ctx id).outcome .empty).isOk = true
  imports : ∀ id ∈ ctx.settings.imports, id ∈ ctx.tree.ids

theorem Value.extent_of_isExtent {v : Value} (isExtent : v.isExtent = true) (node : Nat) (context : String) :
    ∃ n, v.extent node context = .ok n := by
  have accepted {n : Int} (given : v.bound? = some n) (positive : 0 ≤ n) : ∃ n, v.extent node context = .ok n := by
    refine ⟨n.toNat, ?_⟩
    have small : ¬ n < 0 := Int.not_lt.mpr positive
    unfold extent bound
    rw [given]
    exact if_neg small
  cases v with
  | short v => exact accepted rfl (of_decide_eq_true isExtent)
  | long v => exact accepted rfl (of_decide_eq_true isExtent)
  | unsignedShort v => exact accepted rfl (Int.natCast_nonneg _)
  | unsignedLong v => exact accepted rfl (Int.natCast_nonneg _)
  | _ => cases isExtent

namespace Context.WellTyped

variable {ctx : Context} (typed : ctx.WellTyped) {node : Nat} {kind : Kind} (found : ctx.tree.kind? node = some kind)
include typed found

theorem bound_accepted {e : Error} : ¬ kind.BoundRefused node e := by
  have listed := Tree.mem_ids_of_kind? found
  have bounded {bound : Value} {context : String} (given : kind.bound? = some bound) :
      bound.extent node context ≠ .error e := by
    obtain ⟨n, accepted⟩ := Value.extent_of_isExtent (typed.bounds node listed kind found bound given) node context
    simp [accepted]
  intro refused
  cases kind with
  | array dims element =>
    have counted := typed.counts node listed _ found dims rfl
    rcases refused with early | late
    · simp [elementCount, early, bind, Except.bind, Except.isOk, Except.toBool] at counted
    · simp [late, Except.isOk, Except.toBool] at counted
  | sequence element bound =>
    cases bound with
    | none => exact refused
    | some bound => exact bounded rfl refused
  | string bound wide =>
    cases bound with
    | none => exact refused
    | some bound => exact bounded rfl refused
  | _ => exact refused

theorem localResult_accepted (wf : ctx.tree.WellFormed) {fault : Fault} :
    NameTable.localResult ctx node ≠ .error fault := by
  intro failed
  have anonymous := (NameTable.error_of_localResult wf found failed).1
  have named := typed.names node (Tree.mem_ids_of_kind? found) (Tree.hasKind_of_kind found anonymous)
  obtain ⟨names, run, -⟩ := NameTable.localName_run wf node (NameTable.rests_empty ctx)
  rw [outcome_of_lift run, failed] at named
  cases named

end Context.WellTyped

/-- Such a tree is generated, also if its types refer to each other in circles. -/
theorem generate_succeeds (script : List Step) (settings : Settings)
    (typed : Context.WellTyped ⟨.ofSteps script, settings⟩) :
    ∃ outputs, generate ⟨.ofSteps script, settings⟩ = .ok outputs := by
  have wf := Tree.ofSteps_wellFormed script
  have sustains : Sustains ⟨.ofSteps script, settings⟩ fun _ => False := by
    constructor
    case wellFormed => exact wf
    case resolves =>
      intro node kind found r listed
      have isType := typed.types node (Tree.mem_ids_of_kind? found) kind found r listed
      refine ⟨Tree.mem_ids_of_hasKind isType, fun other noType => ?_⟩
      simp [Tree.hasKind, other, noType] at isType
    case names => exact fun found failed => typed.localResult_accepted found wf failed
    case bases =>
      exact fun found first => Tree.mem_ids_of_hasKind (typed.bases _ (Tree.mem_ids_of_kind? found) _ found _ first)
    case enumerators =>
      exact fun found listed =>
        Tree.mem_ids_of_kind? (typed.enumerators _ (Tree.mem_ids_of_kind? found) _ found _ listed)
    case bounds => exact fun found refused => typed.bound_accepted found refused
  have known : Context.unknownImport? ⟨.ofSteps script, settings⟩ = none := by
    refine List.find?_eq_none.mpr fun e listed => ?_
    obtain ⟨kind, found⟩ := Tree.exists_of_mem_ids (typed.imports e listed)
    obtain ⟨node, lookup, -⟩ := Option.map_eq_some_iff.mp found
    simp [lookup]
  cases made : generate ⟨.ofSteps script, settings⟩ with
  | ok outputs => exact ⟨outputs, rfl⟩
  | error fault => exact absurd (generate_tolerated sustains known made) id

/-- Structures that hold themselves, each other, and a sequence and an array of each other; a typedef of itself;
a union of itself with an enumerator for a label; and an interface that inherits and gives references to itself. -/
def circularTypes : List Step :=
  [.module 0 "M", .typedef 1 "Loop" 2, .struct 1 "S", .field 3 "own" 3, .sequence 3 7 (some (.long 4)),
    .field 3 "later" 5, .struct 1 "T", .array 7 [.long 3, .unsignedShort 2] 7, .field 7 "grid" 8, .field 7 "s" 3,
    .union 1 "U" 12, .enum 1 "E" ["a"], .branch 11 "b" [.value (.enumerator 13)] 11, .interface 1 "I" [],
    .interface 1 "J" [15], .operation 16 "op" (some 16) false [], .argument 17 "x" .input 11,
    .constant 1 "c" 12 (.enumerator 13)]

theorem circular_types_generated : ∃ outputs, generate ⟨.ofSteps circularTypes, { imports := [15] }⟩ = .ok outputs := by
  apply generate_succeeds
  constructor <;> decide +kernel

end AdaStubs
