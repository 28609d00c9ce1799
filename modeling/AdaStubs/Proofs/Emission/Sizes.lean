import Mathlib.Order.Bounds.Defs
import AdaStubs.Proofs.Emission.History

/-!
# Types of fixed size, whatever was asked before

The search for sizes remembers what it finds, also while it takes types that it has come back to for variable. What
it remembers is right all the same, so that every answer is that of a session which has done nothing.

Main statement: `fixed_sizes_are_least`.
-/

namespace AdaStubs

open Run

namespace Tree

/-- The values of `n` always take the same number of bytes if those of all of `parts` do. -/
inductive SizedBy (t : Tree) (n : Nat) : List Nat → Prop
  | primitive {p : Primitive} {size : Nat} (found : t.kind? n = some (.primitive p)) (sized : p.wireSize? = some size) :
      SizedBy t n []
  | enum (found : t.kind? n = some .enum) : SizedBy t n []
  | fixedPoint {digits scale : Nat} (found : t.kind? n = some (.fixed digits scale)) : SizedBy t n []
  | array {dims : List Value} {element : Nat} (found : t.kind? n = some (.array dims element)) : SizedBy t n [element]
  | typedef {base : Nat} (found : t.kind? n = some (.typedef base)) : SizedBy t n [base]
  | struct (found : t.kind? n = some .struct) : SizedBy t n (SizeTable.fieldTypes t n)
  | exception (found : t.kind? n = some .exception) : SizedBy t n (SizeTable.fieldTypes t n)

/-- A set that holds whatever is made of its members only. -/
def ClosedUnderMaking (t : Tree) (types : Set Nat) : Prop :=
  ∀ n parts, t.SizedBy n parts → (∀ r ∈ parts, r ∈ types) → n ∈ types

/-- One of the types that decide on the size of `n` is `r`. -/
def MadeOf (t : Tree) (n r : Nat) : Prop := ∃ parts, t.SizedBy n parts ∧ r ∈ parts

/-- All references to types are references to nodes. -/
def RefersInside (t : Tree) : Prop := ∀ id ∈ t.ids, ∀ kind ∈ t.kind? id, ∀ r ∈ kind.typeRefs, r ∈ t.ids

instance (t : Tree) : Decidable t.RefersInside := inferInstanceAs (Decidable (∀ id ∈ t.ids, _))

variable {t : Tree} {n r : Nat} {parts : List Nat} {fault : Fault}

theorem need_of_kind {kind : Kind} (found : t.kind? n = some kind) :
    ∃ name scope members anonymous, t.need n = .ok ⟨name, scope, kind, members, anonymous⟩ := by
  obtain ⟨⟨name, scope, kind, members, anonymous⟩, lookup, rfl⟩ := Option.map_eq_some_iff.mp found
  exact ⟨name, scope, members, anonymous, NameTable.need_of_found lookup⟩

theorem kind_of_need {node : Node} (present : t.need n = .ok node) : t.kind? n = some node.kind := by
  unfold need at present
  split at present
  · next found =>
    cases present
    exact kind?_eq found
  · cases present

theorem SizedBy.sizeParts_eq (sized : t.SizedBy n parts) : t.sizeParts n = .ok (some parts) := by
  cases sized with
  | primitive found sized =>
    have fixed : Primitive.isFixedSize _ = true := Option.isSome_iff_exists.mpr ⟨_, sized⟩
    obtain ⟨_, _, _, _, present⟩ := need_of_kind found
    rw [sizeParts, present]
    exact congrArg Except.ok (if_pos fixed)
  | enum found | fixedPoint found | array found | typedef found | struct found | exception found =>
    obtain ⟨_, _, _, _, present⟩ := need_of_kind found
    rw [sizeParts, present]
    rfl

theorem sizedBy_of_sizeParts (given : t.sizeParts n = .ok (some parts)) : t.SizedBy n parts := by
  unfold sizeParts at given
  cases present : t.need n with
  | error fault =>
    rw [present] at given
    cases given
  | ok node =>
    have found := kind_of_need present
    rw [present] at given
    obtain ⟨_, _, kind, _, _⟩ := node
    cases kind with
    | primitive p =>
      have given : (if p.isFixedSize then some [] else none) = some parts := Except.ok.inj given
      split at given
      · next fixed =>
        cases given
        obtain ⟨size, sized⟩ := Option.isSome_iff_exists.mp fixed
        exact .primitive found sized
      · cases given
    | enum => cases given; exact .enum found
    | fixed digits scale => cases given; exact .fixedPoint found
    | array dims element => cases given; exact .array found
    | typedef base => cases given; exact .typedef found
    | struct => cases given; exact .struct found
    | exception => cases given; exact .exception found
    | _ => cases given

theorem sizeParts_eq_some_iff : t.sizeParts n = .ok (some parts) ↔ t.SizedBy n parts :=
  ⟨sizedBy_of_sizeParts, SizedBy.sizeParts_eq⟩

/-! ## The least set -/

theorem fixedSize_isLeast (t : Tree) : IsLeast {types | t.ClosedUnderMaking types} {n | t.FixedSize n} := by
  constructor
  · intro n parts sized each
    exact .made sized.sizeParts_eq each
  · intro types closed n fixed
    induction fixed with
    | made found each ih => exact closed _ _ (sizeParts_eq_some_iff.mp found) ih

theorem FixedSize.not_circular (fixed : t.FixedSize n) : ¬ Relation.TransGen t.MadeOf n n := by
  induction fixed with
  | made found each ih =>
    intro circle
    obtain ⟨r, ⟨parts, sized, listed⟩, rest⟩ := Relation.TransGen.head'_iff.mp circle
    cases found.symm.trans sized.sizeParts_eq
    exact ih r listed (.tail' rest ⟨_, sized, listed⟩)

/-! ## Refusals -/

theorem mem_ids_of_sizedBy (inside : t.RefersInside) (sized : t.SizedBy n parts) : ∀ r ∈ parts, r ∈ t.ids := by
  have fields : ∀ r ∈ SizeTable.fieldTypes t n, r ∈ t.ids := by
    intro r listed
    rw [SizeTable.fieldTypes_eq] at listed
    obtain ⟨⟨field, type⟩, among, rfl⟩ := List.mem_map.mp listed
    have found := kind?_of_mem_fields among
    exact inside field (mem_ids_of_kind? found) _ found type List.mem_cons_self
  cases sized with
  | primitive | enum | fixedPoint => simp
  | array found | typedef found => exact inside n (mem_ids_of_kind? found) _ found
  | struct found | exception found => exact fields

/-- A node that there is has its size refused only for not being a type. -/
theorem wrongKind_of_sizeParts (present : n ∈ t.ids) (failed : t.sizeParts n = .error fault) :
    ∃ kind, t.kind? n = some kind ∧ kind.isType = false ∧ fault = .error (.wrongKind n "type" kind) := by
  obtain ⟨kind, found⟩ := exists_of_mem_ids present
  obtain ⟨_, _, _, _, given⟩ := need_of_kind found
  rw [sizeParts, given] at failed
  refine ⟨kind, found, ?_⟩
  cases kind <;> cases failed <;> exact ⟨rfl, rfl⟩

theorem Refused.wrongKind (inside : t.RefersInside) (refused : t.Refused n fault) (present : n ∈ t.ids) :
    ∃ r kind, t.kind? r = some kind ∧ kind.isType = false ∧ fault = .error (.wrongKind r "type" kind) := by
  induction refused with
  | here failed => exact ⟨_, wrongKind_of_sizeParts present failed⟩
  | part found fixed refused ih =>
    exact ih (mem_ids_of_sizedBy inside (sizeParts_eq_some_iff.mp found) _ (by simp))

end Tree

namespace Emit

variable {ctx : Context} {s : Session}

theorem isFixedSize_answers (sound : s.sizes.Sound ctx.tree) (idle : s.sizes.busy = []) (n : Nat) :
    ctx.tree.SizeAnswer n ((isFixedSize ctx n).outcome s) := by
  have found := SizeTable.isFixed_finds ctx.tree n s.sizes sound idle
  unfold outcome isFixedSize withSizes
  cases run : SizeTable.isFixed ctx.tree n s.sizes with
  | ok fixed sizes =>
    rw [run] at found
    exact found.1
  | error fault sizes =>
    rw [run] at found
    exact found.1

theorem isFixedSize_after (wf : ctx.tree.WellFormed) (history : List Event) (n : Nat) :
    ctx.tree.SizeAnswer n ((isFixedSize ctx n).outcome (Session.start.after ctx history)) := by
  have start : Orderly ctx (fun _ => True) (fun _ => True) Session.start := orderly_start (.ofUnit Tree.root) trivial
  have holds := after_orderly wf (absorbs_true ctx) (writes_true ctx _) start history
  exact isFixedSize_answers holds.sizes.1 holds.sizes.2 n

end Emit

open Emit

/-- In a tree whose references to types are references to nodes, the types found to be of fixed size are the least
set that is closed under making types of them, and none that leads back to itself. Every other answer is that the
size varies, or that something referred to is not a type; and all answers are those of a session that has done
nothing, whatever was asked before and failed. -/
theorem fixed_sizes_are_least (script : List Step) (settings : Settings) (inside : (Tree.ofSteps script).RefersInside)
    (history : List Event) :
    let ctx : Context := ⟨.ofSteps script, settings⟩
    let answer (n : Nat) := (isFixedSize ctx n).outcome (Session.start.after ctx history)
    (∀ n, answer n = (isFixedSize ctx n).outcome Session.start) ∧
    (∀ n ∈ ctx.tree.ids, (∃ fixed, answer n = .ok fixed) ∨ ∃ r kind, ctx.tree.kind? r = some kind ∧
      kind.isType = false ∧ answer n = .error (.error (.wrongKind r "type" kind))) ∧
    IsLeast {types | ctx.tree.ClosedUnderMaking types} {n | answer n = .ok true} ∧
    ∀ n, Relation.TransGen ctx.tree.MadeOf n n → answer n ≠ .ok true := by
  intro ctx answer
  have wf : ctx.tree.WellFormed := Tree.ofSteps_wellFormed script
  have answers (n : Nat) : ctx.tree.SizeAnswer n (answer n) := isFixedSize_after wf history n
  have fixed_iff (n : Nat) : answer n = .ok true ↔ ctx.tree.FixedSize n := by
    have given := answers n
    refine ⟨fun fixed => ?_, fun fixed => given.unique fixed⟩
    rw [fixed] at given
    exact given
  refine ⟨fun n => (answers n).unique (isFixedSize_after wf [] n), fun n present => ?_, ?_, fun n circle fixed => ?_⟩
  · have given := answers n
    cases outcome : answer n with
    | ok fixed => exact .inl ⟨fixed, rfl⟩
    | error fault =>
      rw [outcome] at given
      obtain ⟨r, kind, found, noType, rfl⟩ := Tree.Refused.wrongKind inside given present
      exact .inr ⟨r, kind, found, noType, rfl⟩
  · rw [show {n | answer n = .ok true} = {n | ctx.tree.FixedSize n} from Set.ext fixed_iff]
    exact ctx.tree.fixedSize_isLeast
  · exact ((fixed_iff n).mp fixed).not_circular circle

/-- A list of numbers; a pair of a row of numbers and an enumerator; and an exception with a module for a field. -/
def sizedTypes : List Step :=
  [.primitive .long, .module 0 "M", .struct 2 "List", .field 3 "head" 1, .field 3 "tail" 3, .array 2 [.long 3] 1,
    .typedef 2 "Row" 6, .enum 2 "Colour" ["red"], .struct 2 "Pair", .field 10 "row" 7, .field 10 "colour" 8,
    .exception 2 "Odd", .field 13 "where" 2]

/-- The list has been looked into, then a node that there is not, then the exception. -/
def sizeQueries : List Event := [.here (.isFixedSize 3), .here (.isFixedSize 99), .here (.isFixedSize 13)]

/-- The pair is of fixed size, the list leads back to itself, and the exception is refused as it is at first. -/
theorem pair_is_of_fixed_size :
    let ctx : Context := ⟨.ofSteps sizedTypes, {}⟩
    let answer (n : Nat) := (isFixedSize ctx n).outcome (Session.start.after ctx sizeQueries)
    (Tree.ofSteps sizedTypes).RefersInside ∧ answer 10 = .ok true ∧
      (∀ types, ctx.tree.ClosedUnderMaking types → 10 ∈ types) ∧ answer 3 ≠ .ok true ∧
      answer 13 = (isFixedSize ctx 13).outcome Session.start ∧
      answer 13 = .error (.error (.wrongKind 2 "type" .module)) := by
  intro ctx answer
  have inside : (Tree.ofSteps sizedTypes).RefersInside := by decide
  obtain ⟨same, -, least, circular⟩ := fixed_sizes_are_least sizedTypes {} inside sizeQueries
  have fixed : answer 10 = .ok true := by decide
  have refused : answer 13 = .error (.error (.wrongKind 2 "type" .module)) := by decide
  have circle : ctx.tree.MadeOf 3 3 := ⟨_, .struct (by decide), by decide⟩
  exact ⟨inside, fixed, fun types closed => least.2 closed fixed, circular 3 (.single circle), same 13, refused⟩

end AdaStubs
