import AdaStubs.Proofs.Ada.IndexNests
import AdaStubs.Proofs.Emission.Composites
import AdaStubs.Proofs.Emission.Sizes

/-!
# Array plans

Three parts of an array's code are made separately from its dimensions: the index ranges of the declaration, the loops
of the marshalling bodies, and the count by which the size of one element is scaled. They agree on the number of
elements.

Main statement: `count_of_visits`.
-/

namespace AdaStubs

open Ada Run

/-- The declaration is that of an array, and its index ranges are read as `bounds`. -/
def Ada.Declaration.HasBounds (d : Declaration) (bounds : List Bounds) : Prop :=
  ∃ (name element : String) (ranges : List String), ranges.map readRange = bounds.map some ∧
    let list := ", ".intercalate ranges
    d.code = Code.line s!"type {name} is array ({list}) of {element} ;" ++ accessType name ++ Code.blank

namespace Ada.ArrayPlan

/-- The call that sizes all elements at once. -/
def closedForm (plan : ArrayPlan) : String :=
  let first := plan.nest.firstElement "A"
  s!"Tmp := Align_Size ({first}, Initial_Offset, N * {plan.count}) ;"

theorem sizing_of_fixed {plan : ArrayPlan} (fixed : plan.elementFixed = true) :
    plan.sizing = if plan.count = 0 then [] else Code.line plan.closedForm := by
  rw [sizing, if_pos fixed]
  simp only [beq_iff_eq]
  rfl

theorem closedForm_opens (plan : ArrayPlan) : ∃ rest, plan.closedForm = "Tmp := Align_Size (" ++ rest := by
  unfold closedForm
  simp only [toString, String.append_assoc]
  exact ⟨_, rfl⟩

/-- No other line at its depth reads like the call. -/
theorem closedForm_ne (plan : ArrayPlan) (sizeType : String) :
    plan.closedForm ≠ sizeVariable sizeType ∧ plan.closedForm ≠ "return Tmp ;" := by
  obtain ⟨rest, opens⟩ := plan.closedForm_opens
  rw [opens]
  constructor
  · intro same
    have letters := congrArg (fun text => text.toList[5]?) same
    simp [sizeVariable, toString] at letters
  · intro same
    have letters := congrArg (fun text => text.toList[0]?) same
    simp at letters

theorem closedForm_mem_size_iff {plan : ArrayPlan} (fixed : plan.elementFixed = true) (profile sizeType : String) :
    ⟨1, plan.closedForm⟩ ∈ plan.size profile sizeType ↔ plan.count ≠ 0 := by
  obtain ⟨notVariable, notReturn⟩ := plan.closedForm_ne sizeType
  rw [size, sizing_of_fixed fixed]
  by_cases none : plan.count = 0
  · simp [none, subprogramBody, Code.line, Code.lines, Code.nest, Code.blank, notVariable, notReturn]
  · simp [none, subprogramBody, Code.line, Code.lines, Code.nest, Code.blank]

end Ada.ArrayPlan

/-! ## Counting -/

theorem prod_of_foldlM {node count total : Nat} {sizes : List Nat}
    (counted : sizes.foldlM (countTimes node) count = .ok total) : total = count * sizes.prod := by
  induction sizes generalizing count with
  | nil =>
    cases counted
    simp
  | cons size sizes ih =>
    rw [List.foldlM_cons, countTimes] at counted
    split at counted
    · rw [ih counted, List.prod_cons, Nat.mul_assoc]
    · cases counted

theorem extents_of_elementCount {dims : List Value} {node count : Nat} (counted : elementCount dims node = .ok count) :
    ∃ sizes, extents dims node = .ok sizes ∧ count = sizes.prod := by
  unfold elementCount at counted
  cases given : extents dims node with
  | error e =>
    rw [given] at counted
    cases counted
  | ok sizes =>
    rw [given] at counted
    exact ⟨sizes, rfl, by simpa using prod_of_foldlM counted⟩

/-- The ranges of an array with the given extents. -/
def boundsOf (sizes : List Nat) : List Bounds := sizes.map fun size : Nat => ⟨0, (size : Int) - 1⟩

theorem length_indexTuples_boundsOf (sizes : List Nat) : (indexTuples (boundsOf sizes)).length = sizes.prod := by
  have each (size : Nat) : (Bounds.mk 0 (size - 1)).values.length = size := by
    simp [Bounds.values]
  rw [length_indexTuples, boundsOf, List.map_map]
  simp [Function.comp_def, each]

namespace Emit

variable {ctx : Context} {node : Nat}

theorem arrayPlan_ok {s s' : Session} {plan : ArrayPlan} (planned : arrayPlan ctx node s = .ok plan s') :
    ∃ dims element, ctx.tree.kind? node = some (.array dims element) ∧ elementCount dims node = .ok plan.count ∧
      plan.nest = .ofRank dims.length ∧ (isFixedSize ctx element).outcome s = .ok plan.elementFixed := by
  unfold arrayPlan at planned
  cases found : ctx.tree.kind? node with
  | none =>
    rw [kindOf_of_none found] at planned
    cases planned
  | some kind =>
    rw [kindOf_of_kind found, pure_bind] at planned
    cases kind with
    | array dims element =>
      obtain ⟨count, middle, counted, rest⟩ := bind_eq_ok.mp planned
      obtain ⟨fixed, after, sized, returned⟩ := bind_eq_ok.mp rest
      cases given : elementCount dims node with
      | error e =>
        rw [given] at counted
        cases counted
      | ok total =>
        rw [given] at counted
        cases counted
        cases returned
        exact ⟨dims, element, rfl, given, rfl, outcome_of_ok sized⟩
    | _ => cases planned

theorem declare_hasBounds {resolve : Nat → Emit String} {s s' : Session} {d : Declaration} {dims : List Value}
    {element : Nat} {sizes : List Nat} (found : ctx.tree.kind? node = some (.array dims element))
    (given : extents dims node = .ok sizes) (declared : declare ctx resolve node s = .ok (some d) s') :
    d.HasBounds (boundsOf sizes) := by
  unfold declare at declared
  rw [kindOf_of_kind found, pure_bind] at declared
  obtain ⟨name, _, -, ranged⟩ := bind_eq_ok.mp declared
  rw [given] at ranged
  obtain ⟨list, _, same, resolved⟩ := bind_eq_ok.mp ranged
  cases same
  obtain ⟨type, _, -, required⟩ := bind_eq_ok.mp resolved
  obtain ⟨_, _, -, returned⟩ := bind_eq_ok.mp required
  cases returned
  refine ⟨name, type, sizes.map indexRange, ?_, rfl⟩
  simp [boundsOf, readRange_indexRange]

end Emit

open Emit

/-- The count of an array's plan is the number of tuples of indices inside the ranges that the array is declared with.
The loops of the plan visit each of these tuples once and nothing else. Where the elements are of fixed size, the call
that sizes all of them at once is written exactly if there are any. -/
theorem count_of_visits (script : List Step) (settings : Settings) (history : List Event) (node : Nat)
    (plan : ArrayPlan) :
    let ctx : Context := ⟨.ofSteps script, settings⟩
    (arrayPlan ctx node).outcome (Session.start.after ctx history) = .ok plan →
    ∃ (dims : List Value) (element : Nat) (sizes : List Nat),
      ctx.tree.kind? node = some (.array dims element) ∧ extents dims node = .ok sizes ∧
      let bounds := boundsOf sizes
      let tuples := {tuple : List Int | bounds.Forall₂ Bounds.Holds tuple}
      (∀ resolve s d s', declare ctx resolve node s = .ok (some d) s' → d.HasBounds bounds) ∧
      tuples.encard = plan.count ∧
      (plan.nest.visits bounds).length = plan.count ∧ (plan.nest.visits bounds).Nodup ∧
      (∀ tuple, tuple ∈ plan.nest.visits bounds ↔ tuple ∈ tuples) ∧
      (ctx.tree.FixedSize element → ∀ profile sizeType,
        (⟨1, plan.closedForm⟩ ∈ plan.size profile sizeType ↔ tuples.encard ≠ 0)) := by
  intro ctx planned
  have wf : ctx.tree.WellFormed := Tree.ofSteps_wellFormed script
  obtain ⟨s', ran⟩ := exists_of_outcome planned
  obtain ⟨dims, element, found, counted, nest, sized⟩ := arrayPlan_ok ran
  obtain ⟨sizes, given, count⟩ := extents_of_elementCount counted
  have rank : (boundsOf sizes).length = dims.length := by
    rw [boundsOf, List.length_map, length_of_extents given]
  have visits : plan.nest.visits (boundsOf sizes) = indexTuples (boundsOf sizes) := by
    rw [nest, ← rank, IndexNest.visits_ofRank]
  have total : {tuple : List Int | (boundsOf sizes).Forall₂ Bounds.Holds tuple}.encard = plan.count := by
    rw [encard_tuples, length_indexTuples_boundsOf, count]
  refine ⟨dims, element, sizes, found, given, ?_, total, ?_, ?_, ?_, ?_⟩
  · intro resolve s d s' declared
    exact declare_hasBounds found given declared
  · rw [visits, length_indexTuples_boundsOf, count]
  · rw [visits]
    exact nodup_indexTuples _
  · intro tuple
    rw [visits]
    exact mem_indexTuples
  · intro fixed profile sizeType
    -- The plan asks the same session that answers by the tree alone.
    have answer := isFixedSize_after wf history element
    rw [sized] at answer
    have expected : ctx.tree.SizeAnswer element (.ok true) := fixed
    have elementFixed : plan.elementFixed = true := Except.ok.inj (answer.unique expected)
    rw [total, ArrayPlan.closedForm_mem_size_iff elementFixed]
    exact_mod_cast Iff.rfl

/-- A grid of two rows of three numbers, and one of two rows without any. -/
def grids : List Step :=
  [.primitive .long, .module 0 "M", .array 2 [.long 2, .unsignedShort 3] 1, .typedef 2 "Grid" 3,
    .array 2 [.long 2, .long 0] 1, .typedef 2 "Bare" 5]

theorem grids_are_counted :
    let ctx : Context := ⟨.ofSteps grids, {}⟩
    let history : List Event := [.here (.marshalBody 6)]
    let grid : ArrayPlan := ⟨.ofRank 2, 6, true⟩
    let bare : ArrayPlan := ⟨.ofRank 2, 0, true⟩
    (arrayPlan ctx 3).outcome (Session.start.after ctx history) = .ok grid ∧
    (arrayPlan ctx 5).outcome (Session.start.after ctx history) = .ok bare ∧
    (Declaration.array "Grid_Array" [2, 3] "Corba.Long").HasBounds [⟨0, 1⟩, ⟨0, 2⟩] ∧
    {tuple : List Int | List.Forall₂ Bounds.Holds [⟨0, 1⟩, ⟨0, 2⟩] tuple}.encard = 6 ∧
    (∀ profile sizeType, ⟨1, grid.closedForm⟩ ∈ grid.size profile sizeType) ∧
    {tuple : List Int | List.Forall₂ Bounds.Holds [⟨0, 1⟩, ⟨0, -1⟩] tuple}.encard = 0 ∧
    (∀ profile sizeType, ⟨1, bare.closedForm⟩ ∉ bare.size profile sizeType) := by
  intro ctx history grid bare
  have fixed : ctx.tree.FixedSize 1 := .made (show ctx.tree.sizeParts 1 = .ok (some []) by decide +kernel) (by simp)
  have gridPlan : (arrayPlan ctx 3).outcome (Session.start.after ctx history) = .ok grid := by decide +kernel
  have barePlan : (arrayPlan ctx 5).outcome (Session.start.after ctx history) = .ok bare := by decide +kernel
  obtain ⟨s, declared⟩ := exists_of_outcome
    (show (declare ctx (fun _ => pure "Corba.Long") 3).outcome Session.start =
      .ok (some (.array "Grid_Array" [2, 3] "Corba.Long")) by decide +kernel)
  obtain ⟨_, _, _, found, given, bounded, six, -, -, -, sized⟩ := count_of_visits grids {} history 3 grid gridPlan
  obtain ⟨_, _, _, found', given', -, zero, -, -, -, sized'⟩ := count_of_visits grids {} history 5 bare barePlan
  cases found
  cases found'
  cases given
  cases given'
  refine ⟨gridPlan, barePlan, bounded _ _ _ s declared, six, fun profile sizeType => ?_, zero,
    fun profile sizeType => ?_⟩
  · rw [sized fixed, six]
    simp [grid]
  · rw [sized' fixed, zero]
    simp [bare]

end AdaStubs
