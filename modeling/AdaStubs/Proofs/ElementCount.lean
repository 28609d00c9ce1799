import Mathlib.Algebra.BigOperators.Group.List.Lemmas
import Mathlib.Algebra.BigOperators.Ring.List
import Mathlib.Algebra.Order.Ring.Nat
import Mathlib.Data.List.Perm.Basic
import Mathlib.Data.List.TakeWhile
import AdaStubs.Bound

/-!
# Element counts

The extents of an array are multiplied up from the first dimension to the last, and every product on the way has
to fit the type that the elements are counted in. Up to the first extent of zero the products never get smaller,
and from there on they are zero: it is the product of the extents before it that decides.

Main statement: `elementCount_from_the_left`.
-/

namespace AdaStubs

/-- The constant value stands for the extent `size`. -/
def Value.IsExtent (v : Value) (size : Nat) : Prop := v.bound? = some (size : Int)

/-- The extents other than zero. -/
def proper (sizes : List Nat) : List Nat := sizes.filter (· != 0)

/-- The extents before the first that is zero. -/
def leading (sizes : List Nat) : List Nat := sizes.takeWhile (· != 0)

variable {dims : List Value} {sizes : List Nat} {node count size : Nat}

namespace Value

/-- A bound is of an integer type of at most 32 bits. -/
theorem IsExtent.le_maxCount {v : Value} (given : v.IsExtent size) : size ≤ maxCount := by
  unfold maxCount
  cases v with
  | short n =>
    have top := n.toInt_lt
    have same : n.toInt = size := Option.some.inj given
    omega
  | unsignedShort n =>
    have top := n.toNat_lt
    have same : (n.toNat : Int) = size := Option.some.inj given
    omega
  | long n =>
    have top := n.toInt_lt
    have same : n.toInt = size := Option.some.inj given
    omega
  | unsignedLong n =>
    have top := n.toNat_lt
    have same : (n.toNat : Int) = size := Option.some.inj given
    omega
  | _ => cases given

theorem IsExtent.extent_eq {v : Value} (given : v.IsExtent size) (node : Nat) (context : String) :
    v.extent node context = .ok size := by
  have bounded : v.bound node context = .ok (size : Int) := by rw [bound, show v.bound? = _ from given]
  have natural : ¬ (size : Int) < 0 := by omega
  rw [extent, bounded]
  change (if (size : Int) < 0 then Except.error (Error.negativeBound node size context) else Except.ok size) = _
  rw [if_neg natural]

end Value

theorem extents_eq (reduced : dims.Forall₂ Value.IsExtent sizes) (node : Nat) : extents dims node = .ok sizes := by
  induction reduced with
  | nil => rfl
  | cons given rest ih =>
    unfold extents at ih ⊢
    rw [List.mapM_cons, given.extent_eq, ih]
    rfl

theorem le_maxCount_of_extents (reduced : dims.Forall₂ Value.IsExtent sizes) : ∀ size ∈ sizes, size ≤ maxCount := by
  induction reduced with
  | nil => simp
  | cons given rest ih =>
    rintro size (_ | ⟨_, later⟩)
    · exact given.le_maxCount
    · exact ih size later

/-! ## Multiplying up -/

theorem leading_pos (sizes : List Nat) : 0 < (leading sizes).prod := by
  refine Nat.pos_of_ne_zero (List.prod_ne_zero fun listed => ?_)
  simpa using List.mem_takeWhile_imp listed

theorem leading_cons (nonzero : size ≠ 0) : leading (size :: sizes) = size :: leading sizes := by
  simp [leading, nonzero]

theorem countTimes_eq (fits : size ≤ maxCount) :
    countTimes node count size =
      if count * size ≤ maxCount then .ok (count * size) else .error (.countOverflow node) := by
  simp [countTimes, fits]

/-- Nothing is too much once there are no elements. -/
theorem foldlM_countTimes_zero (fit : ∀ size ∈ sizes, size ≤ maxCount) :
    sizes.foldlM (countTimes node) 0 = .ok 0 := by
  induction sizes with
  | nil => rfl
  | cons size sizes ih =>
    rw [List.foldlM_cons, countTimes_eq (fit size List.mem_cons_self), Nat.zero_mul, if_pos (Nat.zero_le _)]
    exact ih fun other listed => fit other (List.mem_cons_of_mem _ listed)

theorem foldlM_countTimes (fit : ∀ size ∈ sizes, size ≤ maxCount) (positive : 0 < count) (few : count ≤ maxCount) :
    sizes.foldlM (countTimes node) count =
      if count * (leading sizes).prod ≤ maxCount then .ok (count * sizes.prod) else .error (.countOverflow node) := by
  induction sizes generalizing count with
  | nil =>
    have within : count * (leading []).prod ≤ maxCount := by simpa [leading] using few
    rw [if_pos within, List.prod_nil, Nat.mul_one]
    rfl
  | cons size sizes ih =>
    have fitRest : ∀ other ∈ sizes, other ≤ maxCount := fun other listed => fit other (List.mem_cons_of_mem _ listed)
    rw [List.foldlM_cons, countTimes_eq (fit size List.mem_cons_self)]
    by_cases zero : size = 0
    · subst zero
      have within : count * (leading (0 :: sizes)).prod ≤ maxCount := by simpa [leading] using few
      rw [if_pos within, List.prod_cons, Nat.zero_mul, Nat.mul_zero, if_pos (Nat.zero_le _)]
      exact foldlM_countTimes_zero fitRest
    · rw [leading_cons zero, List.prod_cons, List.prod_cons, ← Nat.mul_assoc, ← Nat.mul_assoc]
      by_cases fits : count * size ≤ maxCount
      · rw [if_pos fits]
        exact ih fitRest (Nat.mul_pos positive (Nat.pos_of_ne_zero zero)) fits
      · -- The extents up to the first zero cannot make up for it.
        have further : ¬ count * size * (leading sizes).prod ≤ maxCount :=
          fun within => fits (Nat.le_trans (Nat.le_mul_of_pos_right _ (leading_pos sizes)) within)
        rw [if_neg fits, if_neg further]
        rfl

theorem elementCount_eq (reduced : dims.Forall₂ Value.IsExtent sizes) (node : Nat) :
    elementCount dims node =
      if (leading sizes).prod ≤ maxCount then .ok sizes.prod else .error (.countOverflow node) := by
  rw [elementCount, extents_eq reduced]
  refine (foldlM_countTimes (le_maxCount_of_extents reduced) Nat.one_pos (by decide)).trans ?_
  rw [Nat.one_mul, Nat.one_mul]

/-! ## Order -/

theorem leading_eq_self (full : 0 ∉ sizes) : leading sizes = sizes := by
  refine List.takeWhile_eq_self_iff.mpr fun size listed => bne_iff_ne.mpr ?_
  rintro rfl
  exact full listed

theorem proper_pos (sizes : List Nat) : 0 < (proper sizes).prod :=
  Nat.pos_of_ne_zero (List.prod_ne_zero fun listed => by simpa using (List.mem_filter.mp listed).2)

theorem leading_le_proper (sizes : List Nat) : (leading sizes).prod ≤ (proper sizes).prod := by
  have all : (leading sizes).filter (· != 0) = leading sizes :=
    List.filter_eq_self.mpr fun _ listed => List.mem_takeWhile_imp (p := (· != 0)) listed
  have sub : (leading sizes).Sublist (proper sizes) := by
    rw [← all]
    exact (List.takeWhile_sublist _).filter _
  exact Nat.le_of_dvd (proper_pos sizes) sub.prod_dvd_prod

/-- Where the zeros come last, nothing is left out of the products. -/
theorem leading_zeros_last (sizes : List Nat) :
    leading (proper sizes ++ sizes.filter fun size => !(size != 0)) = proper sizes := by
  have zeros : ∀ size ∈ sizes.filter fun size => !(size != 0), (!(size != 0)) = true :=
    fun size listed => (List.mem_filter.mp listed).2
  have inside : ∀ size ∈ proper sizes, (size != 0) = true := fun size listed => (List.mem_filter.mp listed).2
  rw [leading, List.takeWhile_append_of_pos inside]
  cases rest : sizes.filter fun size => !(size != 0) with
  | nil => rw [List.takeWhile_nil, List.append_nil]
  | cons size others =>
    have zero : size = 0 := by simpa using zeros size (rest ▸ List.mem_cons_self)
    rw [List.takeWhile_cons_of_neg (by simp [zero]), List.append_nil]

/-- The dimensions can be put in any order that their extents can. -/
theorem exists_perm_of_extents {other : List Nat} (reduced : dims.Forall₂ Value.IsExtent sizes)
    (same : other.Perm sizes) : ∃ reordered : List Value, reordered.Perm dims ∧
      reordered.Forall₂ Value.IsExtent other := by
  obtain ⟨reordered, given, rearranged⟩ := List.perm_comp_forall₂ same reduced.flip
  exact ⟨reordered, rearranged, given.flip⟩

/-- A zero in front gives no elements, and so has to every other order. -/
theorem proper_le_of_unordered (reduced : dims.Forall₂ Value.IsExtent sizes) (zero : 0 ∈ sizes)
    (unordered : ∀ other : List Value, other.Perm dims → elementCount other node = elementCount dims node) :
    (proper sizes).prod ≤ maxCount := by
  have first : (0 :: sizes.erase 0).Perm sizes := (List.perm_cons_erase zero).symm
  have last : (proper sizes ++ sizes.filter fun size => !(size != 0)).Perm sizes := List.filter_append_perm _ sizes
  obtain ⟨early, rearranged, zeroFirst⟩ := exists_perm_of_extents reduced first
  obtain ⟨late, rearranged', zeroLast⟩ := exists_perm_of_extents reduced last
  have same := (unordered late rearranged').trans (unordered early rearranged).symm
  rw [elementCount_eq zeroFirst, elementCount_eq zeroLast, leading_zeros_last] at same
  have few : (leading (0 :: sizes.erase 0)).prod ≤ maxCount := by
    rw [leading, List.takeWhile_cons_of_neg (by decide)]
    decide
  by_contra many
  rw [if_neg many, if_pos few] at same
  cases same

theorem elementCount_perm {other : List Value} (reduced : dims.Forall₂ Value.IsExtent sizes)
    (few : 0 ∈ sizes → (proper sizes).prod ≤ maxCount) (same : other.Perm dims) :
    elementCount other node = elementCount dims node := by
  obtain ⟨sizes', given, rearranged⟩ := List.perm_comp_forall₂ same reduced
  rw [elementCount_eq reduced, elementCount_eq given, rearranged.prod_eq]
  by_cases zero : 0 ∈ sizes
  · have few' : (proper sizes').prod ≤ maxCount := by
      rw [proper, (rearranged.filter _).prod_eq]
      exact few zero
    rw [if_pos (Nat.le_trans (leading_le_proper sizes) (few zero)),
      if_pos (Nat.le_trans (leading_le_proper sizes') few')]
  · rw [leading_eq_self zero, leading_eq_self fun listed => zero (rearranged.mem_iff.mp listed), rearranged.prod_eq]

/-- The count is the product of the extents if the product of those before the first zero fits; else it is too
great. The order of the dimensions is of no importance exactly if there is no zero among them, or the product of
all the others fits. -/
theorem elementCount_from_the_left (dims : List Value) (sizes : List Nat) (node : Nat)
    (reduced : dims.Forall₂ Value.IsExtent sizes) :
    (elementCount dims node =
      if (leading sizes).prod ≤ maxCount then .ok sizes.prod else .error (.countOverflow node)) ∧
    (0 ∉ sizes → elementCount dims node =
      if sizes.prod ≤ maxCount then .ok sizes.prod else .error (.countOverflow node)) ∧
    ((∀ other : List Value, other.Perm dims → elementCount other node = elementCount dims node) ↔
      (0 ∈ sizes → (proper sizes).prod ≤ maxCount)) := by
  refine ⟨elementCount_eq reduced node, fun full => ?_, fun unordered zero => ?_, fun few other same => ?_⟩
  · rw [elementCount_eq reduced, leading_eq_self full]
  · exact proper_le_of_unordered reduced zero unordered
  · exact elementCount_perm reduced few same

/-- The extent of zero comes in time, but would not after the last dimension. -/
theorem zero_extent_in_time :
    let dims : List Value := [.long 3, .unsignedShort 0, .unsignedLong 4294967295]
    elementCount dims 7 = .ok 0 ∧
      ¬ ∀ other : List Value, other.Perm dims → elementCount other 7 = elementCount dims 7 := by
  intro dims
  have reduced : dims.Forall₂ Value.IsExtent [3, 0, 4294967295] := .cons rfl (.cons rfl (.cons rfl .nil))
  obtain ⟨counted, -, unordered⟩ := elementCount_from_the_left dims [3, 0, 4294967295] 7 reduced
  refine ⟨counted.trans (by decide), fun same => ?_⟩
  exact absurd (unordered.mp same (by decide)) (by decide)

/-- Among these extents there is a zero and their product is zero, but it comes too late; in front it does not. -/
theorem zero_extent_too_late :
    let great : Value := .unsignedLong 65536
    let zero : Value := .unsignedLong 0
    [great, great, zero].Forall₂ Value.IsExtent [65536, 65536, 0] ∧ [65536, 65536, 0].prod = 0 ∧
      elementCount [great, great, zero] 7 = .error (.countOverflow 7) ∧
      [zero, great, great].Perm [great, great, zero] ∧ elementCount [zero, great, great] 7 = .ok 0 := by
  intro great zero
  refine ⟨.cons rfl (.cons rfl (.cons rfl .nil)), rfl, rfl, ?_, rfl⟩
  exact (List.Perm.swap great zero [great]).trans (.cons great (.swap great zero []))

end AdaStubs
