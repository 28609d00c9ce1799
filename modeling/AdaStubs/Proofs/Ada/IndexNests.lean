import Mathlib.Algebra.BigOperators.Group.List.Basic
import Mathlib.Data.List.Forall2
import Mathlib.Data.List.Nodup
import Mathlib.Data.Set.Card
import AdaStubs.Ada.Declaration
import AdaStubs.Ada.IndexNest

/-!
# Visits of a loop nest

The loops of a nest run over the index ranges of an array, which stand in its declaration. The innermost statements
are then reached once for every tuple of indices inside the ranges, with the loop variables as the tuple gives them.
-/

namespace AdaStubs.Ada

/-! ## Index ranges -/

structure Bounds where
  first : Int
  last : Int
deriving DecidableEq, Repr

namespace Bounds

def Holds (b : Bounds) (i : Int) : Prop := b.first ≤ i ∧ i ≤ b.last

/-- The values of a range, of which there are none if `last` comes before `first`. -/
def values (b : Bounds) : List Int := (List.range (b.last - b.first + 1).toNat).map fun k : Nat => b.first + k

theorem mem_values {b : Bounds} {i : Int} : i ∈ b.values ↔ b.Holds i := by
  simp only [values, List.mem_map, List.mem_range, Holds]
  constructor
  · rintro ⟨k, inside, rfl⟩
    omega
  · rintro ⟨lower, upper⟩
    exact ⟨(i - b.first).toNat, by omega, by omega⟩

theorem nodup_values (b : Bounds) : b.values.Nodup :=
  List.nodup_range.map fun _ _ same => by simpa using same

end Bounds

def readNatural (digits : List Char) : Option Nat :=
  if digits ≠ [] ∧ digits.all Char.isDigit then some (Nat.ofDigitChars 10 digits 0) else none

def readInteger : List Char → Option Int
  | '-' :: digits => (readNatural digits).map fun n => -n
  | digits => (readNatural digits).map Int.ofNat

/-- Reads the text of a range, two integers with two points between them. -/
def readRange (text : String) : Option Bounds :=
  let first := text.toList.takeWhile (· != ' ')
  match text.toList.dropWhile (· != ' ') with
  | ' ' :: '.' :: '.' :: ' ' :: last => do return ⟨← readInteger first, ← readInteger last⟩
  | _ => none

theorem readNatural_toDigits (n : Nat) : readNatural (Nat.toDigits 10 n) = some n := by
  have digits : (Nat.toDigits 10 n).all Char.isDigit = true :=
    List.all_eq_true.mpr fun c listed => Nat.isDigit_of_mem_toDigits (by decide) (by decide) listed
  rw [readNatural, if_pos ⟨Nat.toDigits_ne_nil, digits⟩, Nat.ofDigitChars_toDigits (by decide) (by decide)]

theorem readInteger_repr (i : Int) : readInteger i.repr.toList = some i := by
  cases i with
  | ofNat n =>
    have text : (Int.ofNat n).repr.toList = Nat.toDigits 10 n := Nat.toList_repr
    have unsigned : ∀ digits, Nat.toDigits 10 n ≠ '-' :: digits := by
      intro digits same
      have digit := Nat.isDigit_of_mem_toDigits (b := 10) (n := n) (c := '-') (by decide) (by decide) (by simp [same])
      cases digit
    rw [text, readInteger, readNatural_toDigits]
    · rfl
    · exact unsigned
  | negSucc n =>
    have text : (Int.negSucc n).repr.toList = '-' :: Nat.toDigits 10 (n + 1) := by
      change ("-" ++ (n + 1).repr).toList = _
      simp
    rw [text, readInteger, readNatural_toDigits]
    rfl

/-- The range that is written for an extent holds the integers from zero on that are less than it. -/
theorem readRange_indexRange (extent : Nat) : readRange (indexRange extent) = some ⟨0, extent - 1⟩ := by
  have text : (indexRange extent).toList = '0' :: ' ' :: '.' :: '.' :: ' ' :: ((extent : Int) - 1).repr.toList := by
    simp [indexRange, toString]
  have zero : readInteger ['0'] = some 0 := by decide
  rw [readRange, text]
  simp [readInteger_repr, zero]

/-! ## Tuples of indices -/

/-- The tuples of indices inside the ranges, the last index running fastest. -/
def indexTuples : List Bounds → List (List Int)
  | [] => [[]]
  | b :: rest => b.values.flatMap fun i => (indexTuples rest).map (i :: ·)

theorem mem_indexTuples {bounds : List Bounds} {tuple : List Int} :
    tuple ∈ indexTuples bounds ↔ bounds.Forall₂ Bounds.Holds tuple := by
  induction bounds generalizing tuple with
  | nil => simp [indexTuples]
  | cons b rest ih =>
    simp only [indexTuples, List.mem_flatMap, List.mem_map, Bounds.mem_values, ih, List.forall₂_cons_left_iff]
    constructor
    · rintro ⟨i, inside, others, within, rfl⟩
      exact ⟨i, others, inside, within, rfl⟩
    · rintro ⟨i, others, inside, within, rfl⟩
      exact ⟨i, inside, others, within, rfl⟩

theorem nodup_indexTuples (bounds : List Bounds) : (indexTuples bounds).Nodup := by
  induction bounds with
  | nil => simp [indexTuples]
  | cons b rest ih =>
    refine List.nodup_flatMap.mpr ⟨fun i _ => ih.map (List.cons_injective), ?_⟩
    refine b.nodup_values.imp fun differ tuple first second => ?_
    obtain ⟨_, -, rfl⟩ := List.mem_map.mp first
    obtain ⟨_, -, same⟩ := List.mem_map.mp second
    exact differ (List.cons.inj same).1.symm

theorem length_indexTuples (bounds : List Bounds) :
    (indexTuples bounds).length = (bounds.map (·.values.length)).prod := by
  induction bounds with
  | nil => rfl
  | cons b rest ih => simp [indexTuples, List.length_flatMap, ih]

theorem encard_tuples (bounds : List Bounds) :
    {tuple : List Int | bounds.Forall₂ Bounds.Holds tuple}.encard = (indexTuples bounds).length := by
  have tuples : {tuple : List Int | bounds.Forall₂ Bounds.Holds tuple} = ↑(indexTuples bounds).toFinset := by
    ext tuple
    simp [mem_indexTuples]
  rw [tuples, Set.encard_coe_eq_coe_finsetCard, List.toFinset_card_of_nodup (nodup_indexTuples bounds)]

/-! ## Visits -/

/-- What the variable of a loop over `A'Range (dimension)` runs through; dimensions count from one. -/
def rangeValues (bounds : List Bounds) : Nat → List Int
  | 0 => []
  | k + 1 => ((bounds[k]?).map Bounds.values).getD []

namespace IndexNest

/-- The values of the loop variables, the innermost first, each time the innermost statements are reached. -/
def bindings (bounds : List Bounds) : List IndexLoop → List (String × Int) → List (List (String × Int))
  | [], env => [env]
  | l :: inner, env => (rangeValues bounds l.dimension).flatMap fun i => bindings bounds inner ((l.index, i) :: env)

/-- The indices of the elements that are visited, in the order of the visits. -/
def visits (nest : IndexNest) (bounds : List Bounds) : List (List Int) :=
  (bindings bounds nest.loops []).map fun env => nest.loops.filterMap fun l => env.lookup l.index

/-- The loops of a nest over the dimensions from `k + 1` on. -/
def loopsFrom (k rank : Nat) : List IndexLoop := (List.range' k rank).map fun j => ⟨s!"I{j + 1}", j + 1⟩

theorem index_injective {j k : Nat} (same : s!"I{j + 1}" = s!"I{k + 1}") : j = k := by
  have digits : Nat.toDigits 10 (j + 1) = Nat.toDigits 10 (k + 1) := by
    simpa [toString] using congrArg String.toList same
  simpa using congrArg (Nat.ofDigitChars 10 · 0) digits

/-- The variables of the outer loops have the values `given`. -/
def Bound (given : List Int) (env : List (String × Int)) : Prop :=
  ∀ j i, given[j]? = some i → env.lookup s!"I{j + 1}" = some i

theorem Bound.enter {given : List Int} {env : List (String × Int)} (bound : Bound given env) (i : Int) :
    Bound (given ++ [i]) ((s!"I{given.length + 1}", i) :: env) := by
  intro j value found
  rw [List.lookup_cons]
  by_cases last : j = given.length
  · subst last
    simpa using found
  · have other : (s!"I{j + 1}" == s!"I{given.length + 1}") = false :=
      beq_eq_false_iff_ne.mpr fun same => last (index_injective same)
    rw [other]
    refine bound j value ?_
    have inside : j < (given ++ [i]).length := (List.getElem?_eq_some_iff.mp found).1
    rwa [List.getElem?_append_left (by simp at inside; omega)] at found

theorem Bound.indices {given : List Int} {env : List (String × Int)} (bound : Bound given env) :
    (loopsFrom 0 given.length).filterMap (fun l => env.lookup l.index) = given := by
  have each : (loopsFrom 0 given.length).map (fun l => env.lookup l.index) = given.map some := by
    refine List.ext_getElem (by simp [loopsFrom]) fun j first second => ?_
    have inside : j < given.length := by simpa using second
    simpa [loopsFrom] using bound j _ (List.getElem?_eq_getElem inside)
  calc (loopsFrom 0 given.length).filterMap (fun l => env.lookup l.index)
      = ((loopsFrom 0 given.length).map fun l => env.lookup l.index).filterMap id := by simp
    _ = given := by rw [each]; simp

theorem bindings_eq {bounds before rest : List Bounds} (split : bounds = before ++ rest) {given : List Int}
    (reached : given.length = before.length) {env : List (String × Int)} (bound : Bound given env) :
    (bindings bounds (loopsFrom before.length rest.length) env).map
        (fun env => (loopsFrom 0 bounds.length).filterMap fun l => env.lookup l.index) =
      (indexTuples rest).map (given ++ ·) := by
  -- The loops before are entered and have given their variables a value each.
  induction rest generalizing before given env with
  | nil =>
    have all : bounds.length = given.length := by simp [split, reached]
    simpa [bindings, loopsFrom, indexTuples, all] using bound.indices
  | cons b rest ih =>
    have loops : loopsFrom before.length (b :: rest).length =
        ⟨s!"I{given.length + 1}", given.length + 1⟩ :: loopsFrom (before ++ [b]).length rest.length := by
      simp [loopsFrom, List.range'_succ, reached]
    have range : rangeValues bounds (given.length + 1) = b.values := by
      simp [rangeValues, split, reached]
    rw [loops, bindings, range, List.map_flatMap, indexTuples, List.map_flatMap]
    refine List.flatMap_congr fun i _ => ?_
    rw [ih (by simp [split]) (by simp [reached]) (bound.enter i), List.map_map]
    simp

theorem visits_ofRank (bounds : List Bounds) : (ofRank bounds.length).visits bounds = indexTuples bounds := by
  have loops : (ofRank bounds.length).loops = loopsFrom 0 bounds.length := by
    rw [ofRank, List.range_eq_range']
    rfl
  have none : Bound [] [] := by simp [Bound]
  rw [visits, loops]
  simpa using bindings_eq (List.nil_append bounds).symm rfl none

end IndexNest

end AdaStubs.Ada
