import AdaStubs.Error

/-!
# Bounds

Array dimensions and the bounds of sequences and strings are constant values. A bound has to be of an
integer type of at most 32 bits and not negative; the number of elements of an array has to fit the
32-bit type it is counted in.
-/

namespace AdaStubs

/-- The greatest element count, that of 32 bits. -/
def maxCount : Nat := 4294967295

namespace Value

def bound (v : Value) (node : Nat) (context : String) : Except Error Int :=
  match v.bound? with
  | some n => .ok n
  | none => .error (.unexpectedValue node v context)

def extent (v : Value) (node : Nat) (context : String) : Except Error Nat := do
  let n ← v.bound node context
  if n < 0 then throw (.negativeBound node n context)
  return n.toNat

end Value

def extents (dims : List Value) (node : Nat) : Except Error (List Nat) :=
  dims.mapM fun d => d.extent node "array bound"

/-- The product of a count and an extent, both within the limit. -/
def countTimes (node count extent : Nat) : Except Error Nat :=
  if extent ≤ maxCount ∧ count * extent ≤ maxCount then .ok (count * extent)
  else .error (.countOverflow node)

/-- The number of elements of an array, multiplied up from the first dimension to the last. -/
def elementCount (dims : List Value) (node : Nat) : Except Error Nat := do
  (← extents dims node).foldlM (countTimes node) 1

/-- The Ada index range of a dimension; an extent of zero gives the null range. -/
def indexRange (extent : Nat) : String := s!"0 .. {(extent : Int) - 1}"

end AdaStubs
