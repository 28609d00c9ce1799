/-!
# Shortest decimals

A binary64 number is named by the fewest decimal digits that read back as it; of several such
decimals the nearest to the number is taken, and of two equally near the greater. All arithmetic is
on natural numbers.
-/

namespace AdaStubs.Decimal

/-- The number `mantissa * 2 ^ exponent`. -/
structure Binary where
  mantissa : Nat
  exponent : Int
deriving DecidableEq, Repr

/-- The number `digits * 10 ^ exponent`. -/
structure Scaled where
  digits : Nat
  exponent : Int
deriving DecidableEq, Repr

inductive Ieee where
  | nan
  | infinite (negative : Bool)
  | finite (negative : Bool) (magnitude : Binary)
deriving DecidableEq, Repr

/-- Reads sign, exponent field and fraction of an interchange format with `fraction` fraction bits and
`field` exponent bits. -/
def Ieee.ofFields (fraction field bits : Nat) : Ieee :=
  let negative := bits / Nat.pow 2 (fraction + field) % 2 == 1
  let biased := bits / Nat.pow 2 fraction % Nat.pow 2 field
  let tail := bits % Nat.pow 2 fraction
  let least : Int := 2 - Nat.pow 2 (field - 1) - fraction
  if biased == Nat.pow 2 field - 1 then
    if tail == 0 then .infinite negative else .nan
  else if biased == 0 then .finite negative ⟨tail, least⟩
  else .finite negative ⟨Nat.pow 2 fraction + tail, least + biased - 1⟩

def Ieee.ofBinary32 (bits : UInt32) : Ieee := .ofFields 23 8 bits.toNat

def Ieee.ofBinary64 (bits : UInt64) : Ieee := .ofFields 52 11 bits.toNat

/-- The exponent of the least positive binary64 number. -/
def leastExponent : Int := -1074

/-- The same number with the mantissa binary64 gives it: 53 bits, or fewer at the least exponent. -/
def Binary.normalize (x : Binary) : Binary :=
  let room := min (52 - x.mantissa.log2) (x.exponent - leastExponent).toNat
  ⟨x.mantissa * Nat.pow 2 room, x.exponent - room⟩

/-- The numbers that read as `x`, in quarters of its last binary place: the gap below a power of two
is half as wide as the gap above. -/
def Binary.lower (x : Binary) : Nat :=
  if x.mantissa == Nat.pow 2 52 && leastExponent < x.exponent then 4 * x.mantissa - 1
  else 4 * x.mantissa - 2

def Binary.upper (x : Binary) : Nat := 4 * x.mantissa + 2

/-- Factors `a`, `b` with `u * 2 ^ (exponent - 2) = (u * a / b) * 10 ^ place` for every `u`. -/
def Binary.factors (x : Binary) (place : Int) : Nat × Nat :=
  let shift := x.exponent - 2
  (Nat.pow 2 shift.toNat * Nat.pow 10 (-place).toNat, Nat.pow 10 place.toNat * Nat.pow 2 (-shift).toNat)

/-- Whether `count * 10 ^ place` reads as `x`; the two ends do if the mantissa is even. -/
def Binary.reads (x : Binary) (count : Nat) (place : Int) : Bool :=
  let (a, b) := x.factors place
  if x.mantissa % 2 == 0 then x.lower * a ≤ count * b && count * b ≤ x.upper * a
  else x.lower * a < count * b && count * b < x.upper * a

/-- The better of the two neighbours of `x` among the multiples of `10 ^ place`, if one reads as `x`. -/
def Binary.neighbour? (x : Binary) (place : Int) : Option Nat :=
  let (a, b) := x.factors place
  let exact := 4 * x.mantissa * a
  let below := exact / b
  match x.reads below place, x.reads (below + 1) place with
  | true, true => some (if exact - below * b < (below + 1) * b - exact then below else below + 1)
  | true, false => some below
  | false, true => some (below + 1)
  | false, false => none

def digitCount (n : Nat) : Nat := (Nat.toDigits 10 n).length

/-- The `p` with `10 ^ (p - 1) ≤ x < 10 ^ p`. Scaling by `10 ^ 400` brings every positive binary64
number above one. -/
def Binary.magnitude (x : Binary) : Int :=
  let (a, b) := x.factors (-400)
  digitCount (4 * x.mantissa * a / b) - 400

/-- Tries grids from coarse to fine; the grid of 17 digits always holds a reading of a binary64. -/
def Binary.search (x : Binary) (place : Int) : Nat → Scaled
  | 0 => ⟨4 * x.mantissa * (x.factors place).1 / (x.factors place).2, place⟩
  | tries + 1 =>
    match x.neighbour? place with
    | some count => ⟨count, place⟩
    | none => x.search (place - 1) tries

/-- Moves trailing zeros into the exponent. -/
def Scaled.trim (s : Scaled) : Scaled :=
  let zeros := ((Nat.toDigits 10 s.digits).reverse.takeWhile (· == '0')).length
  ⟨s.digits / Nat.pow 10 zeros, s.exponent + zeros⟩

/-- The shortest decimal of a positive number. -/
def Binary.shortest (x : Binary) : Scaled :=
  let y := x.normalize
  (y.search (y.magnitude - 1) 17).trim

end AdaStubs.Decimal
