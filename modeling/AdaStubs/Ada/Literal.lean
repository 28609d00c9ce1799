import AdaStubs.Decimal.Shortest

/-!
# Ada literals

How numbers, characters and strings are written. A quote inside a string literal is doubled, so the
literal ends at the first quote that is not.
-/

namespace AdaStubs.Ada

/-! ## Reals -/

/-- Reals from `10 ^ (-4)` up to, not including, `10 ^ 16` are written without an exponent. In terms of
the place `p` of the point, with the digits after it, `p` runs from the first to the second number. -/
def positionalRange : Int × Int := (-3, 16)

/-- The number `0.digits * 10 ^ point` without an exponent. -/
def positional (digits : List Char) (point : Int) : String :=
  if point ≤ 0 then "0." ++ String.ofList (List.replicate (-point).toNat '0' ++ digits)
  else
    let whole := digits.take point.toNat
    let fraction := digits.drop point.toNat
    String.ofList (whole ++ List.replicate (point.toNat - digits.length) '0') ++ "."
      ++ (if fraction.isEmpty then "0" else String.ofList fraction)

/-- The number `0.digits * 10 ^ point` with one digit before the point and an exponent. -/
def scientific (digits : List Char) (point : Int) : String :=
  let fraction := digits.drop 1
  String.ofList (digits.take 1) ++ "." ++ (if fraction.isEmpty then "0" else String.ofList fraction)
    ++ "e" ++ toString (point - 1)

def magnitudeLiteral (x : Decimal.Binary) : String :=
  if x.mantissa == 0 then "0.0"
  else
    let s := x.shortest
    let digits := Nat.toDigits 10 s.digits
    let point := s.exponent + digits.length
    if positionalRange.1 ≤ point ∧ point ≤ positionalRange.2 then positional digits point
    else scientific digits point

/-- A real literal always has a point. -/
def realLiteral : Decimal.Ieee → String
  | .nan => "NaN.0"
  | .infinite negative => if negative then "-inf.0" else "inf.0"
  | .finite negative x => (if negative then "-" else "") ++ magnitudeLiteral x

/-! ## Characters and strings -/

def isPrintable (c : Char) : Bool := 0x20 ≤ c.toNat && c.toNat ≤ 0x7E

/-- A printable ASCII character stands between apostrophes, any other is given by its position. -/
def charLiteral (type : String) (c : Char) : String :=
  if isPrintable c then "'" ++ c.toString ++ "'" else s!"{type}'Val ({c.toNat})"

def doubleQuotes : List Char → List Char
  | [] => []
  | c :: rest => if c == '"' then '"' :: '"' :: doubleQuotes rest else c :: doubleQuotes rest

def stringLiteral (s : String) : String :=
  String.ofList ('"' :: doubleQuotes s.toList ++ ['"'])

def booleanLiteral (b : Bool) : String := if b then "True" else "False"

end AdaStubs.Ada
