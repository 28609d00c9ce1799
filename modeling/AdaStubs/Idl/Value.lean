/-!
# Constant values

A constant expression reaches the tree folded to one value of an IDL type. Floating values are kept as
the bits of their interchange format, an enumerator as its place in the tree.
-/

namespace AdaStubs

inductive Value where
  | short (v : Int16)
  | unsignedShort (v : UInt16)
  | long (v : Int32)
  | unsignedLong (v : UInt32)
  | longLong (v : Int64)
  | unsignedLongLong (v : UInt64)
  | float (bits : UInt32)
  | double (bits : UInt64)
  | char (c : Char)
  | wchar (c : Char)
  | octet (v : UInt8)
  | boolean (v : Bool)
  | string (s : String)
  | wstring (s : String)
  | enumerator (node : Nat)
deriving DecidableEq, Repr

namespace Value

def typeName : Value → String
  | short _ => "short"
  | unsignedShort _ => "unsigned short"
  | long _ => "long"
  | unsignedLong _ => "unsigned long"
  | longLong _ => "long long"
  | unsignedLongLong _ => "unsigned long long"
  | float _ => "float"
  | double _ => "double"
  | char _ => "char"
  | wchar _ => "wchar"
  | octet _ => "octet"
  | boolean _ => "boolean"
  | string _ => "string"
  | wstring _ => "wstring"
  | enumerator _ => "enumerator"

/-- The integer a bound may be given by: IDL bounds are of the four types of at most 32 bits. -/
def bound? : Value → Option Int
  | short v => some v.toInt
  | unsignedShort v => some v.toNat
  | long v => some v.toInt
  | unsignedLong v => some v.toNat
  | _ => none

end Value

end AdaStubs
