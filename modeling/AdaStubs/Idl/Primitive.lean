import AdaStubs.Text.Blank

/-!
# Predefined IDL types and parameter directions

The runtime library declares the predefined types together with their marshalling, so they are named
and never declared.
-/

namespace AdaStubs

inductive Primitive where
  | short
  | long
  | longLong
  | unsignedShort
  | unsignedLong
  | unsignedLongLong
  | float
  | double
  | longDouble
  | char
  | wchar
  | boolean
  | octet
  | any
  | object
  | typeCode
deriving DecidableEq, Repr

namespace Primitive

def all : List Primitive :=
  [short, long, longLong, unsignedShort, unsignedLong, unsignedLongLong, float, double, longDouble,
   char, wchar, boolean, octet, any, object, typeCode]

def idlName : Primitive → String
  | short => "short"
  | long => "long"
  | longLong => "long long"
  | unsignedShort => "unsigned short"
  | unsignedLong => "unsigned long"
  | unsignedLongLong => "unsigned long long"
  | float => "float"
  | double => "double"
  | longDouble => "long double"
  | char => "char"
  | wchar => "wchar"
  | boolean => "boolean"
  | octet => "octet"
  | any => "any"
  | object => "Object"
  | typeCode => "TypeCode"

def adaName : Primitive → String
  | short => "Corba.Short"
  | long => "Corba.Long"
  | longLong => "Corba.Long_Long"
  | unsignedShort => "Corba.Unsigned_Short"
  | unsignedLong => "Corba.Unsigned_Long"
  | unsignedLongLong => "Corba.Unsigned_Long_Long"
  | float => "Corba.Float"
  | double => "Corba.Double"
  | longDouble => "Corba.Long_Double"
  | char => "Corba.Char"
  | wchar => "Corba.Wchar"
  | boolean => "Corba.Boolean"
  | octet => "Corba.Octet"
  | any => "Corba.Any"
  | object => "Corba.Object.Ref"
  | typeCode => "Corba.TypeCode.Object"

/-- Bytes on the wire; none if that depends on the value. -/
def wireSize? : Primitive → Option Nat
  | char | boolean | octet => some 1
  | short | unsignedShort | wchar => some 2
  | long | unsignedLong | float => some 4
  | longLong | unsignedLongLong | double => some 8
  | longDouble => some 16
  | any | object | typeCode => none

def isFixedSize (p : Primitive) : Bool := p.wireSize?.isSome

def isInteger : Primitive → Bool
  | short | long | longLong | unsignedShort | unsignedLong | unsignedLongLong => true
  | _ => false

/-- Reads a spelling; the words of one may stand any number of blanks apart. -/
def ofIdlName? (spelling : String) : Option Primitive :=
  let normal := " ".intercalate (Text.words spelling)
  all.find? fun p => p.idlName == normal

end Primitive

inductive Direction where
  | input
  | output
  | inputOutput
deriving DecidableEq, Repr

namespace Direction

def all : List Direction := [input, output, inputOutput]

/-- The direction of a parameter that states none. -/
def standard : Direction := input

def idlName : Direction → String
  | input => "in"
  | output => "out"
  | inputOutput => "inout"

def adaMode : Direction → String
  | input => "in"
  | output => "out"
  | inputOutput => "in out"

def isSent : Direction → Bool
  | input | inputOutput => true
  | output => false

def isReturned : Direction → Bool
  | output | inputOutput => true
  | input => false

end Direction

end AdaStubs
