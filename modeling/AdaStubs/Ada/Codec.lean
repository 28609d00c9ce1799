import AdaStubs.Ada.Declaration
import AdaStubs.Ada.IndexNest
import AdaStubs.Ada.Qualified
import AdaStubs.Settings

/-!
# Marshalling

Every generated type has three subprograms: one writes a value to a stream, one reads a value back, one
adds up the bytes that values take from a given offset on. A `Codec` holds what the three bodies of a type
are made from.
-/

namespace AdaStubs.Ada

/-- The profiles of the three subprograms of a type. -/
structure Profiles where
  marshal : String
  unmarshal : String
  size : String
deriving DecidableEq, Repr

def Profiles.ofType (r : RuntimeNames) (type : String) : Profiles where
  marshal := s!"procedure Marshall (A : in {type} ; S : in out {r.streamClass})"
  unmarshal := s!"procedure UnMarshall (A : out {type} ; S : in out {r.streamClass})"
  size := s!"function Align_Size (A : in {type} ; Initial_Offset : in {r.sizeType} ; "
    ++ s!"N : in {r.sizeType} := 1) return {r.sizeType}"

/-- The declarations of the three subprograms. -/
def Profiles.code (p : Profiles) : Code :=
  Code.lines [p.marshal ++ " ;", p.unmarshal ++ " ;", p.size ++ " ;"] ++ Code.blank

inductive Codec where
  | record (type : String) (components : List Component)
  | union (type switch : String) (variants : List Variant)
  | enumeration (type : String)
  | array (type : String) (plan : ArrayPlan)
  | sequence (type element : String)
  | string (type : String) (wide : Bool)
  | fixedPoint (type : String)
  | derived (type base : String)
  | reference
deriving DecidableEq, Repr

namespace Codec

/-- The type whose values are marshalled. -/
def type : Codec → String
  | record type _ | union type _ _ | enumeration type | array type _ | sequence type _ | string type _
  | fixedPoint type | derived type _ => type
  | reference => "Ref"

/-- The statements of the three bodies and the declarations before them. -/
structure Bodies where
  marshalDeclarations : List String := []
  marshal : Code
  unmarshalDeclarations : List String := []
  unmarshal : Code
  sizeDeclarations : List String := []
  size : Code

def Bodies.code (b : Bodies) (p : Profiles) : Code :=
  subprogramBody p.marshal "Marshall" b.marshalDeclarations b.marshal
    ++ subprogramBody p.unmarshal "UnMarshall" b.unmarshalDeclarations b.unmarshal
    ++ subprogramBody p.size "Align_Size" b.sizeDeclarations b.size

def recordBodies (r : RuntimeNames) (components : List Component) : Bodies where
  marshal := Code.lines (orNull (components.map fun c => s!"Marshall (A.{c.name}, S) ;"))
  unmarshal := Code.lines (orNull (components.map fun c => s!"UnMarshall (A.{c.name}, S) ;"))
  sizeDeclarations := [sizeVariable r.sizeType]
  size :=
    (if components.isEmpty then []
      else forEachValue
        (Code.lines (components.map fun c => s!"Tmp := Align_Size (A.{c.name}, Tmp) ;")))
      ++ Code.line "return Tmp ;"

/-- A union is read into a value that is constrained by its discriminant, which comes first. -/
def unionBodies (r : RuntimeNames) (type switch : String) (variants : List Variant) : Bodies where
  marshal :=
    Code.line "Marshall (A.Switch, S) ;"
      ++ caseCode "A.Switch" (alternatives variants fun c => s!"Marshall (A.{c.name}, S) ;")
  unmarshalDeclarations := [s!"Switch : {switch} ;"]
  unmarshal :=
    Code.lines ["UnMarshall (Switch, S) ;", "declare"]
      ++ (Code.line s!"Tmp : {type} (Switch) ;").nest ++ Code.line "begin"
      ++ (caseCode "Switch" (alternatives variants fun c => s!"UnMarshall (Tmp.{c.name}, S) ;")
          ++ Code.line "A := Tmp ;").nest
      ++ Code.line "end ;"
  sizeDeclarations := [sizeVariable r.sizeType]
  size :=
    forEachValue
        (Code.line "Tmp := Align_Size (A.Switch, Tmp) ;"
          ++ caseCode "A.Switch" (alternatives variants fun c => s!"Tmp := Align_Size (A.{c.name}, Tmp) ;"))
      ++ Code.line "return Tmp ;"

/-- An enumeration travels as the position of its value. -/
def enumerationBodies (type : String) : Bodies where
  marshal := Code.line s!"Marshall (Corba.Unsigned_Long ({type}'Pos (A)), S) ;"
  unmarshalDeclarations := ["Tmp : Corba.Unsigned_Long ;"]
  unmarshal := Code.lines ["UnMarshall (Tmp, S) ;", s!"A := {type}'Val (Tmp) ;"]
  size := Code.line "return Align_Size (Corba.Unsigned_Long (0), Initial_Offset, N) ;"

/-- A sequence travels as its length and then its elements. -/
def sequenceBodies (r : RuntimeNames) (type element : String) : Bodies where
  marshalDeclarations := [s!"Len : constant Natural := {type}_Pkg.Length (A) ;"]
  marshal :=
    Code.line "Marshall (Corba.Unsigned_Long (Len), S) ;"
      ++ Code.block "for I in 1 .. Len loop" "end loop ;"
        (Code.line s!"Marshall ({type}_Pkg.Element_Of (A, I), S) ;")
  unmarshalDeclarations := ["Len : Corba.Unsigned_Long ;", s!"Elem : {element} ;"]
  unmarshal :=
    Code.lines ["UnMarshall (Len, S) ;", s!"A := {type}_Pkg.Null_Sequence ;"]
      ++ Code.block "for I in 1 .. Len loop" "end loop ;"
        (Code.lines ["UnMarshall (Elem, S) ;", s!"{type}_Pkg.Append (A, Elem) ;"])
  sizeDeclarations := [sizeVariable r.sizeType]
  size :=
    forEachValue
        (Code.line "Tmp := Align_Size (Corba.Unsigned_Long (0), Tmp) ;"
          ++ Code.block s!"for I in 1 .. {type}_Pkg.Length (A) loop" "end loop ;"
            (Code.line s!"Tmp := Align_Size ({type}_Pkg.Element_Of (A, I), Tmp) ;"))
      ++ Code.line "return Tmp ;"

/-- A bounded string travels as the unbounded string with the same characters. -/
def stringBodies (r : RuntimeNames) (type : String) (flavor : BoundedString) : Bodies where
  marshal := Code.line s!"Marshall ({type}_Pkg.{flavor.toUnbounded} (A), S) ;"
  unmarshalDeclarations := [s!"Tmp : {flavor.unbounded} ;"]
  unmarshal := Code.lines ["UnMarshall (Tmp, S) ;", s!"A := {type}_Pkg.{flavor.toBounded} (Tmp) ;"]
  sizeDeclarations := [sizeVariable r.sizeType]
  size :=
    forEachValue (Code.line s!"Tmp := Align_Size ({type}_Pkg.{flavor.toUnbounded} (A), Tmp) ;")
      ++ Code.line "return Tmp ;"

/-- A derived type travels as its base. -/
def derivedBodies (type base : String) : Bodies where
  marshal := Code.line s!"Marshall ({base} (A), S) ;"
  unmarshalDeclarations := [s!"Tmp : {base} ;"]
  unmarshal := Code.lines ["UnMarshall (Tmp, S) ;", s!"A := {type} (Tmp) ;"]
  size := Code.line s!"return Align_Size ({base} (A), Initial_Offset, N) ;"

/-- A reference travels as a reference to a root object. -/
def referenceBodies (r : RuntimeNames) : Bodies :=
  let object := packageOf r.objectRef
  { marshal := Code.line s!"{object}.Marshall ({r.objectRef} (A), S) ;"
    unmarshalDeclarations := [s!"Tmp : {r.objectRef} ;"]
    unmarshal := Code.lines [s!"{object}.UnMarshall (Tmp, S) ;", "A := To_Ref (Tmp) ;"]
    size := Code.line s!"return {object}.Align_Size ({r.objectRef} (A), Initial_Offset, N) ;" }

/-- The stream package has a generic codec for decimal types; its instance is renamed. -/
def fixedPointCode (r : RuntimeNames) (type : String) : Code :=
  let p := Profiles.ofType r type
  Code.lines
      [s!"package {type}_Marshal is new {r.streamPackage}.Fixed_Point ({type}) ;",
       s!"{p.marshal} renames {type}_Marshal.Marshall ;",
       s!"{p.unmarshal} renames {type}_Marshal.UnMarshall ;",
       s!"{p.size} renames {type}_Marshal.Align_Size ;"]
    ++ Code.blank

def code (c : Codec) (r : RuntimeNames) : Code :=
  let p := Profiles.ofType r c.type
  match c with
  | record _ components => (recordBodies r components).code p
  | union type switch variants => (unionBodies r type switch variants).code p
  | enumeration type => (enumerationBodies type).code p
  | array _ plan => plan.marshal p.marshal ++ plan.unmarshal p.unmarshal ++ plan.size p.size r.sizeType
  | sequence type element => (sequenceBodies r type element).code p
  | string type wide => (stringBodies r type (boundedString wide)).code p
  | fixedPoint type => fixedPointCode r type
  | derived type base => (derivedBodies type base).code p
  | reference => (referenceBodies r).code p

end Codec

end AdaStubs.Ada
