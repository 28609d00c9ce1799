import AdaStubs.Ada.Body
import AdaStubs.Ada.Subprogram
import AdaStubs.Bound

/-!
# Ada declarations

What a package specification declares for an IDL declaration, with all names resolved, and the code of it.
-/

namespace AdaStubs.Ada

structure Component where
  name : String
  typeName : String
deriving DecidableEq, Repr

/-- A component that exists for the given choices of the discriminant. -/
structure Variant where
  choices : String
  component : Component
deriving DecidableEq, Repr

/-- The choice that takes every value not named by another. -/
def others : String := "others"

/-- The alternatives of a case on the discriminant, each with what stands in it. Without an alternative
for the other values there is an empty one at the end. -/
def alternatives (variants : List Variant) (inside : Component → String) : List (String × String) :=
  variants.map (fun v => (v.choices, inside v.component))
    ++ if variants.any (·.choices == others) then [] else [(others, "null ;")]

def caseCode (selector : String) (alternatives : List (String × String)) : Code :=
  Code.block s!"case {selector} is" "end case ;"
    (alternatives.flatMap fun (choices, inside) =>
      Code.line s!"when {choices} =>" ++ (Code.line inside).nest)

def Component.declaration (c : Component) : String := s!"{c.name} : {c.typeName} ;"

/-- A record type after `head`, which is a null record without components. -/
def recordCode (head : String) (components : List String) : Code :=
  if components.isEmpty then Code.line s!"{head} null record ;"
  else Code.block s!"{head} record" "end record ;" (Code.lines components)

/-- Bounded strings come from a generic package of the runtime library, one for each width. -/
structure BoundedString where
  generic : String
  subtypeName : String
  unbounded : String
  toUnbounded : String
  toBounded : String
deriving DecidableEq, Repr

def boundedString (wide : Bool) : BoundedString :=
  if wide then
    ⟨"Corba.Bounded_Wide_Strings", "Bounded_Wide_String", "Corba.Wide_String", "To_Corba_Wide_String",
      "To_Bounded_Wide_String"⟩
  else
    ⟨"Corba.Bounded_Strings", "Bounded_String", "Corba.String", "To_Corba_String", "To_Bounded_String"⟩

inductive Declaration where
  | array (name : String) (extents : List Nat) (element : String)
  | record (name : String) (components : List Component)
  | exception (name base : String) (components : List Component)
  | union (name switch : String) (variants : List Variant)
  | enumeration (name : String) (literals : List String)
  | sequence (name element : String) (bound : Option Nat)
  | string (name : String) (wide : Bool) (bound : Nat)
  | fixedPoint (name : String) (digits scale : Nat)
  | derived (name base : String)
  | constant (name type value : String)
  | reference (parent objectRef repositoryId : String)
  | operations (subprograms : List Subprogram)
deriving DecidableEq, Repr

/-- The procedure that reads an exception's members back from an occurrence. -/
def membersProfile (name : String) : String :=
  s!"procedure Get_Members (From : in Ada.Exceptions.Exception_Occurrence ; To : out {name}_Members)"

/-- The function that narrows a reference. -/
def conversionProfile (objectRef : String) : String :=
  s!"function To_Ref (The_Ref : in {objectRef}'Class) return Ref"

/-- An instance of a generic package and its type under the instance's name. -/
def instanceCode (name generic member : String) : Code :=
  Code.lines [s!"package {name}_Pkg is new {generic} ;", s!"subtype {name} is {name}_Pkg.{member} ;"]

def sequencePackage (element : String) : Option Nat → String
  | some bound => s!"Corba.Sequences.Bounded ({element}, {bound})"
  | none => s!"Corba.Sequences.Unbounded ({element})"

namespace Declaration

def code : Declaration → Code
  | array name extents element =>
    let ranges := ", ".intercalate (extents.map indexRange)
    Code.line s!"type {name} is array ({ranges}) of {element} ;" ++ accessType name ++ Code.blank
  | record name components =>
    recordCode s!"type {name} is" (components.map (·.declaration)) ++ accessType name ++ Code.blank
  | exception name base components =>
    Code.line s!"{name} : exception ;"
      ++ recordCode s!"type {name}_Members is new {base} with" (components.map (·.declaration))
      ++ Code.line (membersProfile name ++ " ;") ++ Code.blank
  | union name switch variants =>
    Code.block s!"type {name} (Switch : {switch} := {switch}'First) is record" "end record ;"
        (caseCode "Switch" (alternatives variants (·.declaration)))
      ++ accessType name ++ Code.blank
  | enumeration name literals =>
    let list := ", ".intercalate literals
    Code.line s!"type {name} is ({list}) ;" ++ accessType name ++ Code.blank
  | sequence name element bound =>
    instanceCode name (sequencePackage element bound) "Sequence" ++ accessType name ++ Code.blank
  | string name wide bound =>
    let flavor := boundedString wide
    instanceCode name s!"{flavor.generic} ({bound})" flavor.subtypeName ++ accessType name ++ Code.blank
  | fixedPoint name digits scale =>
    Code.line s!"type {name} is delta 10.0 ** (-{scale}) digits {digits} ;" ++ accessType name
      ++ Code.blank
  | derived name base => Code.line s!"type {name} is new {base} ;" ++ accessType name ++ Code.blank
  | constant name type value => Code.line s!"{name} : constant {type} := {value} ;" ++ Code.blank
  | reference parent objectRef repositoryId =>
    Code.line s!"type Ref is new {parent}.Ref with null record ;" ++ accessType "Ref" ++ Code.blank
      ++ Code.lines
        [s!"Nil_Ref : constant Ref := ({parent}.Nil_Ref with null record) ;",
         conversionProfile objectRef ++ " ;",
         s!"Repository_Id : constant Corba.String := Corba.To_Corba_String (\"{repositoryId}\") ;"]
      ++ Code.blank
  | operations subprograms => Code.lines (subprograms.map (·.clientProfile ++ " ;")) ++ Code.blank

end Declaration

end AdaStubs.Ada
