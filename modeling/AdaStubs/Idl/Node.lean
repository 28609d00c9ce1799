import AdaStubs.Idl.Primitive
import AdaStubs.Idl.Value

/-!
# Declarations

A node is one declaration, or an anonymous type written inside one. Nodes refer to types by their
place in the tree; such a reference may point forward, to a declaration that is no type, or nowhere.
-/

namespace AdaStubs

/-- A case of a union branch. -/
inductive Label where
  | value (v : Value)
  | default
deriving DecidableEq, Repr

inductive Kind where
  | module
  | interface (bases : List Nat)
  | struct
  | exception
  | union (discriminant : Nat)
  | branch (labels : List Label) (type : Nat)
  | enum
  | enumerator
  | sequence (element : Nat) (bound : Option Value)
  | string (bound : Option Value) (wide : Bool)
  | fixed (digits scale : Nat)
  | array (dims : List Value) (element : Nat)
  | typedef (base : Nat)
  | constant (type : Nat) (value : Value)
  | attribute (type : Nat) (readonly : Bool)
  | operation (result : Option Nat) (oneway : Bool) (raises : List Nat)
  | argument (direction : Direction) (type : Nat)
  | field (type : Nat)
  | primitive (p : Primitive)
deriving DecidableEq, Repr

namespace Kind

def name : Kind → String
  | .module => "module"
  | .interface _ => "interface"
  | .struct => "struct"
  | .exception => "exception"
  | .union _ => "union"
  | .branch _ _ => "union branch"
  | .enum => "enum"
  | .enumerator => "enumerator"
  | .sequence _ _ => "sequence"
  | .string _ _ => "string"
  | .fixed _ _ => "fixed"
  | .array _ _ => "array"
  | .typedef _ => "typedef"
  | .constant _ _ => "constant"
  | .attribute _ _ => "attribute"
  | .operation _ _ _ => "operation"
  | .argument _ _ => "argument"
  | .field _ => "field"
  | .primitive _ => "primitive"

def isScope : Kind → Bool
  | .module | .interface _ | .struct | .exception | .union _ | .enum | .operation _ _ _ => true
  | _ => false

/-- Modules and interfaces become Ada packages. -/
def isUnit : Kind → Bool
  | .module | .interface _ => true
  | _ => false

/-- Scopes that have no package of their own. -/
def isInnerScope (k : Kind) : Bool := k.isScope && !k.isUnit

def isType : Kind → Bool
  | .interface _ | .struct | .exception | .union _ | .enum | .sequence _ _ | .string _ _ | .fixed _ _
  | .array _ _ | .typedef _ | .primitive _ => true
  | _ => false

def isPrimitive : Kind → Bool
  | .primitive _ => true
  | _ => false

/-- The parts of a record and the parameters of an operation. -/
def isComponent : Kind → Bool
  | .field _ | .branch _ _ | .argument _ _ => true
  | _ => false

/-- The type a member is declared with. -/
def typeRef? : Kind → Option Nat
  | .field type => some type
  | .argument _ type => some type
  | .branch _ type => some type
  | .attribute type _ => some type
  | .operation result _ _ => result
  | .typedef base => some base
  | _ => none

def element? : Kind → Option Nat
  | .array _ element => some element
  | .sequence element _ => some element
  | _ => none

/-- Whether a branch takes the cases no other branch names; none for any other kind. -/
def isDefault? : Kind → Option Bool
  | .branch labels _ => some (labels.contains .default)
  | _ => none

/-- The runtime type that stands for an unbounded string. -/
def runtimeString? : Kind → Option String
  | .string none wide => some (if wide then "Corba.Wide_String" else "Corba.String")
  | _ => none

/-- Modules, interfaces and the declarations that hold components can declare types. -/
def holdsTypes : Kind → Bool
  | .module | .interface _ | .struct | .exception | .union _ => true
  | _ => false

/-- Whether a declaration of kind `inner` may stand directly in one of kind `outer`. -/
def mayHold (outer inner : Kind) : Bool :=
  match inner with
  | .module | .interface _ => outer == .module
  | .exception | .constant _ _ => outer.isUnit
  | .struct | .union _ | .enum | .typedef _ => outer.holdsTypes
  | .branch _ _ => (outer matches .union _)
  | .enumerator => outer == .enum
  | .field _ => (outer matches .struct | .exception)
  | .attribute _ _ | .operation _ _ _ => (outer matches .interface _)
  | .argument _ _ => (outer matches .operation _ _ _)
  | .sequence _ _ | .string _ _ | .fixed _ _ | .array _ _ | .primitive _ => false

end Kind

/-- A declaration with the scope it stands in. Members are the declarations made directly in it,
`anonymous` the types written in it without a declaration of their own, both in order of creation. -/
structure Node where
  name : String
  scope : Option Nat
  kind : Kind
  members : List Nat := []
  anonymous : List Nat := []
deriving DecidableEq, Repr

def Node.isAnonymous (n : Node) : Bool := n.name.isEmpty

end AdaStubs
