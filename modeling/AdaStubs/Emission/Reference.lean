import AdaStubs.Ada.Literal
import AdaStubs.Emission.Session

/-!
# References

A type is referred to for one of two aspects, its declaration or its marshalling. From another package it
is named in full, and the package is recorded as a dependency; within its own package its local name will
do, provided the declaration or the marshalling bodies stand before the reference.
-/

namespace AdaStubs

open Ada

inductive Aspect where
  | declaration
  | marshalling
deriving DecidableEq, Repr

namespace Aspect

def isDone (a : Aspect) (p : Progress) (node : Nat) : Bool :=
  match a with
  | declaration => p.isDefined node
  | marshalling => p.isMarshalDefined node

def markDone (a : Aspect) (p : Progress) (node : Nat) : Progress :=
  match a with
  | declaration => p.markDefined node
  | marshalling => p.markMarshalDefined node

def markImported (a : Aspect) (p : Progress) (node : Nat) : Progress :=
  match a with
  | declaration => p.markImported node
  | marshalling => p.markMarshalImported node

def isImported (a : Aspect) (d : Dependencies) (t : Tree) (node : Nat) : Except Fault Bool :=
  match a with
  | declaration => d.isImported t node
  | marshalling => d.isMarshalImported t node

/-- Records another package; its marshalling is of use only together with its types. -/
def recordPackage (a : Aspect) (d : Dependencies) (package : Nat) : Dependencies :=
  match a with
  | declaration => d.record package
  | marshalling => (d.record package).recordMarshal package

end Aspect

namespace Emit

variable (ctx : Context)

/-- What a reference to a type of the runtime library requires. -/
def requireRuntimeType (a : Aspect) (package : String) : Emit Unit := do
  require package
  if a = .marshalling then requireStream ctx

/-- Whether `node` comes from outside the artifact, in which case where from is recorded. -/
def isExternal (a : Aspect) (node : Nat) : Emit Bool := do
  match ← kindOf ctx node with
  | .primitive p =>
    requireRuntimeType ctx a (packageOf p.adaName)
    return true
  | .string none _ =>
    requireRuntimeType ctx a "Corba"
    return true
  | _ =>
    let deps := (← get).deps
    if ← a.isImported deps ctx.tree node then return true
    let package := ctx.tree.packageOf node
    if package == deps.unit then return false
    updateDeps (a.recordPackage · package)
    return true

/-- The Ada type that values of `node` have: references for an interface, the members of an exception. -/
def typeName (node : Nat) (qualified : Bool) : Emit String := do
  let name ← if qualified then fullName ctx node else localName ctx node
  match ← kindOf ctx node with
  | .interface _ => return if qualified then s!"{name}.Ref" else "Ref"
  | .exception => return s!"{name}_Members"
  | _ => return name

def expectType (node : Nat) : Emit Unit := do
  let kind ← kindOf ctx node
  if !kind.isType then refuse node "type" kind

/-- Notes that `node` was named in full. -/
def mention (a : Aspect) (node : Nat) : Emit Unit :=
  updateDeps (·.mention ⟨node, a = .marshalling⟩)

/-- The full name of a type from outside. -/
def externalName (a : Aspect) (node : Nat) : Emit String := do
  updateProgress (a.markImported · node)
  let name ← typeName ctx node true
  mention a node
  return name

/-- An enumerator's name where the artifact sees it. -/
def enumeratorName (node : Nat) : Emit String := do
  if ← isExternal ctx .declaration node then
    let name ← fullName ctx node
    mention .declaration node
    return name
  else localName ctx node

/-- A constant value as an Ada expression. -/
def literal : Value → Emit String
  | .short v => return toString v.toInt
  | .unsignedShort v => return toString v.toNat
  | .long v => return toString v.toInt
  | .unsignedLong v => return toString v.toNat
  | .longLong v => return toString v.toInt
  | .unsignedLongLong v => return toString v.toNat
  | .octet v => return toString v.toNat
  | .float bits => return realLiteral (.ofBinary32 bits)
  | .double bits => return realLiteral (.ofBinary64 bits)
  | .boolean b => return booleanLiteral b
  | .char c => return charLiteral "Character" c
  | .wchar c => return charLiteral "Wide_Character" c
  | .string s => do
    require "Corba"
    return "Corba.To_Corba_String (" ++ stringLiteral s ++ ")"
  | .wstring s => do
    require "Corba"
    return "Corba.To_Corba_Wide_String (" ++ stringLiteral s ++ ")"
  | .enumerator node => enumeratorName ctx node

end Emit

end AdaStubs
