import AdaStubs.Error

/-!
# Dependencies of an artifact

What an artifact of a unit refers to outside that unit: declarations, marshalling packages and packages
of the runtime library. Each list keeps the order in which its entries were first recorded.
-/

namespace AdaStubs

structure RuntimeImport where
  package : String
  /-- Whether the package's declarations are made directly visible. -/
  isUsed : Bool
deriving DecidableEq, Repr

/-- A declaration that was named in full, for its type or for its marshalling. -/
structure Mention where
  node : Nat
  forMarshalling : Bool
deriving DecidableEq, Repr

structure Dependencies where
  unit : Nat
  imports : List Nat
  marshalImports : List Nat
  runtime : List RuntimeImport
  mentions : List Mention
deriving DecidableEq, Repr

namespace Dependencies

def ofUnit (unit : Nat) : Dependencies := ⟨unit, [], [], [], []⟩

def appendNew (list : List Nat) (node : Nat) : List Nat :=
  if list.contains node then list else list ++ [node]

def record (d : Dependencies) (node : Nat) : Dependencies :=
  { d with imports := appendNew d.imports node }

def recordMarshal (d : Dependencies) (node : Nat) : Dependencies :=
  { d with marshalImports := appendNew d.marshalImports node }

/-- Adds a package at the end, or turns the flag of the one that is there. -/
def addRuntime (package : String) (isUsed : Bool) : List RuntimeImport → List RuntimeImport
  | [] => [⟨package, isUsed⟩]
  | r :: rest =>
    if r.package == package then { r with isUsed := r.isUsed || isUsed } :: rest
    else r :: addRuntime package isUsed rest

def requireRuntime (d : Dependencies) (package : String) : Dependencies :=
  { d with runtime := addRuntime package false d.runtime }

def useRuntime (d : Dependencies) (package : String) : Dependencies :=
  { d with runtime := addRuntime package true d.runtime }

def mention (d : Dependencies) (m : Mention) : Dependencies :=
  { d with mentions := d.mentions ++ [m] }

/-- Whether a list recorded for `unit` makes `node` available: it holds the package of `node`, if that is
another one, or a scope of `node` up to where its path meets that of `unit`. -/
def reaches (t : Tree) (unit : Nat) (list : List Nat) (node : Nat) : Except Fault Bool := do
  if list.isEmpty then return false
  let _ ← t.need node
  let package := t.packageOf node
  if package != unit && list.contains package then return true
  let _ ← t.need unit
  let own := unit :: t.ancestors unit
  return ((node :: t.ancestors node).takeWhile (!own.contains ·)).any list.contains

def isImported (d : Dependencies) (t : Tree) (node : Nat) : Except Fault Bool :=
  reaches t d.unit d.imports node

def isMarshalImported (d : Dependencies) (t : Tree) (node : Nat) : Except Fault Bool :=
  reaches t d.unit d.marshalImports node

end Dependencies

end AdaStubs
