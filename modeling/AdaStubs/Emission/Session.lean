import AdaStubs.Ada.Item
import AdaStubs.Dependencies
import AdaStubs.FixedSize
import AdaStubs.Naming.Table
import AdaStubs.Progress

/-!
# Sessions

A session remembers what has been written while artifacts are made one after the other: names, marks on
declarations, settled sizes, and the types declared since they were last asked for. The dependencies and
the hoisted items belong to the artifact under construction.
-/

namespace AdaStubs

open Ada

structure Session where
  names : NameTable
  progress : Progress
  sizes : SizeTable
  declared : List Nat
  deps : Dependencies
  /-- Items that have to stand before the one being written. -/
  hoisted : List Item
deriving DecidableEq, Repr

abbrev Emit := Run Session

namespace Session

/-- A session that has done nothing, on an artifact of the root package. -/
def start : Session := ⟨.empty, .empty, .empty, [], .ofUnit Tree.root, []⟩

/-- Turns to another artifact. -/
def turnTo (s : Session) (deps : Dependencies) : Session := { s with deps, hoisted := [] }

end Session

namespace Emit

def withNames {α : Type} (act : NameTable.Lookup α) : Emit α := fun s =>
  match act s.names with
  | .ok a names => .ok a { s with names }
  | .error fault names => .error fault { s with names }

def withSizes {α : Type} (act : SizeTable.Sizing α) : Emit α := fun s =>
  match act s.sizes with
  | .ok a sizes => .ok a { s with sizes }
  | .error fault sizes => .error fault { s with sizes }

def updateDeps (f : Dependencies → Dependencies) : Emit Unit := modify fun s => { s with deps := f s.deps }

def updateProgress (f : Progress → Progress) : Emit Unit :=
  modify fun s => { s with progress := f s.progress }

def require (package : String) : Emit Unit := updateDeps (·.requireRuntime package)

def use (package : String) : Emit Unit := updateDeps (·.useRuntime package)

def hoist (items : List Item) : Emit Unit := modify fun s => { s with hoisted := s.hoisted ++ items }

/-- Runs `act` while `node` is being written. -/
def during {α : Type} (node : Nat) (act : Emit α) : Emit α := fun s =>
  match act { s with progress := s.progress.enter node } with
  | .ok a after => .ok a { after with progress := after.progress.leave node }
  | .error fault after => .error fault { after with progress := after.progress.leave node }

/-- The types declared since the last call, in order. -/
def takeDeclared : Emit (List Nat) := do
  let s ← get
  set { s with declared := [] }
  return s.declared

variable (ctx : Context)

def localName (node : Nat) : Emit String := withNames (NameTable.localName ctx node)

def fullName (node : Nat) : Emit String := withNames (NameTable.fullName ctx node)

def kindOf (node : Nat) : Emit Kind := return (← ctx.tree.need node).kind

/-- Refuses `node` as not being what is expected. -/
def refuse {α : Type} (node : Nat) (expected : String) (actual : Kind) : Emit α :=
  throw (.error (.wrongKind node expected actual))

/-- The package of the stream, made visible, and the package of the type that counts bytes. -/
def requireStream : Emit Unit := do
  use ctx.settings.runtime.streamPackage
  require (packageOf ctx.settings.runtime.sizeType)

/-- What an access type needs. -/
def requireDeallocation : Emit Unit := require "Ada.Unchecked_Deallocation"

end Emit

end AdaStubs
