import AdaStubs.Emission.Resolve

/-!
# Stubs of a declaration

Bodies, call descriptors, servants and dispatch entries for the declarations that have them.
-/

namespace AdaStubs

open Ada

/-- What a request may ask for of an attribute or operation. -/
def Tree.wireNames? (t : Tree) (node : Nat) : Kind → Option (List String)
  | .attribute _ readonly =>
    some (s!"get_{t.name node}" :: if readonly then [] else [s!"set_{t.name node}"])
  | .operation _ _ _ => some [t.name node]
  | _ => none

namespace Emit

variable (ctx : Context)

/-- The subprograms of an attribute or operation, with types named for the artifact under way. -/
def subprogramsOf (node : Nat) : Emit (List Subprogram) := subprograms ctx (nameType ctx) node

/-- The name of the package around an attribute or operation. -/
def enclosingName (node : Nat) : Emit String := do
  let _ ← kindOf ctx node
  fullName ctx (ctx.tree.enclosingUnit node)

def clientBody (node : Nat) : Emit Stub := do
  let proxies := (← enclosingName ctx node) ++ ".Proxies"
  let wrapper := ctx.settings.runtime.callWrapper
  require proxies
  require wrapper
  return .clients proxies wrapper (← subprogramsOf ctx node)

/-- What a package body holds for `node`. -/
def body (node : Nat) : Emit (List Item) := do
  let kind ← kindOf ctx node
  match kind with
  | .exception =>
    let name ← localName ctx node
    require "Ada.Exceptions"
    require "Corba.Exceptions"
    return [.stub node (.members name)]
  | .interface _ =>
    let objectRef := ctx.settings.runtime.objectRef
    require (packageOf objectRef)
    return [.stub node (.conversion objectRef)]
  | .attribute _ _ | .operation _ _ _ => return [.stub node (← clientBody ctx node)]
  | .module | .struct | .union _ | .enum | .sequence _ _ | .string _ _ | .fixed _ _ | .array _ _
  | .typedef _ | .constant _ _ | .primitive _ => return []
  | .branch _ _ | .enumerator | .argument _ _ | .field _ => refuse node "declaration" kind

/-- The call descriptors of an attribute or operation, and their records for the private part. -/
def descriptors (node : Nat) : Emit (List Item × List Item) := do
  let runtime := ctx.settings.runtime
  require (packageOf runtime.proxyBase)
  require (packageOf runtime.giopClient)
  require (packageOf runtime.sizeType)
  let subprograms ← subprogramsOf ctx node
  return ([.stub node (.descriptors subprograms)], [.stub node (.descriptorRecords subprograms)])

def descriptorBodies (node : Nat) : Emit (List Item) := do
  use ((← enclosingName ctx node) ++ ".Marshal")
  requireStream ctx
  let subprograms ← subprogramsOf ctx node
  (subprograms.flatMap (·.held)).forM fun p => discard (nameCodec ctx p.type)
  return [.stub node (.descriptorBodies subprograms)]

def servants (node : Nat) : Emit (List Item) :=
  return [.stub node (.servants (← subprogramsOf ctx node))]

def servantBodies (node : Nat) : Emit (List Item) :=
  return [.stub node (.servantBodies (← subprogramsOf ctx node))]

/-- The names under which requests reach an attribute or operation. -/
def wireNames (node : Nat) : Emit (List String) := do
  let kind ← kindOf ctx node
  match ctx.tree.wireNames? node kind with
  | some names => return names
  | none => refuse node "attribute or operation" kind

def dispatchEntries (node : Nat) : Emit (List Item) :=
  return [.stub node (.dispatch (← wireNames ctx node))]

/-- The type that the servants of an interface extend: the servants of its first base, or the runtime's. -/
def servantParent (node : Nat) : Emit String := do
  match ← kindOf ctx node with
  | .interface (base :: _) =>
    let package := (← fullName ctx base) ++ ".Impl"
    require package
    return package ++ ".Object"
  | .interface [] =>
    let base := ctx.settings.runtime.implementationBase
    require (packageOf base)
    return base
  | kind => refuse node "interface" kind

/-- Whether values of a type always take the same number of bytes. -/
def isFixedSize (node : Nat) : Emit Bool := withSizes (SizeTable.isFixed ctx.tree node)

end Emit

end AdaStubs
