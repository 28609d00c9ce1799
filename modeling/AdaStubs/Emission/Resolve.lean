import AdaStubs.Emission.Encode

/-!
# Resolving

A type's declaration, or its marshalling, is written once in a session: when it is asked for, or before
the first reference to it from its own package. While one is under way, a reference to it is a name and
nothing more, so types may refer to themselves.
-/

namespace AdaStubs

open Ada

/-- The item of an aspect of `node`, if it has one. -/
def Aspect.item (ctx : Context) (a : Aspect) (resolve : Nat → Emit String) (node : Nat) :
    Emit (List Item) := do
  match a with
  | .declaration => return ((← Emit.declare ctx resolve node).map (Item.declaration node)).toList
  | .marshalling => return ((← Emit.encode ctx resolve node).map (Item.codec node)).toList

namespace Emit

variable (ctx : Context)

/-- Marks an aspect of `node` as written. A type that has been declared awaits its marshalling. -/
def finish (a : Aspect) (node : Nat) : Emit Unit := do
  updateProgress (a.markDone · node)
  let kind ← kindOf ctx node
  if a = .declaration && kind.isType && !kind.isPrimitive then
    modify fun s => { s with declared := s.declared ++ [node] }

/-- Writes an aspect of `node` unless that has been done or is under way. -/
def produce (a : Aspect) (resolve : Nat → Emit String) (node : Nat) : Emit (List Item) := do
  let progress := (← get).progress
  if a.isDone progress node || progress.isBusy node then return []
  let items ← during node (a.item ctx resolve node)
  finish ctx a node
  return items

/-- Puts what `act` writes after what it hoists. -/
def place (act : Emit (List Item)) : Emit Unit := do hoist (← act)

/-- Names a type, in full if it comes from outside; else it has to be written before. -/
def refer (a : Aspect) (resolve : Nat → Emit String) (node : Nat) : Emit String := do
  expectType ctx node
  if ← isExternal ctx a node then externalName ctx a node
  else
    place (produce ctx a resolve node)
    typeName ctx node false

/-- Names a type; what has to be written before goes at most `depth` types deep. -/
def nameWithin (a : Aspect) : Nat → Nat → Emit String
  | 0, _ => throw .exhausted
  | depth + 1, node => refer ctx a (nameWithin a depth) node

/-- Names a type for an aspect of the code that refers to it. Every type under way is another node of the
tree, which bounds the depth. -/
def nameFor (a : Aspect) (node : Nat) : Emit String := nameWithin ctx a (ctx.tree.size + 1) node

/-- Names a type where a declaration refers to it. -/
def nameType (node : Nat) : Emit String := nameFor ctx .declaration node

/-- Names a type where marshalling code refers to it. -/
def nameCodec (node : Nat) : Emit String := nameFor ctx .marshalling node

/-- The declaration of `node`, unless it has been written. -/
def declaration (node : Nat) : Emit (List Item) := produce ctx .declaration (nameType ctx) node

/-- The marshalling bodies of `node`, unless they have been written. -/
def marshalBody (node : Nat) : Emit (List Item) := produce ctx .marshalling (nameCodec ctx) node

/-- The declarations of the marshalling subprograms of `node`. -/
def marshalProfiles (node : Nat) : Emit (List Item) := do
  let kind ← kindOf ctx node
  match kind with
  | .array _ _ | .struct | .exception | .union _ | .enum | .sequence _ _ | .string _ _ | .fixed _ _
  | .typedef _ | .interface _ =>
    let type ← typeName ctx node false
    requireStream ctx
    return [.profiles node type]
  | .module | .constant _ _ | .attribute _ _ | .operation _ _ _ | .primitive _ => return []
  | .branch _ _ | .enumerator | .argument _ _ | .field _ => refuse node "declaration" kind

end Emit

end AdaStubs
