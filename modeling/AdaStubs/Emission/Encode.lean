import AdaStubs.Emission.Declare

/-!
# Encoding

Resolves the names in the marshalling bodies of a type. `resolve` names a type that is marshalled inside,
and sees to it that its marshalling bodies come before.
-/

namespace AdaStubs

open Ada

namespace Emit

variable (ctx : Context) (resolve : Nat → Emit String)

/-- How the array `node` is marshalled. -/
def arrayPlan (node : Nat) : Emit ArrayPlan := do
  match ← kindOf ctx node with
  | .array dims element =>
    let count ← elementCount dims node
    let fixed ← withSizes (SizeTable.isFixed ctx.tree element)
    return ⟨IndexNest.ofRank dims.length, count, fixed⟩
  | kind => refuse node "array" kind

/-- The marshalling of `node`, if it is a type that is declared. -/
def encode (node : Nat) : Emit (Option Codec) := do
  let kind ← kindOf ctx node
  match kind with
  | .array _ element =>
    let name ← localName ctx node
    let _ ← resolve element
    let plan ← arrayPlan ctx node
    requireStream ctx
    return some (.array name plan)
  | .struct | .exception =>
    let type ← typeName ctx node false
    let components ← components ctx resolve node
    requireStream ctx
    return some (.record type components)
  | .union discriminant =>
    let name ← localName ctx node
    let switch ← resolve discriminant
    let variants ← variants ctx resolve node
    requireStream ctx
    return some (.union name switch variants)
  | .enum =>
    let name ← localName ctx node
    requireStream ctx
    require "Corba"
    return some (.enumeration name)
  | .sequence element _ =>
    let name ← localName ctx node
    let element ← resolve element
    requireStream ctx
    require "Corba"
    return some (.sequence name element)
  | .string none _ => return none
  | .string (some _) wide =>
    let name ← localName ctx node
    requireStream ctx
    require "Corba"
    return some (.string name wide)
  | .fixed _ _ =>
    let name ← localName ctx node
    requireStream ctx
    return some (.fixedPoint name)
  | .typedef base =>
    let base ← resolve base
    let name ← localName ctx node
    requireStream ctx
    return some (.derived name base)
  | .interface _ =>
    let _ ← typeName ctx node false
    require (packageOf ctx.settings.runtime.objectRef)
    requireStream ctx
    return some .reference
  | .module | .constant _ _ | .attribute _ _ | .operation _ _ _ | .primitive _ => return none
  | .branch _ _ | .enumerator | .argument _ _ | .field _ => refuse node "declaration" kind

end Emit

end AdaStubs
