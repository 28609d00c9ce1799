import AdaStubs.Emission.Reference

/-!
# Declaring

Resolves the names in a declaration. `resolve` names a type that the declaration refers to, and sees to it
that the type is declared before; nothing of the declaration itself is written until all names are known.
-/

namespace AdaStubs

open Ada

/-- The fields of a struct or exception with their types, in order. -/
def Tree.fields (t : Tree) (node : Nat) : List (Nat × Nat) :=
  (t.members node).filterMap fun m =>
    match t.kind? m with
    | some (.field type) => some (m, type)
    | _ => none

/-- The branches of a union with their labels and types, in order. -/
def Tree.branches (t : Tree) (node : Nat) : List (Nat × List Label × Nat) :=
  (t.members node).filterMap fun m =>
    match t.kind? m with
    | some (.branch labels type) => some (m, labels, type)
    | _ => none

/-- The parameters of an operation with their directions and types, in order. -/
def Tree.arguments (t : Tree) (node : Nat) : List (Nat × Direction × Nat) :=
  (t.members node).filterMap fun m =>
    match t.kind? m with
    | some (.argument direction type) => some (m, direction, type)
    | _ => none

/-- The name under which an interface is known to the runtime library. -/
def Tree.repositoryId (t : Tree) (node : Nat) : String :=
  "IDL:" ++ "/".intercalate (t.scopedName node) ++ ":1.0"

namespace Emit

variable (ctx : Context) (resolve : Nat → Emit String)

def components (node : Nat) : Emit (List Component) :=
  (ctx.tree.fields node).mapM fun (field, type) => do
    let typeName ← resolve type
    return ⟨← localName ctx field, typeName⟩

/-- The values of a branch that is not the default. -/
def labelValues (labels : List Label) : List Value :=
  labels.filterMap fun
    | .value v => some v
    | .default => none

def choices (labels : List Label) : Emit String := do
  if labels.contains .default then return others
  return " | ".intercalate (← (labelValues labels).mapM (literal ctx))

def variants (node : Nat) : Emit (List Variant) :=
  (ctx.tree.branches node).mapM fun (branch, labels, type) => do
    let typeName ← resolve type
    let choices ← choices ctx labels
    return ⟨choices, ← localName ctx branch, typeName⟩

/-- The package whose references the references of an interface are derived from: that of its first base,
or the root object's. -/
def parentPackage (bases : List Nat) : Emit String := do
  match bases with
  | base :: _ =>
    updateDeps (·.record base)
    fullName ctx base
  | [] =>
    let object := packageOf ctx.settings.runtime.objectRef
    require object
    return object

/-- The subprograms of an attribute: one reads it, and unless it is readonly one writes it. -/
def accessors (name idlName typeName : String) (type : Nat) (readonly : Bool) : List Subprogram :=
  ⟨s!"get_{name}", s!"get_{idlName}", [], some ⟨"Result", .output, typeName, type⟩, false⟩
    :: if readonly then []
      else [⟨s!"set_{name}", s!"set_{idlName}", [⟨"To", .input, typeName, type⟩], none, false⟩]

def subprograms (node : Nat) : Emit (List Subprogram) := do
  match ← kindOf ctx node with
  | .attribute type readonly =>
    let name ← localName ctx node
    let typeName ← resolve type
    return accessors name (ctx.tree.name node) typeName type readonly
  | .operation result oneway _ =>
    let parameters ← (ctx.tree.arguments node).mapM fun (argument, direction, type) => do
      let name ← localName ctx argument
      return Parameter.mk name direction (← resolve type) type
    let result ← result.mapM fun type => return Parameter.mk "Result" .output (← resolve type) type
    return [⟨← localName ctx node, ctx.tree.name node, parameters, result, oneway⟩]
  | kind => refuse node "attribute or operation" kind

/-- The declaration for `node`; modules and types of the runtime library have none. -/
def declare (node : Nat) : Emit (Option Declaration) := do
  let kind ← kindOf ctx node
  match kind with
  | .array dims element =>
    let name ← localName ctx node
    let extents ← extents dims node
    let element ← resolve element
    requireDeallocation
    return some (.array name extents element)
  | .struct =>
    let name ← localName ctx node
    let components ← components ctx resolve node
    requireDeallocation
    return some (.record name components)
  | .exception =>
    let name ← localName ctx node
    let components ← components ctx resolve node
    let base := ctx.settings.runtime.exceptionMembers
    require (packageOf base)
    require "Ada.Exceptions"
    return some (.exception name base components)
  | .union discriminant =>
    let name ← localName ctx node
    let switch ← resolve discriminant
    let variants ← variants ctx resolve node
    requireDeallocation
    return some (.union name switch variants)
  | .enum =>
    let name ← localName ctx node
    let literals ← (ctx.tree.members node).mapM (localName ctx)
    requireDeallocation
    return some (.enumeration name literals)
  | .sequence element bound =>
    let name ← localName ctx node
    let element ← resolve element
    require "Corba.Sequences"
    let bound ← bound.mapM fun (v : Value) => v.extent node "sequence bound"
    requireDeallocation
    return some (.sequence name element bound)
  | .string none _ => return none
  | .string (some bound) wide =>
    let name ← localName ctx node
    let bound ← bound.extent node "string bound"
    require (boundedString wide).generic
    requireDeallocation
    return some (.string name wide bound)
  | .fixed digits scale =>
    let name ← localName ctx node
    requireDeallocation
    return some (.fixedPoint name digits scale)
  | .typedef base =>
    let base ← resolve base
    let name ← localName ctx node
    requireDeallocation
    return some (.derived name base)
  | .constant type value =>
    let typeName ← resolve type
    let value ← literal ctx value
    return some (.constant (← localName ctx node) typeName value)
  | .interface bases =>
    let parent ← parentPackage ctx bases
    require "Corba"
    requireDeallocation
    return some (.reference parent ctx.settings.runtime.objectRef (ctx.tree.repositoryId node))
  | .attribute _ _ | .operation _ _ _ => return some (.operations (← subprograms ctx resolve node))
  | .module | .primitive _ => return none
  | .branch _ _ | .enumerator | .argument _ _ | .field _ => refuse node "declaration" kind

end Emit

end AdaStubs
