import AdaStubs.Ada.Identifier
import AdaStubs.Idl.Tree

/-!
# Namespaces

A namespace gives each of its declarations a spelling of its own. Components live in their record,
parameters in their operation, everything else in the package around it. Named declarations are served
first, in order; then the anonymous types, each after the declaration that owns it.
-/

namespace AdaStubs

namespace Kind

/-- Names that a namespace holds before any declaration is served. -/
def seeds : Kind → List String
  | .interface _ => ["Ref", "Nil_Ref", "To_Ref", "Repository_Id"]
  | .union _ => ["Switch"]
  | .operation _ _ _ => ["Self", "Returns", "Result"]
  | _ => []

/-- What the name of an anonymous type adds to its owner's. -/
def suffix : Kind → String
  | .array _ _ => "_Array"
  | .sequence _ _ => "_Seq"
  | .string _ _ => "_String"
  | .fixed _ _ => "_Fixed"
  | _ => "_Type"

end Kind

namespace Tree

/-- Whose namespace holds the name of `id`. -/
def namespaceOf (t : Tree) (id : Nat) : Nat :=
  if t.hasKind Kind.isComponent id then ((t.node? id).bind (·.scope)).getD root
  else t.enclosingUnit id

/-- Names that the namespace opened by `owner` holds from the start. -/
def seeds (t : Tree) (owner : Nat) : List String := ((t.kind? owner).map Kind.seeds).getD []

/-- Whether the namespace opened by `owner` is that of a package. -/
def opensPackage (t : Tree) (owner : Nat) : Bool := owner == root || t.hasKind Kind.isUnit owner

/-- What the namespace opened by `owner` serves by name, in order. -/
def served (t : Tree) (owner : Nat) : List Nat :=
  (if t.opensPackage owner then t.contents owner else t.members owner).filter (t.namespaceOf · == owner)

/-- The scopes of a package, the package itself first. -/
def packageScopes (t : Tree) (unit : Nat) : List Nat :=
  unit :: (t.contents unit).filter (t.hasKind Kind.isInnerScope)

/-- The anonymous types that the namespace opened by `owner` serves after that, in order. -/
def servedAnonymous (t : Tree) (owner : Nat) : List Nat :=
  if t.opensPackage owner then (t.packageScopes owner).flatMap t.anonymous else []

/-- The declaration an anonymous type is written in. -/
def declaringOwner? (t : Tree) (scope id : Nat) : Option Nat :=
  (t.members scope).find? fun m => (t.kind? m).bind Kind.typeRef? == some id

/-- The anonymous array or sequence an anonymous type is the element of. -/
def containingOwner? (t : Tree) (scope id : Nat) : Option Nat :=
  (t.anonymous scope).find? fun o => o != id && (t.kind? o).bind Kind.element? == some id

end Tree

end AdaStubs
