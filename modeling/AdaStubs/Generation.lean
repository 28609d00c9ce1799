import AdaStubs.Artifact
import AdaStubs.Emission.Stubs

/-!
# Generation

Makes the artifacts of every unit of a tree, the root package first and each unit before those it holds.
The first error ends the generation without output.
-/

namespace AdaStubs

open Ada

namespace Emit

variable (ctx : Context)

/-- The dependencies an artifact of `unit` starts with: what exists already is known to it. -/
def initialDeps (settings : Settings) (unit : Nat) : Dependencies :=
  settings.imports.foldl (fun d node => (d.record node).recordMarshal node) (.ofUnit unit)

/-- Turns to the next artifact of `unit`. -/
def beginArtifact (unit : Nat) : Emit Unit := modify (·.turnTo (initialDeps ctx.settings unit))

/-! ## Context clauses -/

/-- A list of clauses under construction, and the packages that need no clause any more. -/
structure Clauses where
  seen : List String
  clauses : List Clause

def Clauses.add (c : Clauses) (package : String) (isUsed : Bool) : Clauses :=
  if c.seen.contains package then c
  else ⟨package :: c.seen, c.clauses ++ [⟨package, isUsed⟩]⟩

def packageName (node : Nat) : Emit String := do
  let _ ← kindOf ctx node
  fullName ctx (ctx.tree.packageOf node)

/-- Adds the marshalling package that belongs to `node`, unless it is the unit's own. -/
def marshalClause (unit : String) (c : Clauses) (node : Nat) : Emit Clauses := do
  let owner ← packageName ctx node
  return if owner == unit then c else c.add (owner ++ ".Marshal") true

/-- The clauses for the dependencies of an artifact; neither its unit nor itself is named. -/
def contextClauses (unit artifact : String) : Emit (List Clause) := do
  let deps := (← get).deps
  let runtime := deps.runtime.foldl (fun c r => c.add r.package r.isUsed) ⟨[unit, artifact], []⟩
  let types ← deps.imports.foldlM (fun c node => return c.add (← packageName ctx node) false) runtime
  let marshalling ← deps.marshalImports.foldlM (marshalClause ctx unit) types
  return marshalling.clauses

/-- The package of the artifact under way. -/
def package (kind : ArtifactKind) (unit : String) (items hidden : List Item) : Emit Artifact := do
  let clauses ← contextClauses ctx unit (kind.unitName unit)
  return ⟨kind, unit, .package clauses items hidden, (← get).deps⟩

/-! ## The package of a unit -/

/-- The declarations of a unit that have no package of their own and do not exist already. -/
def ownMembers (unit : Nat) : Emit (List Nat) := do
  let deps := (← get).deps
  (ctx.tree.members unit).filterM fun m => do
    if ctx.tree.hasKind Kind.isUnit m then return false
    return !(← deps.isImported ctx.tree m)

def isInterface (unit : Nat) : Bool := ctx.tree.hasKind (· matches .interface _) unit

/-- An interface's own declaration is that of its references, and comes first. -/
def declareReferences (unit : Nat) : Emit Unit :=
  if isInterface ctx unit then place (declaration ctx unit) else pure ()

/-- The specification, if there is one, and the types it declares. -/
def specification (unit : Nat) (name : String) : Emit (List Artifact × List Nat) := do
  beginArtifact ctx unit
  declareReferences ctx unit
  let members ← ownMembers ctx unit
  (members.flatMap ctx.tree.innerFirst).forM fun node => place (declaration ctx node)
  let declared ← takeDeclared
  let items := (← get).hoisted
  if unit == Tree.root && items.isEmpty then return ([], declared)
  return ([← package ctx .spec name items []], declared)

/-- An artifact of what `write` gives for each of `nodes`, unless that is nothing. -/
def packageOfEach (kind : ArtifactKind) (name : String) (write : Nat → Emit (List Item))
    (nodes : List Nat) : Emit (List Artifact) := do
  nodes.forM fun node => place (write node)
  let items := (← get).hoisted
  if items.isEmpty then return []
  return [← package ctx kind name items []]

def packageBody (unit : Nat) (name : String) : Emit (List Artifact) := do
  beginArtifact ctx unit
  let members ← ownMembers ctx unit
  packageOfEach ctx .body name (body ctx) (if isInterface ctx unit then unit :: members else members)

def marshalling (unit : Nat) (name : String) (declared : List Nat) : Emit (List Artifact) := do
  beginArtifact ctx unit
  let spec ← packageOfEach ctx .marshalSpec name (marshalProfiles ctx) declared
  beginArtifact ctx unit
  let body ← packageOfEach ctx .marshalBody name (marshalBody ctx) declared
  return spec ++ body

/-! ## The children of an interface -/

def operationsOf (unit : Nat) : List Nat :=
  (ctx.tree.members unit).filter (ctx.tree.hasKind (· matches .attribute _ _ | .operation _ _ _))

/-- What `write` gives for all of `nodes`, after everything hoisted on the way. -/
def itemsOfAll (write : Nat → Emit (List Item)) (nodes : List Nat) : Emit (List Item) := do
  let items ← nodes.mapM write
  return (← get).hoisted ++ items.flatten

def proxies (unit : Nat) (name : String) : Emit (List Artifact) := do
  let operations := operationsOf ctx unit
  if operations.isEmpty then return []
  beginArtifact ctx unit
  let parts ← operations.mapM (descriptors ctx)
  let items := (← get).hoisted ++ parts.flatMap (·.1)
  let spec ← package ctx .proxiesSpec name items (parts.flatMap (·.2))
  beginArtifact ctx unit
  let items ← itemsOfAll (descriptorBodies ctx) operations
  let body ← package ctx .proxiesBody name items []
  return [spec, body]

def implementation (unit : Nat) (name : String) : Emit (List Artifact) := do
  if !ctx.settings.implementation then return []
  let operations := operationsOf ctx unit
  beginArtifact ctx unit
  let parent ← servantParent ctx unit
  let declarations ← operations.mapM (servants ctx)
  let items := (← get).hoisted ++ .stub unit (.servantType parent) :: declarations.flatten
  let spec ← package ctx .implSpec name items [.stub unit (.servantRecord parent)]
  if operations.isEmpty then return [spec]
  beginArtifact ctx unit
  let items ← itemsOfAll (servantBodies ctx) operations
  return [spec, ← package ctx .implBody name items []]

def skeleton (unit : Nat) (name : String) : Emit (List Artifact) := do
  if !ctx.settings.skeletons then return []
  let entries ← (operationsOf ctx unit).mapM (dispatchEntries ctx)
  return [⟨.skeleton, name, .dispatcher entries.flatten, .ofUnit unit⟩]

def interfaceChildren (unit : Nat) (name : String) : Emit (List Artifact) := do
  let proxies ← proxies ctx unit name
  let implementation ← implementation ctx unit name
  return proxies ++ implementation ++ (← skeleton ctx unit name)

def children (unit : Nat) (name : String) : Emit (List Artifact) :=
  if isInterface ctx unit then interfaceChildren ctx unit name else pure []

def generateUnit (unit : Nat) : Emit UnitOutput := do
  let name ← fullName ctx unit
  let (spec, declared) ← specification ctx unit name
  let body ← packageBody ctx unit name
  let marshal ← marshalling ctx unit name declared
  let children ← children ctx unit name
  return ⟨unit, name, spec ++ body ++ marshal ++ children⟩

def generateUnits (units : List Nat) : Emit (List UnitOutput) := do
  let outputs ← units.mapM (generateUnit ctx)
  return outputs.filter (!·.artifacts.isEmpty)

end Emit

/-- An import that the tree does not have. -/
def Context.unknownImport? (ctx : Context) : Option Nat :=
  ctx.settings.imports.find? fun node => (ctx.tree.node? node).isNone

/-- The artifacts of every unit of a tree. -/
def generate (ctx : Context) : Except Fault (List UnitOutput) :=
  match ctx.unknownImport? with
  | some node => .error (.error (.tree (.unknownNode node)))
  | none =>
    match Emit.generateUnits ctx (ctx.tree.units Tree.root) Session.start with
    | .ok outputs _ => .ok outputs
    | .error fault _ => .error fault

end AdaStubs
