import AdaStubs.Error
import AdaStubs.Naming.Namespace
import AdaStubs.Settings

/-!
# Name tables

A table answers questions about names and keeps what it has found. All names of a namespace are given out
together when the first of them is asked for; the name of an anonymous type is made from its owner's, which
may live in another namespace and have to be found on the way.
-/

namespace AdaStubs

/-- A tree with the settings it is worked on under. -/
structure Context where
  tree : Tree
  settings : Settings

structure NameTable where
  locals : List (Nat × String)
  fulls : List (Nat × String)
  /-- Owners of the namespaces whose names have been given out or are being given out. -/
  opened : List Nat
  /-- Anonymous types that were refused a name. -/
  unowned : List Nat
deriving DecidableEq, Repr

namespace NameTable

def empty : NameTable := ⟨[], [], [], []⟩

def local? (table : NameTable) (id : Nat) : Option String := table.locals.lookup id

def full? (table : NameTable) (id : Nat) : Option String := table.fulls.lookup id

/-- Looks a name up; the table may grow, also if there is no name. -/
abbrev Lookup := Run NameTable

def keepLocal (id : Nat) (name : String) : Lookup Unit :=
  modify fun table => { table with locals := (id, name) :: table.locals }

def keepFull (id : Nat) (name : String) : Lookup Unit :=
  modify fun table => { table with fulls := (id, name) :: table.fulls }

def refuse (id : Nat) : Lookup Unit :=
  modify fun table => { table with unowned := id :: table.unowned }

def markOpened (owner : Nat) : Lookup Unit :=
  modify fun table => { table with opened := owner :: table.opened }

/-- Gives `id` the spelling `base`, numbered if that is among those used. The answer is what is used
then. -/
def enter (used : List String) (id : Nat) (base : String) : Lookup (List String) := do
  let name := Ada.distinct used base
  keepLocal id name
  return Ada.fold name :: used

variable (ctx : Context)

def enterAll (used : List String) (ids : List Nat) : Lookup (List String) :=
  ids.foldlM (fun used id => enter used id (Ada.identifier (ctx.tree.name id))) used

/-- Names an anonymous type after its owner, if that has a name; else by the placeholder, if there is
one. -/
def settle (used : List String) (id : Nat) (kind : Kind) (base : Option String) : Lookup (List String) :=
  match base, ctx.settings.placeholder with
  | some base, _ => enter used id (base ++ kind.suffix)
  | none, some placeholder => enter used id placeholder
  | none, none => do
    refuse id
    return used

/-- Names an anonymous type after the declaration it is written in, else after the anonymous type around
it, which is named first if it comes later. -/
def enterAnonymous (nameOf : Nat → Lookup String) (used : List String) (id : Nat) :
    Lookup (List String) := do
  let table ← get
  if (table.local? id).isSome || table.unowned.contains id then return used
  let node ← ctx.tree.need id
  if node.kind.runtimeString?.isSome then return used
  match node.scope with
  | none =>
    refuse id
    return used
  | some scope =>
    match ctx.tree.declaringOwner? scope id with
    | some owner =>
      let base ← nameOf owner
      settle ctx used id node.kind (some base)
    | none =>
      match ctx.tree.containingOwner? scope id with
      | none => settle ctx used id node.kind none
      | some outer =>
        let used ←
          if _later : id < outer ∧ outer < ctx.tree.size then enterAnonymous nameOf used outer
          else pure used
        let table ← get
        settle ctx used id node.kind (table.local? outer)
termination_by ctx.tree.size - id

/-- Gives out the names of the namespace opened by `owner`. -/
def assign (nameOf : Nat → Lookup String) (owner : Nat) : Lookup Unit := do
  markOpened owner
  let used ← enterAll ctx ((ctx.tree.seeds owner).map Ada.fold) (ctx.tree.served owner)
  discard ((ctx.tree.servedAnonymous owner).foldlM (enterAnonymous ctx nameOf) used)

/-- The name of a declaration that lives in no namespace of the tree: the runtime's own types and the
root package. -/
def fixedName? (id : Nat) (kind : Kind) : Option String :=
  match kind with
  | .primitive p => some p.adaName
  | _ => if id == Tree.root then some ctx.settings.rootPackage else kind.runtimeString?

/-- Finds the identifier of `id`, with `assignAll` to give out the names of a namespace. -/
def find (assignAll : Nat → Lookup Unit) (id : Nat) : Lookup String := do
  let table ← get
  match table.local? id with
  | some name => return name
  | none =>
    let node ← ctx.tree.need id
    match fixedName? ctx id node.kind with
    | some name =>
      keepLocal id name
      return name
    | none =>
      let owner := ctx.tree.namespaceOf id
      if !table.opened.contains owner then assignAll owner
      let table ← get
      match table.local? id with
      | some name => return name
      | none =>
        throw (.error (if table.unowned.contains id then .unowned id node.kind
          else .wrongKind id "named declaration" node.kind))

/-- Finds a name while at most `depth` namespaces are being given out. -/
def findWithin : Nat → Nat → Lookup String
  | 0, _ => throw .exhausted
  | depth + 1, id => find ctx (assign ctx (findWithin depth)) id

/-- The identifier of `id` within its namespace. Every namespace is opened once, which bounds the depth. -/
def localName (id : Nat) : Lookup String := findWithin ctx (ctx.tree.size + 1) id

end NameTable

/-- Components, parameters and the runtime's own types are not qualified by a package. -/
def Kind.isUnqualified : Kind → Bool
  | .primitive _ | .string none _ => true
  | kind => kind.isComponent

/-- Whether `id` goes by its own name everywhere. The root package goes without saying before the name of
a unit. -/
def Tree.standsAlone (t : Tree) (id : Nat) (kind : Kind) : Bool :=
  id == root || kind.isUnqualified || kind.isUnit && t.enclosingUnit id == root

theorem Tree.ne_root_of_qualified {t : Tree} {id : Nat} {kind : Kind} (qualified : ¬ t.standsAlone id kind) :
    id ≠ root := by
  rintro rfl
  simp [standsAlone] at qualified

namespace NameTable

variable (ctx : Context)

/-- The name of `id` from outside its package: its local name, after the name of the package around
it. -/
def fullName (id : Nat) : Lookup String := do
  let table ← get
  match table.full? id with
  | some name => return name
  | none =>
    let own ← localName ctx id
    let node ← ctx.tree.need id
    let name ←
      if _alone : ctx.tree.standsAlone id node.kind then pure own
      else
        let outer ← fullName (ctx.tree.enclosingUnit id)
        pure (outer ++ "." ++ own)
    keepFull id name
    return name
termination_by id
decreasing_by exact ctx.tree.enclosingUnit_lt (Tree.ne_root_of_qualified _alone)

end NameTable

end AdaStubs
