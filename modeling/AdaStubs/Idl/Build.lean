import AdaStubs.Idl.Tree

/-!
# Growing a tree

A step adds one declaration to a tree, or an enumeration with its enumerators. Only the placement of a
declaration is checked, never what it refers to. A refused step leaves the tree as it was, but for an
enumeration: it stays with the enumerators before the refused one.
-/

namespace AdaStubs

inductive BuildError where
  | unknownNode (node : Nat)
  | notAScope (node : Nat) (kind : Kind)
  | misplaced (kind : Kind) (scope : Nat) (scopeKind : Kind)
  | emptyName (kind : Kind) (scope : Nat)
deriving DecidableEq, Repr

def BuildError.message : BuildError → String
  | unknownNode node => s!"unknown node #{node}"
  | notAScope node kind => s!"node #{node} ({kind.name}) is not a scope"
  | misplaced kind scope scopeKind =>
    s!"{kind.name} cannot be declared inside {scopeKind.name} #{scope}"
  | emptyName kind scope => s!"empty name for {kind.name} declared in #{scope}"

/-- Which list of its scope a new node joins. -/
inductive Listing where
  | member
  | anonymous
  | unlisted
deriving DecidableEq, Repr

def Listing.enter (l : Listing) (id : Nat) (scope : Node) : Node :=
  match l with
  | .member => { scope with members := scope.members ++ [id] }
  | .anonymous => { scope with anonymous := scope.anonymous ++ [id] }
  | .unlisted => scope

theorem Listing.enter_scope (l : Listing) (id : Nat) (scope : Node) :
    (l.enter id scope).scope = scope.scope := by
  cases l <;> rfl

theorem Listing.mem_enter_members {l : Listing} {id member : Nat} {scope : Node}
    (listed : member ∈ (l.enter id scope).members) : member ∈ scope.members ∨ member = id := by
  cases l <;> simp_all [Listing.enter]

namespace Tree

/-- The tree that holds only its root module. -/
def initial : Tree where
  nodes := #[⟨"", none, .module, [], []⟩]
  root_lt := by decide
  scope_lt := by
    intro id node found scope inside
    cases id <;> simp at found
    simp [← found] at inside
  lt_member := by
    intro id node found member listed
    cases id <;> simp at found
    simp [← found] at listed

/-- The nodes after a new one has joined `scope`. -/
def grown (t : Tree) (listing : Listing) (scope : Nat) (name : String) (kind : Kind) : Array Node :=
  (t.nodes.modify scope (listing.enter t.size)).push ⟨name, some scope, kind, [], []⟩

theorem getElem?_grown (t : Tree) (listing : Listing) (scope : Nat) (name : String) (kind : Kind)
    (id : Nat) :
    (t.grown listing scope name kind)[id]? =
      if id = t.size then some ⟨name, some scope, kind, [], []⟩
      else if scope = id then (t.nodes[id]?).map (listing.enter t.size) else t.nodes[id]? := by
  simp only [grown, Array.getElem?_push, Array.getElem?_modify, Array.size_modify, size]
  rfl

/-- Adds a node at the end, into a scope that exists. -/
def add (t : Tree) (listing : Listing) (scope : Nat) (inside : scope < t.size) (name : String)
    (kind : Kind) : Tree where
  nodes := t.grown listing scope name kind
  root_lt := by simp [grown]
  scope_lt := by
    intro id node found outer within
    rw [getElem?_grown] at found
    split at found
    · cases found
      cases within
      omega
    · split at found
      · obtain ⟨old, before, rfl⟩ := Option.map_eq_some_iff.mp found
        rw [Listing.enter_scope] at within
        exact t.scope_lt before within
      · exact t.scope_lt found within
  lt_member := by
    intro id node found member listed
    rw [getElem?_grown] at found
    split at found
    · cases found
      cases listed
    · split at found
      · obtain ⟨old, before, rfl⟩ := Option.map_eq_some_iff.mp found
        rcases Listing.mem_enter_members listed with earlier | rfl
        · exact t.lt_member before earlier
        · exact (Array.getElem?_eq_some_iff.mp before).1
      · exact t.lt_member found listed

/-- The scope a new node is to stand in. -/
def scopeFor (t : Tree) (scope : Nat) : Except BuildError { n : Node // t.nodes[scope]? = some n } :=
  match t.nodes[scope]? with
  | none => .error (.unknownNode scope)
  | some node =>
    if node.kind.isScope then .ok ⟨node, rfl⟩ else .error (.notAScope scope node.kind)

theorem lt_of_getElem? {t : Tree} {id : Nat} {node : Node} (found : t.nodes[id]? = some node) :
    id < t.size :=
  (Array.getElem?_eq_some_iff.mp found).1

/-- Adds a named declaration; the new node is the last. -/
def declare (t : Tree) (scope : Nat) (name : String) (kind : Kind) : Except BuildError Tree := do
  let ⟨outer, found⟩ ← t.scopeFor scope
  if !outer.kind.mayHold kind then throw (.misplaced kind scope outer.kind)
  if name.isEmpty then throw (.emptyName kind scope)
  return t.add .member scope (lt_of_getElem? found) name kind

/-- Adds a type that has no name of its own. -/
def declareAnonymous (t : Tree) (scope : Nat) (kind : Kind) : Except BuildError Tree := do
  let ⟨_, found⟩ ← t.scopeFor scope
  return t.add .anonymous scope (lt_of_getElem? found) "" kind

/-- Adds declarations of one kind until one is refused. -/
def declareAll (t : Tree) (scope : Nat) (kind : Kind) : List String → Option BuildError × Tree
  | [] => (none, t)
  | name :: names =>
    match t.declare scope name kind with
    | .error e => (some e, t)
    | .ok grown => grown.declareAll scope kind names

end Tree

inductive Step where
  | primitive (p : Primitive)
  | module (scope : Nat) (name : String)
  | interface (scope : Nat) (name : String) (bases : List Nat)
  | struct (scope : Nat) (name : String)
  | exception (scope : Nat) (name : String)
  | union (scope : Nat) (name : String) (discriminant : Nat)
  | branch (scope : Nat) (name : String) (labels : List Label) (type : Nat)
  | enum (scope : Nat) (name : String) (enumerators : List String)
  | typedef (scope : Nat) (name : String) (base : Nat)
  | constant (scope : Nat) (name : String) (type : Nat) (value : Value)
  | field (scope : Nat) (name : String) (type : Nat)
  | attribute (scope : Nat) (name : String) (type : Nat) (readonly : Bool)
  | operation (scope : Nat) (name : String) (result : Option Nat) (oneway : Bool) (raises : List Nat)
  | argument (scope : Nat) (name : String) (direction : Direction) (type : Nat)
  | array (scope : Nat) (dims : List Value) (element : Nat)
  | sequence (scope : Nat) (element : Nat) (bound : Option Value)
  | string (scope : Nat) (bound : Option Value) (wide : Bool)
  | fixed (scope : Nat) (digits scale : Nat)
deriving DecidableEq, Repr

/-- What a step answers: the place of the node it stands for, or why it was refused. -/
abbrev Answer := Except BuildError Nat

namespace Tree

/-- The answer and the tree of a step that adds one node or none. -/
def settle (t : Tree) : Except BuildError Tree → Answer × Tree
  | .ok grown => (.ok t.size, grown)
  | .error e => (.error e, t)

def addPrimitive (t : Tree) (p : Primitive) : Nat × Tree :=
  match t.primitive? p with
  | some id => (id, t)
  | none => (t.size, t.add .unlisted root t.root_lt p.idlName (.primitive p))

def addEnum (t : Tree) (scope : Nat) (name : String) (enumerators : List String) : Answer × Tree :=
  match t.declare scope name .enum with
  | .error e => (.error e, t)
  | .ok grown =>
    match grown.declareAll t.size .enumerator enumerators with
    | (some e, rest) => (.error e, rest)
    | (none, rest) => (.ok t.size, rest)

def step (t : Tree) : Step → Answer × Tree
  | .primitive p => let (id, grown) := t.addPrimitive p; (.ok id, grown)
  | .enum scope name enumerators => t.addEnum scope name enumerators
  | .module scope name => t.settle (t.declare scope name .module)
  | .interface scope name bases => t.settle (t.declare scope name (.interface bases))
  | .struct scope name => t.settle (t.declare scope name .struct)
  | .exception scope name => t.settle (t.declare scope name .exception)
  | .union scope name discriminant => t.settle (t.declare scope name (.union discriminant))
  | .branch scope name labels type => t.settle (t.declare scope name (.branch labels type))
  | .typedef scope name base => t.settle (t.declare scope name (.typedef base))
  | .constant scope name type value => t.settle (t.declare scope name (.constant type value))
  | .field scope name type => t.settle (t.declare scope name (.field type))
  | .attribute scope name type readonly => t.settle (t.declare scope name (.attribute type readonly))
  | .operation scope name result oneway raises =>
    t.settle (t.declare scope name (.operation result oneway raises))
  | .argument scope name direction type => t.settle (t.declare scope name (.argument direction type))
  | .array scope dims element => t.settle (t.declareAnonymous scope (.array dims element))
  | .sequence scope element bound => t.settle (t.declareAnonymous scope (.sequence element bound))
  | .string scope bound wide => t.settle (t.declareAnonymous scope (.string bound wide))
  | .fixed scope digits scale => t.settle (t.declareAnonymous scope (.fixed digits scale))

/-- Takes steps one after the other, each on the tree the one before it left. -/
def steps (t : Tree) : List Step → List Answer × Tree
  | [] => ([], t)
  | s :: rest =>
    let (answer, next) := t.step s
    let (answers, last) := next.steps rest
    (answer :: answers, last)

/-- The tree that a list of steps builds from the root module. -/
def ofSteps (script : List Step) : Tree := (initial.steps script).2

end Tree

end AdaStubs
