import AdaStubs.Idl.Node

/-!
# Declaration trees

The nodes of a tree stand in an array in order of creation, the root module first. A scope is created
before what stands in it, so a walk towards the root goes to smaller places and a walk into the members
to greater ones: both end.
-/

namespace AdaStubs

structure Tree where
  nodes : Array Node
  root_lt : 0 < nodes.size
  scope_lt : ∀ {id : Nat} {node : Node}, nodes[id]? = some node →
    ∀ {scope : Nat}, node.scope = some scope → scope < id
  lt_member : ∀ {id : Nat} {node : Node}, nodes[id]? = some node →
    ∀ {member : Nat}, member ∈ node.members → id < member

namespace Tree

def root : Nat := 0

def size (t : Tree) : Nat := t.nodes.size

def node? (t : Tree) (id : Nat) : Option Node := t.nodes[id]?

def ids (t : Tree) : List Nat := List.range t.size

/-- A tree that holds nothing but its root. -/
def isEmpty (t : Tree) : Bool := t.size ≤ 1

def kind? (t : Tree) (id : Nat) : Option Kind := (t.node? id).map (·.kind)

def name (t : Tree) (id : Nat) : String := ((t.node? id).map (·.name)).getD ""

def members (t : Tree) (id : Nat) : List Nat := ((t.node? id).map (·.members)).getD []

def anonymous (t : Tree) (id : Nat) : List Nat := ((t.node? id).map (·.anonymous)).getD []

/-- Whether `id` is a node whose kind satisfies `p`. -/
def hasKind (t : Tree) (p : Kind → Bool) (id : Nat) : Bool := (t.kind? id).any p

def primitive? (t : Tree) (p : Primitive) : Option Nat :=
  t.ids.find? fun id => t.kind? id == some (.primitive p)

/-! ## Towards the root -/

/-- The scopes around `id`, the innermost first. -/
def ancestors (t : Tree) (id : Nat) : List Nat :=
  match _found : t.nodes[id]? with
  | none => []
  | some node =>
    match _inside : node.scope with
    | none => []
    | some scope => scope :: t.ancestors scope
termination_by id
decreasing_by exact t.scope_lt _found _inside

/-- The nearest module or interface around `id`. -/
def enclosingUnit (t : Tree) (id : Nat) : Nat :=
  ((t.ancestors id).find? (t.hasKind Kind.isUnit)).getD root

theorem lt_of_mem_ancestors (t : Tree) {id scope : Nat} (above : scope ∈ t.ancestors id) : scope < id := by
  fun_induction ancestors t id with
  | case1 id absent => cases above
  | case2 id node found top => cases above
  | case3 id node found outer inside ih =>
    have nearer := t.scope_lt found inside
    rcases List.mem_cons.mp above with rfl | further
    · exact nearer
    · exact Nat.lt_trans (ih further) nearer

theorem enclosingUnit_lt (t : Tree) {id : Nat} (inner : id ≠ root) : t.enclosingUnit id < id := by
  unfold enclosingUnit
  cases found : (t.ancestors id).find? (t.hasKind Kind.isUnit) with
  | none => exact Nat.pos_of_ne_zero inner
  | some unit => exact t.lt_of_mem_ancestors (List.mem_of_find?_eq_some found)

/-- The unit whose Ada package declares `id`; a unit is its own package. -/
def packageOf (t : Tree) (id : Nat) : Nat :=
  if id == root || t.hasKind Kind.isUnit id then id else t.enclosingUnit id

/-- The names on the way from the root to `id`. -/
def scopedName (t : Tree) (id : Nat) : List String :=
  let outer := ((t.ancestors id).filter (· != root)).reverse
  (if id == root then outer else outer ++ [id]).map t.name

/-! ## Into the members -/

theorem sub_lt_of_member (t : Tree) {id member : Nat} {node : Node}
    (found : t.nodes[id]? = some node) (listed : member ∈ node.members) :
    t.nodes.size - member < t.nodes.size - id := by
  have deeper := t.lt_member found listed
  have inside := (Array.getElem?_eq_some_iff.mp found).1
  omega

/-- Everything declared in `id` without leaving its package, each scope before its members. -/
def contents (t : Tree) (id : Nat) : List Nat :=
  match _found : t.nodes[id]? with
  | none => []
  | some node =>
    node.members.attach.flatMap fun ⟨member, _listed⟩ =>
      member :: if t.hasKind Kind.isInnerScope member then t.contents member else []
termination_by t.nodes.size - id
decreasing_by exact t.sub_lt_of_member _found _listed

/-- `id` and the units in it, each before those it holds. -/
def units (t : Tree) (id : Nat) : List Nat :=
  match _found : t.nodes[id]? with
  | none => [id]
  | some node =>
    id :: node.members.attach.flatMap fun ⟨member, _listed⟩ =>
      if t.hasKind Kind.isUnit member then t.units member else []
termination_by t.nodes.size - id
decreasing_by exact t.sub_lt_of_member _found _listed

/-- `id` after the types nested in it: an Ada record cannot declare the types of its components. -/
def innerFirst (t : Tree) (id : Nat) : List Nat :=
  match _found : t.nodes[id]? with
  | none => [id]
  | some node =>
    let nested := node.members.attach.flatMap fun ⟨member, _listed⟩ =>
      if t.hasKind Kind.isType member then t.innerFirst member else []
    if node.kind matches .struct | .exception | .union _ then nested ++ [id] else [id]
termination_by t.nodes.size - id
decreasing_by exact t.sub_lt_of_member _found _listed

end Tree

end AdaStubs
