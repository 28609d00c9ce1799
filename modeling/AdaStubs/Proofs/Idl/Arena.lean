import AdaStubs.Idl.Build

/-!
# Well-formed trees

What holds of every tree that a list of steps builds, whether its steps were accepted or refused: each
node but the root stands in a scope that may hold it, and the lists of a scope name exactly the nodes
that stand in it, each once and in order of creation. Types are never looked at: a tree is well formed
whatever its nodes refer to.
-/

namespace AdaStubs

/-- Types that are written without a declaration of their own. -/
def Kind.isAnonymous : Kind → Bool
  | .sequence _ _ | .string _ _ | .fixed _ _ | .array _ _ => true
  | _ => false

/-- Kinds of nodes that have a name and a declaration of their own. -/
def Kind.isDeclared : Kind → Bool
  | .interface _ | .struct | .exception | .union _ | .enum | .typedef _ | .constant _ _ | .attribute _ _
  | .operation _ _ _ => true
  | _ => false

namespace Tree

/-- Where a node of a tree may stand. -/
inductive Placed (t : Tree) (id : Nat) (node : Node) : Prop
  | root (first : id = root) (nameless : node.name = "") (top : node.scope = none)
      (kind : node.kind = .module)
  | primitive (inside : node.scope = some root) (kind : node.kind.isPrimitive = true)
  | member (scope : Nat) (outer : Node) (inside : node.scope = some scope)
      (found : t.node? scope = some outer) (held : outer.kind.mayHold node.kind = true)
      (named : node.name ≠ "") (listed : id ∈ outer.members)
  | anonymous (scope : Nat) (outer : Node) (inside : node.scope = some scope)
      (found : t.node? scope = some outer) (held : outer.kind.isScope = true)
      (kind : node.kind.isAnonymous = true) (nameless : node.name = "") (listed : id ∈ outer.anonymous)

/-- The arena invariant. -/
structure WellFormed (t : Tree) : Prop where
  placed : ∀ {id node}, t.node? id = some node → t.Placed id node
  members_inside : ∀ {id node}, t.node? id = some node → ∀ {member}, member ∈ node.members →
    ∃ inner, t.node? member = some inner ∧ inner.scope = some id ∧ node.kind.mayHold inner.kind = true
  anonymous_inside : ∀ {id node}, t.node? id = some node → ∀ {type}, type ∈ node.anonymous →
    ∃ inner, t.node? type = some inner ∧ inner.scope = some id ∧ inner.kind.isAnonymous = true
  members_sorted : ∀ {id node}, t.node? id = some node → node.members.Pairwise (· < ·)
  anonymous_sorted : ∀ {id node}, t.node? id = some node → node.anonymous.Pairwise (· < ·)
  primitive_once : ∀ {id other p}, t.kind? id = some (.primitive p) →
    t.kind? other = some (.primitive p) → id = other

end Tree

theorem Kind.isScope_of_mayHold {outer inner : Kind} (held : outer.mayHold inner = true) :
    outer.isScope = true := by
  cases inner <;> cases outer <;> simp_all [Kind.mayHold, Kind.isScope, Kind.isUnit, Kind.holdsTypes]

theorem Kind.isAnonymous_eq_false_of_isUnit {kind : Kind} (unit : kind.isUnit = true) : kind.isAnonymous = false := by
  cases kind with
  | module | interface => rfl
  | _ => cases unit

theorem Kind.isDeclared_of_held {outer inner : Kind} (held : outer.mayHold inner = true)
    (unit : outer.isUnit = true) (own : inner.isUnit = false) : inner.isDeclared = true := by
  cases inner with
  | branch | enumerator | field | argument => cases outer <;> cases unit <;> cases held
  | module | interface => cases own
  | sequence | string | fixed | array | primitive => cases held
  | _ => rfl

/-- What stands in a declaration without a package of its own, and is declared itself, is a type. -/
theorem Kind.isType_of_held {outer inner : Kind} (held : outer.mayHold inner = true)
    (record : outer.isUnit = false) (declared : inner.isDeclared = true) :
    inner.isType = true ∧ outer.isDeclared = true ∧ outer.holdsTypes = true := by
  cases inner with
  | struct | union | enum | typedef =>
    cases outer <;> cases record <;> cases held <;> exact ⟨rfl, rfl, rfl⟩
  | branch | enumerator | field | argument | sequence | string | fixed | array | primitive | module =>
    cases declared
  | _ => cases outer <;> cases record <;> cases held

theorem Kind.isDeclared_of_isType {outer inner : Kind} (held : outer.mayHold inner = true)
    (record : outer.isUnit = false) (isType : inner.isType = true) :
    inner.isDeclared = true ∧ inner.isUnit = false := by
  cases inner with
  | struct | exception | union | enum | typedef => exact ⟨rfl, rfl⟩
  | interface => cases outer <;> cases record <;> cases held
  | sequence | string | fixed | array | primitive => cases held
  | _ => cases isType

namespace Tree

/-! ## Adding a node -/

section Add

variable {t : Tree} {listing : Listing} {scope : Nat} {inside : scope < t.size} {name : String}
  {kind : Kind}

theorem node?_add (id : Nat) :
    (t.add listing scope inside name kind).node? id =
      if id = t.size then some ⟨name, some scope, kind, [], []⟩
      else if scope = id then (t.node? id).map (listing.enter t.size) else t.node? id :=
  t.getElem?_grown listing scope name kind id

theorem lt_size_of_node? {id : Nat} {node : Node} (found : t.node? id = some node) : id < t.size :=
  lt_of_getElem? found

theorem node?_add_new :
    (t.add listing scope inside name kind).node? t.size = some ⟨name, some scope, kind, [], []⟩ := by
  rw [node?_add, if_pos rfl]

theorem size_add : (t.add listing scope inside name kind).size = t.size + 1 := by
  simp [add, size, grown]

/-- What becomes of a node when another joins `scope`. -/
def joined (t : Tree) (listing : Listing) (scope id : Nat) (node : Node) : Node :=
  if scope = id then listing.enter t.size node else node

theorem node?_add_old {id : Nat} {node : Node} (found : t.node? id = some node) :
    (t.add listing scope inside name kind).node? id = some (t.joined listing scope id node) := by
  have old : id ≠ t.size := Nat.ne_of_lt (lt_size_of_node? found)
  rw [node?_add, if_neg old, found]
  unfold joined
  split <;> rfl

theorem node?_add_cases {id : Nat} {node : Node}
    (found : (t.add listing scope inside name kind).node? id = some node) :
    (id = t.size ∧ node = ⟨name, some scope, kind, [], []⟩) ∨
      ∃ old, t.node? id = some old ∧ node = t.joined listing scope id old := by
  rw [node?_add] at found
  by_cases new : id = t.size
  · rw [if_pos new] at found
    exact .inl ⟨new, (Option.some.inj found).symm⟩
  · rw [if_neg new] at found
    split at found
    · next same =>
      obtain ⟨old, before, rfl⟩ := Option.map_eq_some_iff.mp found
      exact .inr ⟨old, before, (if_pos same).symm⟩
    · next other => exact .inr ⟨node, found, (if_neg other).symm⟩

@[simp] theorem joined_name (id : Nat) (node : Node) :
    (t.joined listing scope id node).name = node.name := by
  unfold joined
  split
  · cases listing <;> rfl
  · rfl

@[simp] theorem joined_scope (id : Nat) (node : Node) :
    (t.joined listing scope id node).scope = node.scope := by
  unfold joined
  split
  · exact listing.enter_scope _ _
  · rfl

@[simp] theorem joined_kind (id : Nat) (node : Node) :
    (t.joined listing scope id node).kind = node.kind := by
  unfold joined
  split
  · cases listing <;> rfl
  · rfl

theorem joined_members (id : Nat) (node : Node) :
    (t.joined listing scope id node).members =
      if scope = id ∧ listing = .member then node.members ++ [t.size] else node.members := by
  unfold joined
  by_cases same : scope = id <;> cases listing <;> simp [same, Listing.enter]

theorem joined_anonymous (id : Nat) (node : Node) :
    (t.joined listing scope id node).anonymous =
      if scope = id ∧ listing = .anonymous then node.anonymous ++ [t.size] else node.anonymous := by
  unfold joined
  by_cases same : scope = id <;> cases listing <;> simp [same, Listing.enter]

theorem kind?_add_old {id : Nat} (old : id ≠ t.size) :
    (t.add listing scope inside name kind).kind? id = t.kind? id := by
  unfold kind?
  rw [node?_add, if_neg old]
  split
  · rw [Option.map_map]
    cases listing <;> rfl
  · rfl

theorem kind?_add_new : (t.add listing scope inside name kind).kind? t.size = some kind := by
  unfold kind?
  rw [node?_add_new]
  rfl

theorem Placed.add {id : Nat} {node : Node} (placed : t.Placed id node) :
    (t.add listing scope inside name kind).Placed id (t.joined listing scope id node) := by
  cases placed with
  | root first nameless top kind =>
    exact .root first (by simpa using nameless) (by simpa using top) (by simpa using kind)
  | primitive inside kind => exact .primitive (by simpa using inside) (by simpa using kind)
  | member outside outer within found held named listed =>
    refine .member outside _ (by simpa using within) (node?_add_old found) (by simpa using held)
      (by simpa using named) ?_
    rw [joined_members]
    split
    · exact List.mem_append_left _ listed
    · exact listed
  | anonymous outside outer within found held kind nameless listed =>
    refine .anonymous outside _ (by simpa using within) (node?_add_old found) (by simpa using held)
      (by simpa using kind) (by simpa using nameless) ?_
    rw [joined_anonymous]
    split
    · exact List.mem_append_left _ listed
    · exact listed

/-- Which list a new node of a kind belongs to. -/
inductive Admissible (t : Tree) (scope : Nat) (outer : Node) (name : String) (kind : Kind) :
    Listing → Prop
  | member (held : outer.kind.mayHold kind = true) (named : name ≠ "") :
      Admissible t scope outer name kind .member
  | anonymous (held : outer.kind.isScope = true) (anonymous : kind.isAnonymous = true)
      (nameless : name = "") : Admissible t scope outer name kind .anonymous
  | unlisted (p : Primitive) (primitive : kind = .primitive p) (first : scope = root)
      (new : ∀ id, t.kind? id ≠ some (.primitive p)) : Admissible t scope outer name kind .unlisted

theorem Admissible.placed {outer : Node} (admissible : Admissible t scope outer name kind listing)
    (found : t.node? scope = some outer) :
    (t.add listing scope inside name kind).Placed t.size ⟨name, some scope, kind, [], []⟩ := by
  have after : (t.add listing scope inside name kind).node? scope = some _ := node?_add_old found
  cases admissible with
  | member held named =>
    exact .member scope _ rfl after (by simpa using held) named (by simp [joined_members])
  | anonymous held anonymous nameless =>
    exact .anonymous scope _ rfl after (by simpa using held) anonymous nameless
      (by simp [joined_anonymous])
  | unlisted p primitive first new =>
    subst primitive first
    exact .primitive rfl rfl

theorem sorted_append_size {list : List Nat} (sorted : list.Pairwise (· < ·))
    (known : ∀ id ∈ list, ∃ node, t.node? id = some node) : (list ++ [t.size]).Pairwise (· < ·) := by
  refine List.pairwise_append.mpr ⟨sorted, List.pairwise_singleton _ _, ?_⟩
  intro id listed last isLast
  obtain ⟨node, found⟩ := known id listed
  rw [List.mem_singleton.mp isLast]
  exact lt_size_of_node? found

theorem WellFormed.add (wf : t.WellFormed) {outer : Node} (found : t.node? scope = some outer)
    (admissible : Admissible t scope outer name kind listing) :
    (t.add listing scope inside name kind).WellFormed where
  placed := by
    intro id node present
    rcases node?_add_cases present with ⟨rfl, rfl⟩ | ⟨old, before, rfl⟩
    · exact admissible.placed found
    · exact (wf.placed before).add
  members_inside := by
    intro id node present member listed
    rcases node?_add_cases present with ⟨rfl, rfl⟩ | ⟨old, before, rfl⟩
    · cases listed
    · have kept : member ∈ old.members → ∃ inner,
          (t.add listing scope inside name kind).node? member = some inner ∧ inner.scope = some id ∧
            (t.joined listing scope id old).kind.mayHold inner.kind = true := by
        intro earlier
        obtain ⟨inner, known, within, held⟩ := wf.members_inside before earlier
        exact ⟨_, node?_add_old known, by simpa using within, by simpa using held⟩
      rw [joined_members] at listed
      split at listed
      · next new =>
        obtain ⟨rfl, rfl⟩ := new
        rcases List.mem_append.mp listed with earlier | last
        · exact kept earlier
        · rw [List.mem_singleton.mp last]
          cases found.symm.trans before
          cases admissible with
          | member held named => exact ⟨_, node?_add_new, rfl, by simpa using held⟩
      · exact kept listed
  anonymous_inside := by
    intro id node present type listed
    rcases node?_add_cases present with ⟨rfl, rfl⟩ | ⟨old, before, rfl⟩
    · cases listed
    · have kept : type ∈ old.anonymous → ∃ inner,
          (t.add listing scope inside name kind).node? type = some inner ∧ inner.scope = some id ∧
            inner.kind.isAnonymous = true := by
        intro earlier
        obtain ⟨inner, known, within, anonymous⟩ := wf.anonymous_inside before earlier
        exact ⟨_, node?_add_old known, by simpa using within, by simpa using anonymous⟩
      rw [joined_anonymous] at listed
      split at listed
      · next new =>
        obtain ⟨rfl, rfl⟩ := new
        rcases List.mem_append.mp listed with earlier | last
        · exact kept earlier
        · rw [List.mem_singleton.mp last]
          cases admissible with
          | anonymous held anonymous nameless => exact ⟨_, node?_add_new, rfl, anonymous⟩
      · exact kept listed
  members_sorted := by
    intro id node present
    rcases node?_add_cases present with ⟨rfl, rfl⟩ | ⟨old, before, rfl⟩
    · exact List.Pairwise.nil
    · rw [joined_members]
      split
      · refine sorted_append_size (wf.members_sorted before) fun member listed => ?_
        obtain ⟨inner, known, -⟩ := wf.members_inside before listed
        exact ⟨inner, known⟩
      · exact wf.members_sorted before
  anonymous_sorted := by
    intro id node present
    rcases node?_add_cases present with ⟨rfl, rfl⟩ | ⟨old, before, rfl⟩
    · exact List.Pairwise.nil
    · rw [joined_anonymous]
      split
      · refine sorted_append_size (wf.anonymous_sorted before) fun type listed => ?_
        obtain ⟨inner, known, -⟩ := wf.anonymous_inside before listed
        exact ⟨inner, known⟩
      · exact wf.anonymous_sorted before
  primitive_once := by
    -- A primitive is only added when the tree has none of its kind, so an old and a new one never meet.
    have fresh : ∀ {id p}, t.kind? id = some (.primitive p) → kind ≠ .primitive p := by
      rintro id p before rfl
      cases admissible with
      | member held named => cases outer; simp [Kind.mayHold] at held
      | anonymous held anonymous nameless => cases anonymous
      | unlisted q primitive first new =>
        cases primitive
        exact new id before
    intro id other p first second
    by_cases newFirst : id = t.size <;> by_cases newSecond : other = t.size
    · rw [newFirst, newSecond]
    · subst newFirst
      rw [kind?_add_new] at first
      rw [kind?_add_old newSecond] at second
      exact absurd (Option.some.inj first) (fresh second)
    · subst newSecond
      rw [kind?_add_new] at second
      rw [kind?_add_old newFirst] at first
      exact absurd (Option.some.inj second) (fresh first)
    · rw [kind?_add_old newFirst] at first
      rw [kind?_add_old newSecond] at second
      exact wf.primitive_once first second

end Add

/-! ## Steps -/

theorem scopeFor_ok {t : Tree} {scope : Nat} {outer : { n : Node // t.nodes[scope]? = some n }}
    (accepted : t.scopeFor scope = .ok outer) : outer.1.kind.isScope = true := by
  revert accepted outer
  unfold scopeFor
  generalize t.nodes[scope]? = looked
  intro outer accepted
  cases looked with
  | none => cases accepted
  | some node =>
    dsimp only at accepted
    split at accepted
    · next isScope =>
      cases accepted
      exact isScope
    · cases accepted

theorem declare_ok {t grown : Tree} {scope : Nat} {name : String} {kind : Kind}
    (accepted : t.declare scope name kind = .ok grown) :
    ∃ outer inside, t.node? scope = some outer ∧ Admissible t scope outer name kind .member ∧
      grown = t.add .member scope inside name kind := by
  unfold declare at accepted
  cases hosted : t.scopeFor scope with
  | error e => simp [hosted, bind, Except.bind] at accepted
  | ok outer =>
    simp only [hosted, bind, Except.bind] at accepted
    split at accepted
    · cases accepted
    · next held =>
      split at accepted
      · cases accepted
      · next named =>
        cases accepted
        refine ⟨outer.1, _, outer.2, .member (by simpa using held) ?_, rfl⟩
        simpa using named

theorem declareAnonymous_ok {t grown : Tree} {scope : Nat} {kind : Kind} (anonymous : kind.isAnonymous = true)
    (accepted : t.declareAnonymous scope kind = .ok grown) :
    ∃ outer inside, t.node? scope = some outer ∧ Admissible t scope outer "" kind .anonymous ∧
      grown = t.add .anonymous scope inside "" kind := by
  unfold declareAnonymous at accepted
  cases hosted : t.scopeFor scope with
  | error e => simp [hosted, bind, Except.bind] at accepted
  | ok outer =>
    simp only [hosted, bind, Except.bind] at accepted
    cases accepted
    exact ⟨outer.1, _, outer.2, .anonymous (scopeFor_ok hosted) anonymous rfl, rfl⟩

theorem primitive?_eq_none {t : Tree} {p : Primitive} (absent : t.primitive? p = none) (id : Nat) :
    t.kind? id ≠ some (.primitive p) := by
  intro found
  have known : id < t.size := by
    obtain ⟨node, present, -⟩ := Option.map_eq_some_iff.mp found
    exact lt_size_of_node? present
  have := List.find?_eq_none.mp absent id (List.mem_range.mpr known)
  exact this (by simpa using found)

theorem exists_root (t : Tree) : ∃ node, t.node? root = some node :=
  ⟨_, Array.getElem?_eq_getElem t.root_lt⟩

theorem WellFormed.initial : initial.WellFormed where
  placed := by
    intro id node found
    cases id <;> simp [Tree.initial, node?] at found
    subst found
    exact .root rfl rfl rfl rfl
  members_inside := by
    intro id node found member listed
    cases id <;> simp [Tree.initial, node?] at found
    subst found
    cases listed
  anonymous_inside := by
    intro id node found type listed
    cases id <;> simp [Tree.initial, node?] at found
    subst found
    cases listed
  members_sorted := by
    intro id node found
    cases id <;> simp [Tree.initial, node?] at found
    subst found
    exact .nil
  anonymous_sorted := by
    intro id node found
    cases id <;> simp [Tree.initial, node?] at found
    subst found
    exact .nil
  primitive_once := by
    intro id other p found
    cases id <;> simp [Tree.initial, kind?, node?] at found

theorem WellFormed.declare {t grown : Tree} (wf : t.WellFormed) {scope : Nat} {name : String} {kind : Kind}
    (accepted : t.declare scope name kind = .ok grown) : grown.WellFormed := by
  obtain ⟨outer, inside, found, admissible, rfl⟩ := declare_ok accepted
  exact wf.add found admissible

theorem WellFormed.settle {t : Tree} (wf : t.WellFormed) {result : Except BuildError Tree}
    (kept : ∀ {grown}, result = .ok grown → grown.WellFormed) : (t.settle result).2.WellFormed := by
  cases result with
  | ok grown => exact kept rfl
  | error e => exact wf

theorem WellFormed.declareAll {t : Tree} (wf : t.WellFormed) (scope : Nat) (kind : Kind)
    (names : List String) : (t.declareAll scope kind names).2.WellFormed := by
  induction names generalizing t with
  | nil => exact wf
  | cons name names ih =>
    unfold Tree.declareAll
    cases accepted : t.declare scope name kind with
    | error e => exact wf
    | ok grown => exact ih (wf.declare accepted)

theorem WellFormed.addPrimitive {t : Tree} (wf : t.WellFormed) (p : Primitive) :
    (t.addPrimitive p).2.WellFormed := by
  unfold Tree.addPrimitive
  cases known : t.primitive? p with
  | some id => exact wf
  | none =>
    obtain ⟨top, found⟩ := t.exists_root
    have kept : (t.add .unlisted root t.root_lt p.idlName (.primitive p)).WellFormed :=
      wf.add found (.unlisted p rfl rfl (primitive?_eq_none known))
    exact kept

theorem WellFormed.addEnum {t : Tree} (wf : t.WellFormed) (scope : Nat) (name : String)
    (enumerators : List String) : (t.addEnum scope name enumerators).2.WellFormed := by
  unfold Tree.addEnum
  cases accepted : t.declare scope name .enum with
  | error e => exact wf
  | ok grown =>
    have kept := (wf.declare accepted).declareAll t.size .enumerator enumerators
    dsimp only
    split
    · next result => rwa [result] at kept
    · next result => rwa [result] at kept

theorem WellFormed.step {t : Tree} (wf : t.WellFormed) (s : Step) : (t.step s).2.WellFormed := by
  have anonymous : ∀ {scope kind}, kind.isAnonymous = true →
      (t.settle (t.declareAnonymous scope kind)).2.WellFormed := by
    intro scope kind isAnonymous
    refine wf.settle fun accepted => ?_
    obtain ⟨outer, inside, found, admissible, rfl⟩ := declareAnonymous_ok isAnonymous accepted
    exact wf.add found admissible
  cases s with
  | primitive p => exact wf.addPrimitive p
  | enum scope name enumerators => exact wf.addEnum scope name enumerators
  | array | sequence | string | fixed => exact anonymous rfl
  | _ => exact wf.settle wf.declare

theorem WellFormed.steps {t : Tree} (wf : t.WellFormed) (script : List Step) :
    (t.steps script).2.WellFormed := by
  induction script generalizing t with
  | nil => exact wf
  | cons s rest ih => exact ih (wf.step s)

theorem ofSteps_wellFormed (script : List Step) : (ofSteps script).WellFormed :=
  WellFormed.initial.steps script

end Tree

end AdaStubs
