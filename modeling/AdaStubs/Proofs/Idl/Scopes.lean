import AdaStubs.Naming.Namespace
import AdaStubs.Proofs.Idl.Arena

/-!
# Walks through a tree

The walk towards the root and the walks into the members, related to each other: what stands in a package
is what its scopes list, and the package around a node is where the walk into the members meets it.
-/

namespace AdaStubs.Tree

variable {t : Tree}

/-! ## Look-ups -/

theorem members_eq {id : Nat} {node : Node} (found : t.node? id = some node) :
    t.members id = node.members := by
  simp [members, found]

theorem anonymous_eq {id : Nat} {node : Node} (found : t.node? id = some node) :
    t.anonymous id = node.anonymous := by
  simp [anonymous, found]

theorem kind?_eq {id : Nat} {node : Node} (found : t.node? id = some node) :
    t.kind? id = some node.kind := by
  simp [kind?, found]

theorem hasKind_eq {id : Nat} {node : Node} (found : t.node? id = some node) (p : Kind → Bool) :
    t.hasKind p id = p node.kind := by
  simp [hasKind, kind?_eq found]

theorem mem_ids_of_kind? {id : Nat} {kind : Kind} (found : t.kind? id = some kind) : id ∈ t.ids := by
  obtain ⟨node, lookup, -⟩ := Option.map_eq_some_iff.mp found
  exact List.mem_range.mpr (lt_size_of_node? lookup)

theorem exists_of_mem_ids {id : Nat} (listed : id ∈ t.ids) : ∃ kind, t.kind? id = some kind := by
  have present : id < t.nodes.size := List.mem_range.mp listed
  exact ⟨_, kind?_eq (Array.getElem?_eq_getElem present)⟩

theorem exists_of_hasKind {p : Kind → Bool} {id : Nat} (holds : t.hasKind p id = true) :
    ∃ node, t.node? id = some node ∧ p node.kind = true := by
  cases found : t.node? id with
  | none => simp [hasKind, kind?, found] at holds
  | some node => exact ⟨node, rfl, by rwa [hasKind_eq found] at holds⟩

theorem mem_ids_of_hasKind {p : Kind → Bool} {id : Nat} (holds : t.hasKind p id = true) : id ∈ t.ids := by
  obtain ⟨node, found, -⟩ := exists_of_hasKind holds
  exact mem_ids_of_kind? (kind?_eq found)

theorem exists_of_mem_members {id member : Nat} (listed : member ∈ t.members id) :
    ∃ node, t.node? id = some node ∧ member ∈ node.members := by
  cases found : t.node? id with
  | none => simp [members, found] at listed
  | some node => exact ⟨node, rfl, by rwa [members_eq found] at listed⟩

theorem exists_of_mem_anonymous {id type : Nat} (listed : type ∈ t.anonymous id) :
    ∃ node, t.node? id = some node ∧ type ∈ node.anonymous := by
  cases found : t.node? id with
  | none => simp [anonymous, found] at listed
  | some node => exact ⟨node, rfl, by rwa [anonymous_eq found] at listed⟩

/-! ## Unfolding the walks -/

theorem ancestors_of_scope {id scope : Nat} {node : Node} (found : t.node? id = some node)
    (inside : node.scope = some scope) : t.ancestors id = scope :: t.ancestors scope := by
  rw [ancestors]
  split
  · next absent => cases absent.symm.trans found
  · next other present =>
    cases present.symm.trans found
    split
    · next top => cases top.symm.trans inside
    · next outer within =>
      cases within.symm.trans inside
      rfl

theorem contents_eq (id : Nat) :
    t.contents id = (t.members id).flatMap fun member =>
      member :: if t.hasKind Kind.isInnerScope member then t.contents member else [] := by
  rw [contents]
  split
  · next absent => simp [members, node?, absent]
  · next node found =>
    rw [members_eq found, List.flatMap_subtype fun _ _ => rfl, List.unattach_attach]

theorem units_eq {id : Nat} :
    t.units id = id :: (t.members id).flatMap fun member =>
      if t.hasKind Kind.isUnit member then t.units member else [] := by
  rw [units]
  split
  · next absent => simp [members, node?, absent]
  · next node found =>
    rw [members_eq found, List.flatMap_subtype fun _ _ => rfl, List.unattach_attach]
    rfl

theorem innerFirst_eq (id : Nat) :
    t.innerFirst id = (if t.hasKind Kind.holdsTypes id && !t.hasKind Kind.isUnit id then
      (t.members id).flatMap fun member => if t.hasKind Kind.isType member then t.innerFirst member else []
      else []) ++ [id] := by
  rw [innerFirst]
  split
  · next absent => simp [hasKind, kind?, node?, absent]
  · next node found =>
    rw [hasKind_eq found, hasKind_eq found, members_eq found, List.flatMap_subtype fun _ _ => rfl,
      List.unattach_attach]
    cases node.kind <;> rfl

/-! ## The package around a node -/

theorem WellFormed.root_node (wf : t.WellFormed) :
    ∃ node, t.node? root = some node ∧ node.scope = none ∧ node.kind = .module := by
  obtain ⟨node, found⟩ := t.exists_root
  cases wf.placed found with
  | root first nameless top kind => exact ⟨node, found, top, kind⟩
  | primitive inside | member _ _ inside | anonymous _ _ inside =>
    exact absurd (t.scope_lt found inside) (Nat.not_lt_zero _)

theorem WellFormed.isUnit_root (wf : t.WellFormed) : t.hasKind Kind.isUnit root = true := by
  obtain ⟨node, found, -, kind⟩ := wf.root_node
  rw [hasKind_eq found, kind]
  rfl

theorem WellFormed.opensPackage_eq (wf : t.WellFormed) (id : Nat) :
    t.opensPackage id = t.hasKind Kind.isUnit id := by
  unfold opensPackage
  by_cases top : id = root
  · rw [top, wf.isUnit_root]
    rfl
  · simp [top]

theorem WellFormed.packageOf_eq (wf : t.WellFormed) (id : Nat) :
    t.packageOf id = if t.hasKind Kind.isUnit id then id else t.enclosingUnit id := by
  unfold packageOf
  by_cases top : id = root
  · rw [top, wf.isUnit_root]
    rfl
  · simp [top]

theorem WellFormed.packageOf_unit (wf : t.WellFormed) {id : Nat} (unit : t.hasKind Kind.isUnit id = true) :
    t.packageOf id = id := by
  rw [wf.packageOf_eq, if_pos unit]

theorem WellFormed.enclosingUnit_of_scope (wf : t.WellFormed) {id scope : Nat} {node : Node}
    (found : t.node? id = some node) (inside : node.scope = some scope) :
    t.enclosingUnit id = t.packageOf scope := by
  unfold enclosingUnit
  rw [ancestors_of_scope found inside, wf.packageOf_eq, List.find?_cons]
  cases t.hasKind Kind.isUnit scope <;> rfl

theorem WellFormed.isUnit_enclosingUnit (wf : t.WellFormed) (id : Nat) :
    t.hasKind Kind.isUnit (t.enclosingUnit id) = true := by
  unfold enclosingUnit
  cases found : (t.ancestors id).find? (t.hasKind Kind.isUnit) with
  | none => exact wf.isUnit_root
  | some unit => exact List.find?_some found

theorem WellFormed.isUnit_packageOf (wf : t.WellFormed) (id : Nat) :
    t.hasKind Kind.isUnit (t.packageOf id) = true := by
  rw [wf.packageOf_eq]
  split
  · assumption
  · exact wf.isUnit_enclosingUnit id

/-! ## Inside a package -/

theorem scope_of_mem_ancestors {id scope : Nat} (above : scope ∈ t.ancestors id) :
    ∃ node outer, t.node? id = some node ∧ node.scope = some outer ∧
      (scope = outer ∨ scope ∈ t.ancestors outer) := by
  rw [ancestors] at above
  split at above
  · cases above
  · next node found =>
    split at above
    · cases above
    · next outer inside => exact ⟨node, outer, found, inside, List.mem_cons.mp above⟩

/-- A scope around a node is of the same package, or around that package. -/
theorem WellFormed.packageOf_or_above (wf : t.WellFormed) {id scope : Nat} (above : scope ∈ t.ancestors id) :
    t.packageOf scope = t.packageOf id ∨ scope ∈ t.ancestors (t.packageOf id) := by
  induction id using Nat.strongRecOn with
  | ind id ih =>
    cases unit : t.hasKind Kind.isUnit id with
    | true =>
      rw [wf.packageOf_unit unit]
      exact .inr above
    | false =>
      obtain ⟨node, outer, found, inside, nearest⟩ := scope_of_mem_ancestors above
      have package : t.packageOf id = t.packageOf outer := by
        rw [wf.packageOf_eq id, unit, if_neg (by simp), wf.enclosingUnit_of_scope found inside]
      rw [package]
      rcases nearest with rfl | further
      · exact .inl rfl
      · exact ih outer (t.scope_lt found inside) further

theorem WellFormed.member_inside (wf : t.WellFormed) {scope id : Nat} (listed : id ∈ t.members scope) :
    ∃ outer node, t.node? scope = some outer ∧ t.node? id = some node ∧ node.scope = some scope ∧
      outer.kind.mayHold node.kind = true := by
  obtain ⟨outer, found, among⟩ := exists_of_mem_members listed
  obtain ⟨node, present, inside, held⟩ := wf.members_inside found among
  exact ⟨outer, node, found, present, inside, held⟩

theorem WellFormed.anonymous_within (wf : t.WellFormed) {scope id : Nat}
    (listed : id ∈ t.anonymous scope) :
    ∃ node, t.node? id = some node ∧ node.scope = some scope ∧ node.kind.isAnonymous = true := by
  obtain ⟨outer, found, among⟩ := exists_of_mem_anonymous listed
  exact wf.anonymous_inside found among

/-- What holds of a node if it holds of its members holds of all. -/
theorem members_induction {P : Nat → Prop} (step : ∀ id, (∀ member ∈ t.members id, P member) → P id)
    (id : Nat) : P id := by
  refine step id fun member listed => ?_
  obtain ⟨node, found, among⟩ := exists_of_mem_members listed
  have deeper := t.sub_lt_of_member found among
  exact members_induction step member
termination_by t.nodes.size - id

theorem mem_contents {id inner : Nat} :
    inner ∈ t.contents id ↔ ∃ member ∈ t.members id,
      inner = member ∨ t.hasKind Kind.isInnerScope member = true ∧ inner ∈ t.contents member := by
  rw [contents_eq]
  simp only [List.mem_flatMap, List.mem_cons]
  refine exists_congr fun member => and_congr_right fun _ => or_congr_right ?_
  split <;> simp [*]

theorem mem_contents_of_member {id member : Nat} (listed : member ∈ t.members id) :
    member ∈ t.contents id :=
  mem_contents.mpr ⟨member, listed, .inl rfl⟩

theorem mem_contents_trans {id middle inner : Nat} (outer : middle ∈ t.contents id)
    (scope : t.hasKind Kind.isInnerScope middle = true) (deeper : inner ∈ t.contents middle) :
    inner ∈ t.contents id := by
  induction id using t.members_induction with
  | step id ih =>
    obtain ⟨member, listed, same | ⟨isInner, further⟩⟩ := mem_contents.mp outer
    · subst same
      exact mem_contents.mpr ⟨_, listed, .inr ⟨scope, deeper⟩⟩
    · exact mem_contents.mpr ⟨member, listed, .inr ⟨isInner, ih member listed further⟩⟩

/-- The scope that lists a member is a package, or stands in one as a member itself. -/
theorem WellFormed.unit_or_member (wf : t.WellFormed) {scope : Nat} {outer : Node}
    (found : t.node? scope = some outer) (isScope : outer.kind.isScope = true) :
    t.hasKind Kind.isUnit scope = true ∨ t.hasKind Kind.isInnerScope scope = true ∧
      ∃ above, above < scope ∧ scope ∈ t.members above := by
  cases unit : outer.kind.isUnit with
  | true => exact .inl (by rw [hasKind_eq found, unit])
  | false =>
    refine .inr ⟨by rw [hasKind_eq found, Kind.isInnerScope, isScope, unit]; rfl, ?_⟩
    cases wf.placed found with
    | root first nameless top kind => simp [kind, Kind.isUnit] at unit
    | primitive inside kind => cases shape : outer.kind <;> simp_all [Kind.isPrimitive, Kind.isScope]
    | member above around inside present held named listed =>
      exact ⟨above, t.scope_lt found inside, by rwa [members_eq present]⟩
    | anonymous above around inside present held kind nameless listed =>
      cases shape : outer.kind <;> simp_all [Kind.isAnonymous, Kind.isScope]

theorem WellFormed.packageOf_member (wf : t.WellFormed) {scope id : Nat}
    (listed : id ∈ t.members scope) (inner : t.hasKind Kind.isUnit id = false) :
    t.packageOf id = t.packageOf scope := by
  obtain ⟨outer, node, found, present, inside, held⟩ := wf.member_inside listed
  rw [wf.packageOf_eq, inner, wf.enclosingUnit_of_scope present inside]
  rfl

theorem isUnit_eq_false_of_isInnerScope {id : Nat} (inner : t.hasKind Kind.isInnerScope id = true) :
    t.hasKind Kind.isUnit id = false := by
  obtain ⟨node, found, isInner⟩ := exists_of_hasKind inner
  rw [hasKind_eq found]
  simp only [Kind.isInnerScope, Bool.and_eq_true, Bool.not_eq_true'] at isInner
  exact isInner.2

theorem WellFormed.mem_contents_packageOf (wf : t.WellFormed) {scope id : Nat}
    (listed : id ∈ t.members scope) : id ∈ t.contents (t.packageOf scope) := by
  induction scope using Nat.strongRecOn generalizing id with
  | ind scope ih =>
    obtain ⟨outer, node, found, present, inside, held⟩ := wf.member_inside listed
    rcases wf.unit_or_member found (Kind.isScope_of_mayHold held) with unit | ⟨inner, above, lower, among⟩
    · rw [wf.packageOf_unit unit]
      exact mem_contents_of_member listed
    · rw [wf.packageOf_member among (isUnit_eq_false_of_isInnerScope inner)]
      exact mem_contents_trans (ih above lower among) inner (mem_contents_of_member listed)

theorem WellFormed.enclosingUnit_of_mem_contents (wf : t.WellFormed) {scope id : Nat}
    (listed : id ∈ t.contents scope) : t.enclosingUnit id = t.packageOf scope := by
  induction scope using t.members_induction with
  | step scope ih =>
    obtain ⟨member, among, same | ⟨inner, further⟩⟩ := mem_contents.mp listed
    · subst same
      obtain ⟨outer, node, found, present, inside, held⟩ := wf.member_inside among
      exact wf.enclosingUnit_of_scope present inside
    · rw [ih member among further]
      exact wf.packageOf_member among (isUnit_eq_false_of_isInnerScope inner)

/-! ## Namespaces -/

theorem namespaceOf_component {id scope : Nat} {node : Node} (found : t.node? id = some node)
    (inside : node.scope = some scope) (component : node.kind.isComponent = true) :
    t.namespaceOf id = scope := by
  simp [namespaceOf, hasKind_eq found, component, found, inside]

theorem namespaceOf_whole {id : Nat} {node : Node} (found : t.node? id = some node)
    (whole : node.kind.isComponent = false) : t.namespaceOf id = t.enclosingUnit id := by
  simp [namespaceOf, hasKind_eq found, whole]

theorem isUnit_eq_false_of_holds_component {outer inner : Kind} (held : outer.mayHold inner = true)
    (component : inner.isComponent = true) : outer.isUnit = false := by
  cases inner <;> simp [Kind.isComponent] at component <;>
    cases outer <;> simp_all [Kind.mayHold, Kind.isUnit]

theorem WellFormed.mem_served (wf : t.WellFormed) {scope id : Nat} (listed : id ∈ t.members scope) :
    id ∈ t.served (t.namespaceOf id) := by
  obtain ⟨outer, node, around, found, inside, held⟩ := wf.member_inside listed
  refine List.mem_filter.mpr ⟨?_, by simp⟩
  cases component : node.kind.isComponent with
  | true =>
    have notUnit := isUnit_eq_false_of_holds_component held component
    rw [namespaceOf_component found inside component, wf.opensPackage_eq, hasKind_eq around, notUnit]
    exact listed
  | false =>
    rw [namespaceOf_whole found component, wf.opensPackage_eq, wf.isUnit_enclosingUnit, if_pos rfl,
      wf.enclosingUnit_of_scope found inside]
    exact wf.mem_contents_packageOf listed

theorem WellFormed.mem_packageScopes (wf : t.WellFormed) {scope : Nat} {outer : Node}
    (found : t.node? scope = some outer) (isScope : outer.kind.isScope = true) :
    scope ∈ t.packageScopes (t.packageOf scope) := by
  unfold packageScopes
  rcases wf.unit_or_member found isScope with unit | ⟨inner, above, -, among⟩
  · rw [wf.packageOf_unit unit]
    exact List.mem_cons_self
  · rw [wf.packageOf_member among (isUnit_eq_false_of_isInnerScope inner)]
    exact List.mem_cons_of_mem _ (List.mem_filter.mpr ⟨wf.mem_contents_packageOf among, inner⟩)

/-- An anonymous type of the package `unit`. -/
structure Inline (t : Tree) (unit id scope : Nat) (node : Node) : Prop where
  found : t.node? id = some node
  anonymous : node.kind.isAnonymous = true
  inside : node.scope = some scope
  package : t.packageOf scope = unit

theorem Inline.namespaceOf {unit id scope : Nat} {node : Node} (inline : t.Inline unit id scope node)
    (wf : t.WellFormed) : t.namespaceOf id = unit := by
  have whole : node.kind.isComponent = false := by
    have anonymous := inline.anonymous
    cases shape : node.kind <;> simp_all [Kind.isAnonymous, Kind.isComponent]
  rw [namespaceOf_whole inline.found whole, wf.enclosingUnit_of_scope inline.found inline.inside,
    inline.package]

theorem WellFormed.inline_of_listed (wf : t.WellFormed) {scope id : Nat}
    (listed : id ∈ t.anonymous scope) : ∃ node, t.Inline (t.packageOf scope) id scope node := by
  obtain ⟨node, found, inside, anonymous⟩ := wf.anonymous_within listed
  exact ⟨node, found, anonymous, inside, rfl⟩

theorem WellFormed.packageOf_of_mem_packageScopes (wf : t.WellFormed) {unit scope : Nat}
    (isUnit : t.hasKind Kind.isUnit unit = true) (listed : scope ∈ t.packageScopes unit) :
    t.packageOf scope = unit := by
  rcases List.mem_cons.mp listed with same | deeper
  · rw [same, wf.packageOf_unit isUnit]
  · obtain ⟨inside, inner⟩ := List.mem_filter.mp deeper
    rw [wf.packageOf_eq, isUnit_eq_false_of_isInnerScope inner, wf.enclosingUnit_of_mem_contents inside,
      wf.packageOf_unit isUnit]
    rfl

theorem WellFormed.inline_of_served (wf : t.WellFormed) {unit id : Nat}
    (served : id ∈ t.servedAnonymous unit) : ∃ scope node, t.Inline unit id scope node := by
  unfold servedAnonymous at served
  split at served
  · next opens =>
    rw [wf.opensPackage_eq] at opens
    obtain ⟨scope, among, listed⟩ := List.mem_flatMap.mp served
    obtain ⟨node, inline⟩ := wf.inline_of_listed listed
    rw [wf.packageOf_of_mem_packageScopes opens among] at inline
    exact ⟨scope, node, inline⟩
  · cases served

theorem WellFormed.mem_servedAnonymous (wf : t.WellFormed) {scope id : Nat}
    (listed : id ∈ t.anonymous scope) : id ∈ t.servedAnonymous (t.packageOf scope) := by
  have isScope : ∃ outer, t.node? scope = some outer ∧ outer.kind.isScope = true := by
    obtain ⟨node, found, inside, anonymous⟩ := wf.anonymous_within listed
    cases wf.placed found with
    | root first nameless top kind => simp [kind, Kind.isAnonymous] at anonymous
    | primitive within kind => cases shape : node.kind <;> simp_all [Kind.isPrimitive, Kind.isAnonymous]
    | member above outer within present held =>
      cases within.symm.trans inside
      exact ⟨outer, present, Kind.isScope_of_mayHold held⟩
    | anonymous above outer within present held =>
      cases within.symm.trans inside
      exact ⟨outer, present, held⟩
  obtain ⟨outer, found, scopeKind⟩ := isScope
  rw [servedAnonymous, wf.opensPackage_eq, wf.isUnit_packageOf, if_pos rfl]
  exact List.mem_flatMap.mpr ⟨scope, wf.mem_packageScopes found scopeKind, listed⟩

/-! ## Units and the declarations in them -/

theorem mem_units_of_member {id outer unit : Nat} (above : outer ∈ t.units id)
    (listed : unit ∈ t.members outer) (isUnit : t.hasKind Kind.isUnit unit = true) : unit ∈ t.units id := by
  induction id using t.members_induction with
  | step id ih =>
    rw [units_eq] at above ⊢
    apply List.mem_cons_of_mem
    rcases List.mem_cons.mp above with rfl | deeper
    · refine List.mem_flatMap.mpr ⟨unit, listed, ?_⟩
      rw [if_pos isUnit, units_eq]
      exact List.mem_cons_self
    · obtain ⟨member, among, within⟩ := List.mem_flatMap.mp deeper
      refine List.mem_flatMap.mpr ⟨member, among, ?_⟩
      split at within
      · next deeperUnit =>
        rw [if_pos deeperUnit]
        exact ih member among within
      · cases within

theorem WellFormed.mem_units (wf : t.WellFormed) {unit : Nat} (isUnit : t.hasKind Kind.isUnit unit = true) :
    unit ∈ t.units root := by
  induction unit using Nat.strongRecOn with
  | ind unit ih =>
    obtain ⟨node, found, kind⟩ := exists_of_hasKind isUnit
    cases wf.placed found with
    | root first =>
      rw [first, units_eq]
      exact List.mem_cons_self
    | primitive inside isPrimitive =>
      cases shape : node.kind <;> simp_all [Kind.isPrimitive, Kind.isUnit]
    | anonymous scope outer inside present held isAnonymous =>
      cases shape : node.kind <;> simp_all [Kind.isAnonymous, Kind.isUnit]
    | member scope outer inside present held named listed =>
      have around : t.hasKind Kind.isUnit scope = true := by
        rw [hasKind_eq present]
        cases shape : node.kind <;> simp_all [Kind.mayHold, Kind.isUnit]
      rw [← members_eq present] at listed
      exact mem_units_of_member (ih scope (t.scope_lt found inside) around) listed isUnit

theorem isUnit_of_mem_units {id unit : Nat} (isUnit : t.hasKind Kind.isUnit id = true)
    (listed : unit ∈ t.units id) : t.hasKind Kind.isUnit unit = true := by
  induction id using t.members_induction with
  | step id ih =>
    rw [units_eq] at listed
    rcases List.mem_cons.mp listed with rfl | deeper
    · exact isUnit
    · obtain ⟨member, among, within⟩ := List.mem_flatMap.mp deeper
      split at within
      · next memberUnit => exact ih member among memberUnit within
      · cases within

/-- The way to the root from a unit in `id` leads through `id`. -/
theorem WellFormed.path_of_mem_units (wf : t.WellFormed) {id unit : Nat} (listed : unit ∈ t.units id) :
    (id :: t.ancestors id) <:+ (unit :: t.ancestors unit) := by
  induction id using t.members_induction with
  | step id ih =>
    rw [units_eq] at listed
    rcases List.mem_cons.mp listed with rfl | deeper
    · exact List.suffix_rfl
    · obtain ⟨member, among, within⟩ := List.mem_flatMap.mp deeper
      split at within
      · obtain ⟨-, inner, -, found, inside, -⟩ := wf.member_inside among
        have further := ih member among within
        rw [ancestors_of_scope found inside] at further
        exact (List.suffix_cons _ _).trans further
      · cases within

/-- Each unit is listed once: the members of `id` are equally far from the root, so that the way there from a
unit leads through one of them only. -/
theorem WellFormed.units_nodup (wf : t.WellFormed) (id : Nat) : (t.units id).Nodup := by
  induction id using t.members_induction with
  | step id ih =>
    have scope_of_member : ∀ {member}, member ∈ t.members id → t.ancestors member = id :: t.ancestors id := by
      intro member among
      obtain ⟨-, inner, -, found, inside, -⟩ := wf.member_inside among
      exact ancestors_of_scope found inside
    have within : ∀ {member unit}, member ∈ t.members id →
        unit ∈ (if t.hasKind Kind.isUnit member then t.units member else []) →
        (member :: id :: t.ancestors id) <:+ (unit :: t.ancestors unit) := by
      intro member unit among listed
      split at listed
      · rw [← scope_of_member among]
        exact wf.path_of_mem_units listed
      · cases listed
    rw [units_eq, List.nodup_cons]
    constructor
    · intro listed
      obtain ⟨member, among, inside⟩ := List.mem_flatMap.mp listed
      have shorter := (within among inside).length_le
      simp only [List.length_cons] at shorter
      omega
    · have distinct : (t.members id).Nodup := by
        cases found : t.node? id with
        | none => simp [members, found]
        | some node =>
          rw [members_eq found]
          exact (wf.members_sorted found).imp Nat.ne_of_lt
      refine List.pairwise_flatMap.mpr ⟨?_, distinct.imp_of_mem ?_⟩
      · intro member among
        split
        · exact ih member among
        · exact List.nodup_nil
      · rintro one other first second apart unit inOne _ inOther rfl
        have same := List.suffix_of_suffix_length_le (within first inOne) (within second inOther) (Nat.le_refl _)
        exact apart (List.cons.inj (same.eq_of_length rfl)).1

theorem mem_innerFirst {id inner : Nat} :
    inner ∈ t.innerFirst id ↔ inner = id ∨
      (t.hasKind Kind.holdsTypes id = true ∧ t.hasKind Kind.isUnit id = false) ∧
        ∃ member ∈ t.members id, t.hasKind Kind.isType member = true ∧ inner ∈ t.innerFirst member := by
  rw [innerFirst_eq, List.mem_append, List.mem_singleton, or_comm]
  refine or_congr_right ?_
  rw [← Bool.not_eq_true', ← Bool.and_eq_true]
  split
  · next record =>
    simp only [record, true_and, List.mem_flatMap]
    refine exists_congr fun member => and_congr_right fun _ => ?_
    split <;> simp [*]
  · next other => simp [other]

theorem mem_innerFirst_trans {id middle inner : Nat} (outer : middle ∈ t.innerFirst id)
    (deeper : inner ∈ t.innerFirst middle) : inner ∈ t.innerFirst id := by
  induction id using t.members_induction with
  | step id ih =>
    rcases mem_innerFirst.mp outer with rfl | ⟨record, member, listed, isType, within⟩
    · exact deeper
    · exact mem_innerFirst.mpr (.inr ⟨record, member, listed, isType, ih member listed within⟩)

theorem WellFormed.declared_in_unit (wf : t.WellFormed) {unit id : Nat}
    (isUnit : t.hasKind Kind.isUnit unit = true) (listed : id ∈ t.members unit)
    (inner : t.hasKind Kind.isUnit id = false) :
    t.hasKind Kind.isDeclared id = true ∧ t.packageOf id = unit := by
  constructor
  · obtain ⟨outer, node, around, found, -, held⟩ := wf.member_inside listed
    rw [hasKind_eq around] at isUnit
    rw [hasKind_eq found] at inner ⊢
    exact Kind.isDeclared_of_held held isUnit inner
  · rw [wf.packageOf_member listed inner, wf.packageOf_unit isUnit]

theorem WellFormed.isDeclared_of_mem_innerFirst (wf : t.WellFormed) {id inner : Nat}
    (declared : t.hasKind Kind.isDeclared id = true) (within : inner ∈ t.innerFirst id) :
    t.hasKind Kind.isDeclared inner = true ∧ t.packageOf inner = t.packageOf id := by
  induction id using t.members_induction with
  | step id ih =>
    rcases mem_innerFirst.mp within with rfl | ⟨⟨-, record⟩, member, listed, isType, deeper⟩
    · exact ⟨declared, rfl⟩
    · obtain ⟨outer, node, around, found, -, held⟩ := wf.member_inside listed
      rw [hasKind_eq around] at record
      rw [hasKind_eq found] at isType
      have kinds := Kind.isDeclared_of_isType held record isType
      obtain ⟨innerDeclared, package⟩ := ih member listed (by rw [hasKind_eq found, kinds.1]) deeper
      rw [wf.packageOf_member listed (by rw [hasKind_eq found, kinds.2])] at package
      exact ⟨innerDeclared, package⟩

/-- The walk over a package meets every declaration in it. -/
theorem WellFormed.exists_innerFirst (wf : t.WellFormed) {id : Nat}
    (declared : t.hasKind Kind.isDeclared id = true) (inner : t.hasKind Kind.isUnit id = false) :
    ∃ member ∈ t.members (t.packageOf id), t.hasKind Kind.isUnit member = false ∧
      id ∈ t.innerFirst member := by
  induction id using Nat.strongRecOn with
  | ind id ih =>
    obtain ⟨node, found, kind⟩ := exists_of_hasKind declared
    cases wf.placed found with
    | root first => simp [first, wf.isUnit_root] at inner
    | primitive inside isPrimitive =>
      cases shape : node.kind <;> simp_all [Kind.isPrimitive, Kind.isDeclared]
    | anonymous scope outer inside present held isAnonymous =>
      cases shape : node.kind <;> simp_all [Kind.isAnonymous, Kind.isDeclared]
    | member scope outer inside present held named listed =>
      rw [← members_eq present] at listed
      rw [wf.packageOf_member listed inner]
      cases unit : outer.kind.isUnit with
      | true =>
        rw [wf.packageOf_unit (by rw [hasKind_eq present, unit])]
        exact ⟨id, listed, inner, mem_innerFirst.mpr (.inl rfl)⟩
      | false =>
        obtain ⟨isType, around, holds⟩ := Kind.isType_of_held held unit kind
        have scopeInner : t.hasKind Kind.isUnit scope = false := by rw [hasKind_eq present, unit]
        obtain ⟨member, among, own, above⟩ :=
          ih scope (t.scope_lt found inside) (by rw [hasKind_eq present, around]) scopeInner
        refine ⟨member, among, own, mem_innerFirst_trans above ?_⟩
        refine mem_innerFirst.mpr (.inr ⟨⟨?_, scopeInner⟩, id, listed, ?_, mem_innerFirst.mpr (.inl rfl)⟩)
        · rw [hasKind_eq present, holds]
        · rw [hasKind_eq found, isType]

end AdaStubs.Tree
