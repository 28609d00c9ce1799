import Mathlib.Data.List.Nodup
import AdaStubs.Proofs.Idl.Scopes

/-!
# Scopes and their lists

The nodes of a tree form one hierarchy under the root module, and the lists of its scopes hold every node
that was declared or written in place, once. Main statement: `ofSteps_hierarchy`, for every list of steps,
accepted or refused.
-/

namespace AdaStubs

/-- Which declarations stand in which. Types that have no declaration of their own stand in any scope. -/
inductive Kind.StandsIn : Kind → Kind → Prop
  | module : StandsIn .module .module
  | interface {bases : List Nat} : StandsIn (.interface bases) .module
  | attribute {bases : List Nat} {type : Nat} {readonly : Bool} :
      StandsIn (.attribute type readonly) (.interface bases)
  | operation {bases raises : List Nat} {result : Option Nat} {oneway : Bool} :
      StandsIn (.operation result oneway raises) (.interface bases)
  | structField {type : Nat} : StandsIn (.field type) .struct
  | exceptionField {type : Nat} : StandsIn (.field type) .exception
  | branch {labels : List Label} {type discriminant : Nat} : StandsIn (.branch labels type) (.union discriminant)
  | argument {direction : Direction} {type : Nat} {raises : List Nat} {result : Option Nat} {oneway : Bool} :
      StandsIn (.argument direction type) (.operation result oneway raises)
  | enumerator : StandsIn .enumerator .enum
  | exception {outer : Kind} (unit : outer.isUnit = true) : StandsIn .exception outer
  | constant {outer : Kind} {type : Nat} {value : Value} (unit : outer.isUnit = true) :
      StandsIn (.constant type value) outer
  | struct {outer : Kind} (holds : outer.holdsTypes = true) : StandsIn .struct outer
  | union {outer : Kind} {discriminant : Nat} (holds : outer.holdsTypes = true) :
      StandsIn (.union discriminant) outer
  | enum {outer : Kind} (holds : outer.holdsTypes = true) : StandsIn .enum outer
  | typedef {outer : Kind} {base : Nat} (holds : outer.holdsTypes = true) : StandsIn (.typedef base) outer
  | anonymous {inner outer : Kind} (anonymous : inner.isAnonymous = true) (scope : outer.isScope = true) :
      StandsIn inner outer
  | primitive {p : Primitive} : StandsIn (.primitive p) .module

theorem Kind.standsIn_of_mayHold {outer inner : Kind} (held : outer.mayHold inner = true) :
    inner.StandsIn outer := by
  cases inner with
  | module =>
    cases eq_of_beq held
    exact .module
  | interface bases =>
    cases eq_of_beq held
    exact .interface
  | enumerator =>
    cases eq_of_beq held
    exact .enumerator
  | exception => exact .exception held
  | constant type value => exact .constant held
  | struct => exact .struct held
  | union discriminant => exact .union held
  | enum => exact .enum held
  | typedef base => exact .typedef held
  | field type =>
    cases outer with
    | struct => exact .structField
    | exception => exact .exceptionField
    | _ => cases held
  | branch labels type =>
    cases outer with
    | union discriminant => exact .branch
    | _ => cases held
  | «attribute» type readonly =>
    cases outer with
    | interface bases => exact .attribute
    | _ => cases held
  | operation result oneway raises =>
    cases outer with
    | interface bases => exact .operation
    | _ => cases held
  | argument direction type =>
    cases outer with
    | operation result oneway raises => exact .argument
    | _ => cases held
  | sequence | string | fixed | array | primitive => cases held

theorem Kind.isAnonymous_eq_false_of_mayHold {outer inner : Kind} (held : outer.mayHold inner = true) :
    inner.isAnonymous = false ∧ inner.isPrimitive = false := by
  cases inner with
  | sequence | string | fixed | array | primitive => cases held
  | _ => exact ⟨rfl, rfl⟩

theorem Kind.isPrimitive_eq_false_of_isAnonymous {kind : Kind} (anonymous : kind.isAnonymous = true) :
    kind.isPrimitive = false := by
  cases kind with
  | primitive p => cases anonymous
  | _ => rfl

namespace Tree

/-- Everything that the scopes of a tree list, scope by scope. -/
def listed (t : Tree) : List Nat := t.ids.flatMap fun scope => t.members scope ++ t.anonymous scope

/-- The nodes form one hierarchy under the root, and the lists of the scopes are in order and agree with it. -/
structure Hierarchy (t : Tree) : Prop where
  root_module : ∃ top, t.node? root = some top ∧ top.scope = none ∧ top.kind = .module
  /-- Every other node stands in an earlier scope that is meant for its kind, a primitive in the root. -/
  stands : ∀ {id node}, t.node? id = some node → id ≠ root → ∃ scope outer, node.scope = some scope ∧
    scope < id ∧ t.node? scope = some outer ∧ outer.kind.isScope = true ∧ node.kind.StandsIn outer.kind ∧
    (node.kind.isPrimitive = true → scope = root)
  /-- A declaration is a member of its scope, and an anonymous type is listed beside the members. -/
  listed_in_scope : ∀ {id node}, t.node? id = some node → id ≠ root → node.kind.isPrimitive = false →
    ∃ scope, node.scope = some scope ∧
      ((node.kind.isAnonymous = false ∧ node.name ≠ "" ∧ id ∈ t.members scope) ∨
        (node.kind.isAnonymous = true ∧ node.name = "" ∧ id ∈ t.anonymous scope))
  /-- No node occurs in a second list or a second time in its own, and neither the root nor a primitive in any. -/
  listed_once : ∀ id, t.listed.count id =
    if id ≠ root ∧ t.hasKind (!·.isPrimitive) id = true then 1 else 0
  members_sorted : ∀ scope, (t.members scope).Pairwise (· < ·)
  anonymous_sorted : ∀ scope, (t.anonymous scope).Pairwise (· < ·)
  primitive_once : ∀ {id other p}, t.kind? id = some (.primitive p) →
    t.kind? other = some (.primitive p) → id = other
  ancestors_sorted : ∀ id, (id :: t.ancestors id).Pairwise (· > ·)
  ancestors_end : ∀ {id}, id ∈ t.ids → (id :: t.ancestors id).getLast? = some root

variable {t : Tree}

theorem ancestors_pairwise (id : Nat) : (t.ancestors id).Pairwise (· > ·) := by
  fun_induction ancestors t id with
  | case1 | case2 => exact .nil
  | case3 id node found outer inside ih => exact .cons (fun _ => t.lt_of_mem_ancestors) ih

namespace WellFormed

variable (wf : t.WellFormed)
include wf

theorem members_pairwise (scope : Nat) : (t.members scope).Pairwise (· < ·) := by
  unfold members
  cases found : t.node? scope with
  | none => exact .nil
  | some node => exact wf.members_sorted found

theorem members_nodup (scope : Nat) : (t.members scope).Nodup := (wf.members_pairwise scope).imp Nat.ne_of_lt

theorem anonymous_pairwise (scope : Nat) : (t.anonymous scope).Pairwise (· < ·) := by
  unfold anonymous
  cases found : t.node? scope with
  | none => exact .nil
  | some node => exact wf.anonymous_sorted found

theorem stands {id : Nat} {node : Node} (found : t.node? id = some node) (inner : id ≠ root) :
    ∃ scope outer, node.scope = some scope ∧ scope < id ∧ t.node? scope = some outer ∧
      outer.kind.isScope = true ∧ node.kind.StandsIn outer.kind ∧ (node.kind.isPrimitive = true → scope = root) := by
  cases wf.placed found with
  | root first => exact absurd first inner
  | primitive inside kind =>
    obtain ⟨top, present, -, isModule⟩ := wf.root_node
    refine ⟨root, top, inside, t.scope_lt found inside, present, by rw [isModule]; rfl, ?_, fun _ => rfl⟩
    rw [isModule]
    cases shape : node.kind with
    | primitive p => exact .primitive
    | _ => rw [shape] at kind; cases kind
  | member scope outer inside present held =>
    refine ⟨scope, outer, inside, t.scope_lt found inside, present, Kind.isScope_of_mayHold held,
      Kind.standsIn_of_mayHold held, fun isPrimitive => ?_⟩
    rw [(Kind.isAnonymous_eq_false_of_mayHold held).2] at isPrimitive
    cases isPrimitive
  | anonymous scope outer inside present held kind =>
    refine ⟨scope, outer, inside, t.scope_lt found inside, present, held, .anonymous kind held,
      fun isPrimitive => ?_⟩
    rw [Kind.isPrimitive_eq_false_of_isAnonymous kind] at isPrimitive
    cases isPrimitive

theorem listed_in_scope {id : Nat} {node : Node} (found : t.node? id = some node) (inner : id ≠ root)
    (ordinary : node.kind.isPrimitive = false) : ∃ scope, node.scope = some scope ∧
      ((node.kind.isAnonymous = false ∧ node.name ≠ "" ∧ id ∈ t.members scope) ∨
        (node.kind.isAnonymous = true ∧ node.name = "" ∧ id ∈ t.anonymous scope)) := by
  cases wf.placed found with
  | root first => exact absurd first inner
  | primitive inside kind => rw [ordinary] at kind; cases kind
  | member scope outer inside present held named listed =>
    refine ⟨scope, inside, .inl ⟨(Kind.isAnonymous_eq_false_of_mayHold held).1, named, ?_⟩⟩
    rwa [members_eq present]
  | anonymous scope outer inside present held kind nameless listed =>
    refine ⟨scope, inside, .inr ⟨kind, nameless, ?_⟩⟩
    rwa [anonymous_eq present]

/-- What a list holds stands in the scope whose list it is. -/
theorem scope_of_listed {scope id : Nat} (listed : id ∈ t.members scope ++ t.anonymous scope) :
    ∃ node, t.node? id = some node ∧ node.scope = some scope ∧ node.kind.isPrimitive = false := by
  rcases List.mem_append.mp listed with member | type
  · obtain ⟨outer, node, -, found, inside, held⟩ := wf.member_inside member
    exact ⟨node, found, inside, (Kind.isAnonymous_eq_false_of_mayHold held).2⟩
  · obtain ⟨node, found, inside, kind⟩ := wf.anonymous_within type
    exact ⟨node, found, inside, Kind.isPrimitive_eq_false_of_isAnonymous kind⟩

theorem listed_nodup : t.listed.Nodup := by
  unfold listed
  rw [List.nodup_flatMap]
  constructor
  · intro scope _
    refine List.Nodup.append (wf.members_nodup scope) ((wf.anonymous_pairwise scope).imp Nat.ne_of_lt) ?_
    -- A member was declared, and what is written in place never is.
    intro id member type
    obtain ⟨outer, node, -, found, -, held⟩ := wf.member_inside member
    obtain ⟨same, again, -, kind⟩ := wf.anonymous_within type
    cases found.symm.trans again
    rw [(Kind.isAnonymous_eq_false_of_mayHold held).1] at kind
    cases kind
  · refine List.nodup_range.imp fun {first second} apart id here there => ?_
    obtain ⟨node, found, inside, -⟩ := wf.scope_of_listed here
    obtain ⟨same, again, elsewhere, -⟩ := wf.scope_of_listed there
    cases found.symm.trans again
    exact apart (Option.some.inj (inside.symm.trans elsewhere))

theorem mem_listed {id : Nat} :
    id ∈ t.listed ↔ id ≠ root ∧ t.hasKind (!·.isPrimitive) id = true := by
  constructor
  · intro listed
    obtain ⟨scope, -, inList⟩ := List.mem_flatMap.mp listed
    obtain ⟨node, found, inside, ordinary⟩ := wf.scope_of_listed inList
    refine ⟨?_, by rw [hasKind_eq found, ordinary]; rfl⟩
    rintro rfl
    exact absurd (t.scope_lt found inside) (Nat.not_lt_zero _)
  · rintro ⟨inner, kind⟩
    obtain ⟨node, found, ordinary⟩ := exists_of_hasKind kind
    have unlisted : node.kind.isPrimitive = false := by simpa using ordinary
    obtain ⟨scope, inside, listed⟩ := wf.listed_in_scope found inner unlisted
    have earlier : scope < t.size := Nat.lt_trans (t.scope_lt found inside) (lt_size_of_node? found)
    refine List.mem_flatMap.mpr ⟨scope, List.mem_range.mpr earlier, List.mem_append.mpr ?_⟩
    exact listed.imp (·.2.2) (·.2.2)

theorem count_listed (id : Nat) :
    t.listed.count id = if id ≠ root ∧ t.hasKind (!·.isPrimitive) id = true then 1 else 0 := by
  split
  · next inside => exact List.count_eq_one_of_mem wf.listed_nodup (wf.mem_listed.mpr inside)
  · next outside => exact List.count_eq_zero.mpr fun listed => outside (wf.mem_listed.mp listed)

/-- Every walk towards the root arrives there. -/
theorem getLast?_ancestors (id : Nat) (present : id ∈ t.ids) : (id :: t.ancestors id).getLast? = some root := by
  induction id using Nat.strongRecOn with
  | ind id ih =>
    obtain ⟨node, found⟩ : ∃ node, t.node? id = some node :=
      ⟨_, Array.getElem?_eq_getElem (List.mem_range.mp present)⟩
    by_cases first : id = root
    · obtain ⟨top, atRoot, noScope, -⟩ := wf.root_node
      have alone : t.ancestors id = [] := by
        rw [List.eq_nil_iff_forall_not_mem]
        intro scope above
        rw [first] at above
        exact absurd (t.lt_of_mem_ancestors above) (Nat.not_lt_zero _)
      rw [alone, first]
      rfl
    · obtain ⟨scope, outer, inside, earlier, around, -⟩ := wf.stands found first
      rw [ancestors_of_scope found inside, List.getLast?_cons_cons]
      exact ih scope earlier (List.mem_range.mpr (lt_size_of_node? around))

end WellFormed

/-- Whatever the steps are, and whichever of them are refused, the nodes they leave form a hierarchy. -/
theorem ofSteps_hierarchy (script : List Step) : (ofSteps script).Hierarchy := by
  have wf := ofSteps_wellFormed script
  exact {
    root_module := wf.root_node
    stands := wf.stands
    listed_in_scope := wf.listed_in_scope
    listed_once := wf.count_listed
    members_sorted := wf.members_pairwise
    anonymous_sorted := wf.anonymous_pairwise
    primitive_once := wf.primitive_once
    ancestors_sorted := fun id => .cons (fun _ => (ofSteps script).lt_of_mem_ancestors) (ancestors_pairwise id)
    ancestors_end := wf.getLast?_ancestors _ }

end Tree

end AdaStubs
