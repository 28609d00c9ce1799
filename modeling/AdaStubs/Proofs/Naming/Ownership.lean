import AdaStubs.Proofs.Ada.Letters
import AdaStubs.Proofs.Idl.Listings
import AdaStubs.Proofs.Naming.Queries

/-!
# Names after owners

An anonymous type goes by the name of the declaration it is written in, or of the anonymous type around it, which
is named first although it was created later. So a name is found for those types from which the chain of owners
leads to a declaration, and for no others.

Main statement: `localName_follows_owners`.
-/

namespace AdaStubs

namespace Tree

/-- What an anonymous type of `scope` is named after: the first declaration that has it as its type, else the first
anonymous type that has it as its element. -/
def owner? (t : Tree) (scope id : Nat) : Option Nat :=
  (t.declaringOwner? scope id).or (t.containingOwner? scope id)

/-- Following the owners from an anonymous type of `scope`, a declaration is reached. -/
inductive Owned (t : Tree) (scope : Nat) : Nat → Prop
  | declared {id owner : Nat} (declares : t.declaringOwner? scope id = some owner) : Owned t scope id
  | contained {id outer : Nat} (undeclared : t.declaringOwner? scope id = none)
      (contains : t.containingOwner? scope id = some outer) (owned : Owned t scope outer) : Owned t scope id

/-- The element of an array or a sequence is created before it. -/
def ElementsFirst (t : Tree) : Prop := ∀ id ∈ t.ids, ∀ element ∈ (t.kind? id).bind Kind.element?, element < id

instance (t : Tree) : Decidable t.ElementsFirst :=
  inferInstanceAs (Decidable (∀ id ∈ t.ids, ∀ element ∈ (t.kind? id).bind Kind.element?, element < id))

variable {t : Tree} {unit id scope outer : Nat} {node : Node}

theorem Inline.around (inline : t.Inline unit id scope node) (wf : t.WellFormed)
    (contains : t.containingOwner? scope id = some outer) :
    outer ≠ id ∧ ∃ outerNode, t.Inline unit outer scope outerNode ∧ outerNode.kind.element? = some id := by
  obtain ⟨outerNode, around⟩ := wf.inline_of_listed (List.mem_of_find?_eq_some contains)
  rw [inline.package] at around
  have element := List.find?_some contains
  rw [kind?_eq around.found, Bool.and_eq_true, bne_iff_ne, beq_iff_eq] at element
  exact ⟨element.1, outerNode, around, element.2⟩

theorem Inline.listed (inline : t.Inline unit id scope node) (wf : t.WellFormed) : id ∈ t.anonymous scope := by
  have inner : id ≠ root := Nat.ne_of_gt (Nat.zero_lt_of_lt (t.scope_lt inline.found inline.inside))
  have ordinary := Kind.isPrimitive_eq_false_of_isAnonymous inline.anonymous
  obtain ⟨around, within, ⟨named, -⟩ | ⟨-, -, listed⟩⟩ := wf.listed_in_scope inline.found inner ordinary
  · cases named.symm.trans inline.anonymous
  · cases within.symm.trans inline.inside
    exact listed

theorem runtimeString?_of_element {kind : Kind} {element : Nat} (contains : kind.element? = some element) :
    kind.runtimeString? = none := by
  cases kind with
  | array | sequence => rfl
  | _ => cases contains

theorem ElementsFirst.lt (elements : t.ElementsFirst) {kind : Kind} {element : Nat} (found : t.kind? id = some kind)
    (contains : kind.element? = some element) : element < id := by
  refine elements id (mem_ids_of_kind? found) element ?_
  rw [found]
  exact contains

end Tree

/-! ## Namespaces -/

namespace Namespace

variable {t : Tree} {placeholder : Option String} {unit : Nat} {ns : Namespace}

/-- The name that the owner of an anonymous type has to give. -/
def ownerName? (ns : Namespace) (t : Tree) (scope id : Nat) : Option String :=
  match t.declaringOwner? scope id with
  | some owner => (declared t (t.namespaceOf owner)).name? owner
  | none => (t.containingOwner? scope id).bind ns.name?

/-- Names are made from those of the owners, and refused where the owners do not lead to a declaration. -/
structure Follows (t : Tree) (unit : Nat) (ns : Namespace) : Prop where
  named : ∀ {id scope node name}, t.Inline unit id scope node → ns.name? id = some name →
    t.Owned scope id ∧ ∃ base used, ns.ownerName? t scope id = some base ∧
      name = Ada.distinct used (base ++ node.kind.suffix)
  refused : ∀ {id scope node}, t.Inline unit id scope node → id ∈ ns.unowned → ¬ t.Owned scope id

theorem name?_settle_of_ne {id other : Nat} (differ : other ≠ id) (kind : Kind) (base : Option String) :
    (ns.settle placeholder id kind base).name? other = ns.name? other := by
  refine settle_keeps (P := fun after => after.name? other = ns.name? other) (fun base => ?_) (fun _ => rfl) kind base
  rw [name?_enter, if_neg differ]

/-- The walk along the owners goes to later types only. -/
theorem name?_enterAnonymous_of_lt {id other : Nat} (before : other < id) :
    (enterAnonymous t placeholder ns id).name? other = ns.name? other := by
  have differ : other ≠ id := Nat.ne_of_lt before
  rw [enterAnonymous]
  split
  · rfl
  split
  · rfl
  split
  · rfl
  split
  · rfl
  split
  · exact name?_settle_of_ne differ _ _
  split
  · exact name?_settle_of_ne differ _ _
  · next outer _ =>
    rw [name?_settle_of_ne differ]
    split
    · next later => exact name?_enterAnonymous_of_lt (Nat.lt_trans before later.1)
    · rfl
termination_by t.size - id

/-- A name that is given to a type changes the owner's name for no type that has been named. -/
theorem ownerName?_enter {id other scope : Nat} {base found : String} (unnamed : ns.name? id = none)
    (given : ns.ownerName? t scope other = some found) :
    (ns.enter id base).ownerName? t scope other = some found := by
  unfold ownerName? at given ⊢
  split
  · next owner declares =>
    rw [declares] at given
    exact given
  · next undeclared =>
    rw [undeclared] at given
    obtain ⟨outer, contains, outerName⟩ := Option.bind_eq_some_iff.mp given
    rw [contains, Option.bind_some, name?_enter, if_neg, outerName]
    rintro rfl
    cases unnamed.symm.trans outerName

section

variable {id scope : Nat} {node : Node} (wf : t.WellFormed) (follows : ns.Follows t unit)
  (inline : t.Inline unit id scope node)
include wf follows inline

theorem Follows.owned {base : String} (given : ns.ownerName? t scope id = some base) : t.Owned scope id := by
  unfold ownerName? at given
  split at given
  · next owner declares => exact .declared declares
  · next undeclared =>
    obtain ⟨outer, contains, outerName⟩ := Option.bind_eq_some_iff.mp given
    obtain ⟨-, outerNode, around, -⟩ := inline.around wf contains
    exact .contained undeclared contains (follows.named around outerName).1

theorem Follows.not_owned (settled : t.declaringOwner? scope id = none →
      ∀ outer, t.containingOwner? scope id = some outer → ns.Settled outer)
    (missing : ns.ownerName? t scope id = none) : ¬ t.Owned scope id := by
  intro owned
  unfold ownerName? at missing
  cases owned with
  | declared declares =>
    rw [declares] at missing
    obtain ⟨name, given⟩ := exists_name_of_served (wf.mem_served (List.mem_of_find?_eq_some declares))
    cases missing.symm.trans given
  | contained undeclared contains owned =>
    rw [undeclared, contains] at missing
    obtain ⟨-, outerNode, around, -⟩ := inline.around wf contains
    rcases settled undeclared _ contains with named | refused
    · rw [show ns.name? _ = none from missing] at named
      cases named
    · exact follows.refused around refused owned

theorem Follows.settle (unnamed : ns.name? id = none) (settled : t.declaringOwner? scope id = none →
      ∀ outer, t.containingOwner? scope id = some outer → ns.Settled outer) :
    (ns.settle none id node.kind (ns.ownerName? t scope id)).Follows t unit := by
  cases given : ns.ownerName? t scope id with
  | some base =>
    constructor
    · intro other otherScope otherNode name otherInline kept
      rw [Namespace.settle, name?_enter] at kept
      split at kept
      · next same =>
        subst same
        cases inline.found.symm.trans otherInline.found
        cases inline.inside.symm.trans otherInline.inside
        have owned := follows.owned wf inline given
        exact ⟨owned, base, ns.used, ownerName?_enter unnamed given, (Option.some.inj kept).symm⟩
      · obtain ⟨owned, base, used, before, shape⟩ := follows.named otherInline kept
        exact ⟨owned, base, used, ownerName?_enter unnamed before, shape⟩
    · exact follows.refused
  | none =>
    constructor
    · exact follows.named
    · intro other otherScope otherNode otherInline refused
      rcases List.mem_cons.mp refused with rfl | earlier
      · cases inline.found.symm.trans otherInline.found
        cases inline.inside.symm.trans otherInline.inside
        exact follows.not_owned wf inline settled given
      · exact follows.refused otherInline earlier

end

theorem Follows.enterAnonymous {id scope : Nat} {node : Node} (wf : t.WellFormed) (elements : t.ElementsFirst)
    (follows : ns.Follows t unit) (inline : t.Inline unit id scope node) :
    (enterAnonymous t none ns id).Follows t unit := by
  rw [Namespace.enterAnonymous]
  simp only [inline.found, inline.inside]
  split
  · exact follows
  next fresh =>
  have unnamed : ns.name? id = none := by
    simp only [Bool.or_eq_true, not_or] at fresh
    simpa using fresh.1
  split
  · exact follows
  split
  · next owner declares =>
    have base : ns.ownerName? t scope id = (declared t (t.namespaceOf owner)).name? owner := by
      rw [ownerName?, declares]
    rw [← base]
    exact follows.settle wf inline unnamed fun undeclared => by cases declares.symm.trans undeclared
  next undeclared =>
  have base (ns : Namespace) : ns.ownerName? t scope id = (t.containingOwner? scope id).bind ns.name? := by
    rw [ownerName?, undeclared]
  split
  · next alone =>
    have step := follows.settle wf inline unnamed fun _ outer contains => by cases alone.symm.trans contains
    rwa [base, alone, Option.bind_none] at step
  · next outer contains =>
    -- The type around is a later one and has been dealt with before its name is asked for.
    obtain ⟨-, outerNode, around, element⟩ := inline.around wf contains
    have later := elements.lt (Tree.kind?_eq around.found) element
    have inside := Tree.lt_size_of_node? around.found
    rw [if_pos ⟨later, inside⟩]
    have walked : (Namespace.enterAnonymous t none ns outer).Follows t unit :=
      follows.enterAnonymous wf elements around
    have settled : (Namespace.enterAnonymous t none ns outer).Settled outer :=
      settled_enterAnonymous around (Tree.runtimeString?_of_element element) ns
    have outerName := base (Namespace.enterAnonymous t none ns outer)
    rw [contains, Option.bind_some] at outerName
    rw [← outerName]
    refine walked.settle wf inline ((name?_enterAnonymous_of_lt later).trans unnamed) fun _ other same => ?_
    cases contains.symm.trans same
    exact settled
termination_by t.size - id

theorem assign_follows (wf : t.WellFormed) (elements : t.ElementsFirst) (unit : Nat) :
    (assign t none unit).Follows t unit := by
  have start : (declared t unit).Follows t unit := by
    constructor
    · intro id scope node name inline given
      have absent : id ∉ t.served unit := by
        intro served
        obtain ⟨outer, listed⟩ := NameTable.mem_members_of_mem_served served
        obtain ⟨around, present, -, found, -, held⟩ := wf.member_inside listed
        cases inline.found.symm.trans found
        have named := (Kind.isAnonymous_eq_false_of_mayHold held).1
        cases named.symm.trans inline.anonymous
      rw [declared, name?_enterAll_of_not_mem absent] at given
      cases given
    · intro id scope node inline refused
      rw [unowned_declared] at refused
      cases refused
  have inlines : ∀ id ∈ t.servedAnonymous unit, ∃ scope node, t.Inline unit id scope node :=
    fun id listed => wf.inline_of_served listed
  unfold assign
  generalize t.servedAnonymous unit = ids at inlines
  generalize declared t unit = ns at start
  induction ids generalizing ns with
  | nil => exact start
  | cons id ids ih =>
    obtain ⟨scope, node, inline⟩ := inlines id List.mem_cons_self
    refine ih (fun other listed => inlines other (List.mem_cons_of_mem _ listed)) _ ?_
    exact start.enterAnonymous wf elements inline

end Namespace

/-! ## Answers -/

namespace NameTable

variable {ctx : Context} {unit id scope : Nat} {node : Node}

/-- What the owner has to give is its own name. -/
theorem localResult_owner (wf : ctx.tree.WellFormed) (inline : ctx.tree.Inline unit id scope node) {base : String}
    (given : (assigned ctx unit).ownerName? ctx.tree scope id = some base) :
    ∃ owner, ctx.tree.owner? scope id = some owner ∧ localResult ctx owner = .ok base := by
  unfold Namespace.ownerName? at given
  unfold Tree.owner?
  split at given
  · next owner declares =>
    obtain ⟨ownerNode, lives, named⟩ := lives_of_member wf (List.mem_of_find?_eq_some declares)
    exact ⟨owner, by rw [declares]; rfl, localResult_of_declared wf lives named given⟩
  · next undeclared =>
    obtain ⟨outer, contains, outerName⟩ := Option.bind_eq_some_iff.mp given
    obtain ⟨-, outerNode, around, element⟩ := inline.around wf contains
    have lives : Lives ctx outer outerNode :=
      ⟨around.found, (fixedName?_inline around).trans (Tree.runtimeString?_of_element element)⟩
    refine ⟨outer, by rw [undeclared, contains]; rfl, ?_⟩
    rw [localResult_of_lives lives, around.namespaceOf wf, outerName]

/-- Where elements come first and no placeholder is set, an anonymous type that is no unbounded string is named after
its owner if the owners lead to a declaration, and is refused a name if they do not. -/
theorem localName_follows_owners (script : List Step) (settings : Settings) (history : List NameQuery)
    (elements : (Tree.ofSteps script).ElementsFirst) (bare : settings.placeholder = none) :
    let ctx : Context := ⟨.ofSteps script, settings⟩
    let name (id : Nat) := answer ctx history (.localName id)
    ∀ id scope node, ctx.tree.node? id = some node → node.scope = some scope → node.kind.isAnonymous = true →
      node.kind.runtimeString? = none →
      (ctx.tree.Owned scope id → ∃ owner base own, ctx.tree.owner? scope id = some owner ∧ name owner = .ok base ∧
        name id = .ok own ∧
          (own = base ++ node.kind.suffix ∨ ∃ k ≥ 1, own = Ada.numbered (base ++ node.kind.suffix) k)) ∧
      (¬ ctx.tree.Owned scope id → name id = .error (.error (.unowned id node.kind))) := by
  intro ctx name id scope node found inside anonymous bounded
  have wf : ctx.tree.WellFormed := Tree.ofSteps_wellFormed script
  have name_eq : ∀ id, name id = localResult ctx id := fun id => answer_eq_result wf history (.localName id)
  have inline : ctx.tree.Inline (ctx.tree.packageOf scope) id scope node := ⟨found, anonymous, inside, rfl⟩
  have lives : Lives ctx id node := ⟨found, (fixedName?_inline inline).trans bounded⟩
  have follows : (assigned ctx (ctx.tree.packageOf scope)).Follows ctx.tree (ctx.tree.packageOf scope) := by
    rw [assigned, show ctx.settings.placeholder = none from bare]
    exact Namespace.assign_follows wf elements _
  have settled : (assigned ctx (ctx.tree.packageOf scope)).Settled id :=
    Namespace.settled_of_servedAnonymous wf (wf.mem_servedAnonymous (inline.listed wf)) found bounded
  have result := localResult_of_lives lives
  rw [inline.namespaceOf wf] at result
  simp only [name_eq]
  constructor
  · intro owned
    obtain ⟨own, given⟩ : ∃ own, (assigned ctx (ctx.tree.packageOf scope)).name? id = some own := by
      rcases settled with named | refused
      · exact Option.isSome_iff_exists.mp named
      · exact absurd owned (follows.refused inline refused)
    obtain ⟨-, base, used, ownerName, rfl⟩ := follows.named inline given
    obtain ⟨owner, first, baseGiven⟩ := localResult_owner wf inline ownerName
    rw [given] at result
    exact ⟨owner, base, _, first, baseGiven, result, Ada.distinct_eq used _⟩
  · intro unowned
    have unnamed : (assigned ctx (ctx.tree.packageOf scope)).name? id = none :=
      Option.eq_none_iff_forall_ne_some.mpr fun own given => unowned (follows.named inline given).1
    have refused : id ∈ (assigned ctx (ctx.tree.packageOf scope)).unowned :=
      settled.resolve_left (by simp [unnamed])
    rwa [unnamed, List.contains_iff_mem.mpr refused] at result

/-- A sequence of sequences in a field, and a decimal type that nothing refers to. -/
theorem localName_follows_owners_in_record :
    let script : List Step :=
      [.module 0 "M", .struct 1 "S", .sequence 2 2 none, .sequence 2 3 none, .field 2 "m" 4, .fixed 2 5 2]
    let t := Tree.ofSteps script
    let name (id : Nat) := answer ⟨t, {}⟩ [.localName 6] (.localName id)
    t.Owned 2 3 ∧ t.owner? 2 3 = some 4 ∧ ¬ t.Owned 2 6 ∧ name 4 = .ok "m_Seq" ∧ name 3 = .ok "m_Seq_Seq" ∧
      (∃ base own, name 4 = .ok base ∧ name 3 = .ok own ∧
        (own = base ++ "_Seq" ∨ ∃ k ≥ 1, own = Ada.numbered (base ++ "_Seq") k)) ∧
      name 6 = .error (.error (.unowned 6 (.fixed 5 2))) := by
  intro script t name
  have owned : t.Owned 2 3 :=
    .contained (by decide +kernel) (by decide +kernel) (.declared (by decide +kernel : t.declaringOwner? 2 4 = some 5))
  have undeclared : t.declaringOwner? 2 6 = none := by decide +kernel
  have alone : t.containingOwner? 2 6 = none := by decide +kernel
  have unowned : ¬ t.Owned 2 6 := by
    intro owned
    cases owned with
    | declared declares => cases undeclared.symm.trans declares
    | contained _ contains => cases alone.symm.trans contains
  have follows := localName_follows_owners script {} [.localName 6] (by decide +kernel) rfl
  have sequence : t.node? 3 = some ⟨"", some 2, .sequence 2 none, [], []⟩ := by decide +kernel
  have decimal : t.node? 6 = some ⟨"", some 2, .fixed 5 2, [], []⟩ := by decide +kernel
  have first : t.owner? 2 3 = some 4 := by decide +kernel
  refine ⟨owned, first, unowned, by decide +kernel, by decide +kernel, ?_, ?_⟩
  · obtain ⟨owner, base, own, found, baseName, ownName, shape⟩ := (follows 3 2 _ sequence rfl rfl rfl).1 owned
    cases first.symm.trans found
    exact ⟨base, own, baseName, ownName, shape⟩
  · exact (follows 6 2 _ decimal rfl rfl rfl).2 unowned

end NameTable

end AdaStubs
