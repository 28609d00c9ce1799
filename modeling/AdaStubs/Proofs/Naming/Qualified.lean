import AdaStubs.Proofs.Ada.Letters
import AdaStubs.Proofs.Naming.Queries

/-!
# Qualified names

The point between the parts of a full name stands in no part, if the names of the tree are IDL identifiers.
So a full name is read in one way only, part by part from the end, and belongs to one declaration.
-/

namespace AdaStubs

namespace Tree

variable {t : Tree}

/-- Whether all declarations go by IDL identifiers. -/
def isSpelled (t : Tree) : Bool :=
  t.ids.all fun scope => (t.members scope).all fun id => Idl.isIdentifier (t.name id)

theorem isIdentifier_of_member (spelled : t.isSpelled = true) {scope id : Nat}
    (listed : id ∈ t.members scope) : Idl.isIdentifier (t.name id) = true := by
  obtain ⟨outer, found, -⟩ := exists_of_mem_members listed
  have known : scope ∈ t.ids := mem_ids_of_kind? (kind?_eq found)
  exact List.all_eq_true.mp (List.all_eq_true.mp spelled scope known) id listed

theorem WellFormed.unit_in_module (wf : t.WellFormed) {unit : Nat}
    (isUnit : t.hasKind Kind.isUnit unit = true) (inner : unit ≠ root) :
    t.kind? (t.enclosingUnit unit) = some .module ∧ unit ∈ t.members (t.enclosingUnit unit) := by
  obtain ⟨node, found, kind⟩ := exists_of_hasKind isUnit
  cases wf.placed found with
  | root first => exact absurd first inner
  | primitive inside primitive | anonymous _ _ inside _ _ primitive =>
    cases shape : node.kind <;> simp_all [Kind.isUnit, Kind.isPrimitive, Kind.isAnonymous]
  | member scope outer inside present held named listed =>
    have module : outer.kind = .module := by
      cases shape : node.kind <;> simp_all [Kind.isUnit, Kind.mayHold]
    have package : t.enclosingUnit unit = scope := by
      rw [wf.enclosingUnit_of_scope found inside, wf.packageOf_unit (by simp [hasKind_eq present, module, Kind.isUnit])]
    rw [package, kind?_eq present, module, members_eq present]
    exact ⟨rfl, listed⟩

end Tree

/-! ## Spellings in a namespace -/

namespace Namespace

variable {t : Tree} {placeholder : Option String} {P : String → Prop}

/-- A property of the spellings that names begin as, kept by what is done to make a name of them. -/
structure Spells (t : Tree) (placeholder : Option String) (P : String → Prop) : Prop where
  declared : ∀ {scope id}, id ∈ t.members scope → P (Ada.identifier (t.name id))
  placeholder : ∀ name ∈ placeholder, P name
  numbered : ∀ {base} k, P base → P (Ada.numbered base k)
  suffixed : ∀ {base} (kind : Kind), P base → P (base ++ kind.suffix)

def Spelled (P : String → Prop) (ns : Namespace) : Prop := ∀ id name, ns.name? id = some name → P name

theorem Spelled.enter (spells : Spells t placeholder P) {ns : Namespace} (spelled : ns.Spelled P) {base : String}
    (holds : P base) (id : Nat) : (ns.enter id base).Spelled P := by
  intro other name given
  rw [name?_enter] at given
  split at given
  · cases given
    rcases Ada.distinct_eq ns.used base with same | ⟨k, -, same⟩
    · rwa [same]
    · rw [same]
      exact spells.numbered k holds
  · exact spelled other name given

theorem Spelled.settle (spells : Spells t placeholder P) {ns : Namespace} (spelled : ns.Spelled P)
    {base : Option String} (holds : ∀ name ∈ base, P name) (id : Nat) (kind : Kind) :
    (ns.settle placeholder id kind base).Spelled P := by
  unfold Namespace.settle
  split
  · exact spelled.enter spells (spells.suffixed kind (holds _ rfl)) id
  · exact spelled.enter spells (spells.placeholder _ rfl) id
  · exact spelled

theorem spelled_declared (spells : Spells t placeholder P) (owner : Nat) : (declared t owner).Spelled P := by
  have members : ∀ id ∈ t.served owner, ∃ scope, id ∈ t.members scope :=
    fun id served => NameTable.mem_members_of_mem_served served
  have spelled : (start t owner).Spelled P := by
    intro id name given
    cases given
  unfold declared enterAll
  generalize t.served owner = ids at members
  generalize start t owner = ns at spelled
  induction ids generalizing ns with
  | nil => exact spelled
  | cons id ids ih =>
    obtain ⟨scope, listed⟩ := members id List.mem_cons_self
    refine ih (fun other among => members other (List.mem_cons_of_mem _ among)) _ ?_
    exact spelled.enter spells (spells.declared listed) id

theorem spelled_enterAnonymous (spells : Spells t placeholder P) {ns : Namespace} (spelled : ns.Spelled P)
    (id : Nat) : (enterAnonymous t placeholder ns id).Spelled P := by
  rw [enterAnonymous]
  split
  · exact spelled
  split
  · exact spelled
  split
  · exact spelled
  split
  · exact spelled
  split
  · next owner _ =>
    exact spelled.settle spells (spelled_declared spells _ owner) id _
  split
  · exact spelled.settle spells (fun name absent => by cases absent) id _
  · next outer _ =>
    have around : (if id < outer ∧ outer < t.size then enterAnonymous t placeholder ns outer else ns).Spelled P := by
      split
      · next later => exact spelled_enterAnonymous spells spelled outer
      · exact spelled
    exact around.settle spells (around outer) id _
termination_by t.size - id

theorem spelled_assign (spells : Spells t placeholder P) (owner : Nat) : (assign t placeholder owner).Spelled P := by
  unfold assign
  have spelled := spelled_declared spells owner
  generalize declared t owner = ns at spelled
  induction t.servedAnonymous owner generalizing ns with
  | nil => exact spelled
  | cons id ids ih => exact ih _ (spelled_enterAnonymous spells spelled id)

theorem mark_not_mem_suffix {mark : Char} (foreign : Ada.isWordChar mark = false) (kind : Kind) :
    mark ∉ kind.suffix.toList := by
  have words : kind.suffix.toList.all Ada.isWordChar = true := by
    unfold Kind.suffix
    split <;> rfl
  intro listed
  have word := List.all_eq_true.mp words mark listed
  simp [foreign] at word

theorem spells_without_mark {mark : Char} (foreign : Ada.isWordChar mark = false) (spelled : t.isSpelled = true)
    (plain : ∀ name ∈ placeholder, mark ∉ name.toList) : Spells t placeholder (mark ∉ ·.toList) where
  declared listed := Ada.mark_not_mem_identifier foreign (Tree.isIdentifier_of_member spelled listed)
  placeholder := plain
  numbered k absent := Ada.mark_not_mem_numbered foreign absent k
  suffixed kind absent := by
    rw [String.toList_append, List.mem_append]
    rintro (inside | added)
    · exact absent inside
    · exact mark_not_mem_suffix foreign kind added

end Namespace

/-! ## Full names part by part -/

namespace NameTable

variable {ctx : Context}

theorem Lives.spelled {P : String → Prop} (spells : Namespace.Spells ctx.tree ctx.settings.placeholder P)
    {id : Nat} {node : Node} (lives : Lives ctx id node) {name : String} (given : localResult ctx id = .ok name) :
    P name :=
  Namespace.spelled_assign spells _ id name (lives.name?_of_result given)

theorem Shares.eq_of_fold (wf : ctx.tree.WellFormed) {id other : Nat} {node otherNode : Node}
    (shares : Shares ctx.tree id node) (otherShares : Shares ctx.tree other otherNode)
    (home : ctx.tree.namespaceOf id = ctx.tree.namespaceOf other) {a b : String}
    (given : localResult ctx id = .ok a) (otherGiven : localResult ctx other = .ok b)
    (same : Ada.fold a = Ada.fold b) : id = other := by
  by_contra differ
  have kept := shares.lives.name?_of_result given
  rw [home] at kept
  have apart := Namespace.assign_apart wf ctx.settings.placeholder (ctx.tree.namespaceOf other)
  exact apart.names_differ kept (otherShares.lives.name?_of_result otherGiven) differ same

theorem fullResult_ok {id : Nat} {full : String} (given : fullResult ctx id = .ok full) :
    ∃ node own, ctx.tree.node? id = some node ∧ localResult ctx id = .ok own ∧
      (ctx.tree.standsAlone id node.kind = true ∧ full = own ∨
        ctx.tree.standsAlone id node.kind = false ∧
          ∃ outer, fullResult ctx (ctx.tree.enclosingUnit id) = .ok outer ∧ full = outer ++ "." ++ own) := by
  rw [fullResult] at given
  cases own : localResult ctx id with
  | error fault =>
    rw [own] at given
    cases given
  | ok name =>
    obtain ⟨node, found⟩ := exists_of_localResult own
    rw [own, need_of_found found] at given
    refine ⟨node, name, found, rfl, ?_⟩
    cases alone : ctx.tree.standsAlone id node.kind with
    | true =>
      have whole := (dif_pos alone).symm.trans given
      exact .inl ⟨rfl, (Except.ok.inj whole).symm⟩
    | false =>
      have parts := (dif_neg (by simp [alone])).symm.trans given
      cases around : fullResult ctx (ctx.tree.enclosingUnit id) with
      | error fault =>
        rw [around] at parts
        cases parts
      | ok outer =>
        rw [around] at parts
        exact .inr ⟨rfl, outer, rfl, (Except.ok.inj parts).symm⟩

theorem append_mark_inj {α : Type} {mark : α} {before other after rest : List α} (plain : mark ∉ after)
    (otherPlain : mark ∉ rest) (same : before ++ mark :: after = other ++ mark :: rest) :
    before = other ∧ after = rest := by
  rcases List.append_eq_append_iff.mp same with ⟨more, longer, tail⟩ | ⟨more, longer, tail⟩
  · cases more with
    | nil => simp_all
    | cons first more => exact absurd (by simp_all) plain
  · cases more with
    | nil => simp_all
    | cons first more => exact absurd (by simp_all) otherPlain

theorem fold_point (outer own : String) :
    (Ada.fold (outer ++ "." ++ own)).toList = (Ada.fold outer).toList ++ '.' :: (Ada.fold own).toList := by
  simp [Ada.toList_fold]

theorem fold_full_inj {outer other own otherOwn : String} (plain : '.' ∉ own.toList)
    (otherPlain : '.' ∉ otherOwn.toList)
    (same : Ada.fold (outer ++ "." ++ own) = Ada.fold (other ++ "." ++ otherOwn)) :
    Ada.fold outer = Ada.fold other ∧ Ada.fold own = Ada.fold otherOwn := by
  have unlettered : '.'.isAlpha = false := by decide
  rw [← Ada.mark_mem_fold_iff unlettered] at plain otherPlain
  have lists := congrArg String.toList same
  rw [fold_point, fold_point] at lists
  obtain ⟨outers, owns⟩ := append_mark_inj plain otherPlain lists
  exact ⟨String.toList_inj.mp outers, String.toList_inj.mp owns⟩

theorem fold_full_ne {outer own plain : String} (pointless : '.' ∉ plain.toList) :
    Ada.fold (outer ++ "." ++ own) ≠ Ada.fold plain := by
  intro same
  have unlettered : '.'.isAlpha = false := by decide
  have pointed : '.' ∈ (Ada.fold (outer ++ "." ++ own)).toList := by simp [fold_point]
  rw [same, Ada.mark_mem_fold_iff unlettered] at pointed
  exact pointless pointed

theorem shares_of_qualified {t : Tree} {id : Nat} {node : Node} (found : t.node? id = some node)
    (inner : id ≠ Tree.root) (qualified : node.kind.isUnqualified = false) : Shares t id node := by
  refine ⟨found, inner, ?_, ?_⟩ <;> cases shape : node.kind <;> rw [shape] at qualified
  case refine_2.string bound wide => cases bound <;> first | rfl | cases qualified
  all_goals first | rfl | cases qualified

theorem isComponent_of_qualified {kind : Kind} (qualified : kind.isUnqualified = false) :
    kind.isComponent = false := by
  cases kind <;> first | rfl | cases qualified

theorem isUnqualified_of_isUnit {t : Tree} {id : Nat} (isUnit : t.hasKind Kind.isUnit id = true) :
    t.hasKind Kind.isUnqualified id = false := by
  obtain ⟨node, found, unit⟩ := Tree.exists_of_hasKind isUnit
  rw [Tree.hasKind_eq found]
  cases shape : node.kind <;> rw [shape] at unit <;> first | rfl | cases unit

/-- The nodes whose full names are compared, a set that holds the packages around its nodes. -/
structure Domain (ctx : Context) (compared : Nat → Prop) : Prop where
  qualified : ∀ {id node}, compared id → ctx.tree.node? id = some node → node.kind.isUnqualified = false
  outer : ∀ {id node}, compared id → ctx.tree.node? id = some node →
    ctx.tree.standsAlone id node.kind = false → compared (ctx.tree.enclosingUnit id)
  plain : ∀ {id own}, compared id → localResult ctx id = .ok own → '.' ∉ own.toList
  root_apart : compared Tree.root → ∀ top ∈ ctx.tree.members Tree.root,
    ctx.tree.hasKind Kind.isUnit top = true →
      (localResult ctx top).map Ada.fold ≠ .ok (Ada.fold ctx.settings.rootPackage)

section Unambiguous

variable {compared : Nat → Prop} {id other : Nat} {node otherNode : Node} {a b : String}

theorem localResult_root (wf : ctx.tree.WellFormed) :
    localResult ctx Tree.root = .ok ctx.settings.rootPackage := by
  obtain ⟨node, found, -, module⟩ := wf.root_node
  exact localResult_of_fixed found (by simp [fixedName?, module])

/-- What stands alone and is qualified elsewhere is the root or a unit directly in it. -/
theorem Domain.top_of_alone (wf : ctx.tree.WellFormed) (domain : Domain ctx compared) (within : compared id)
    (found : ctx.tree.node? id = some node) (alone : ctx.tree.standsAlone id node.kind = true)
    (inner : id ≠ Tree.root) :
    ctx.tree.namespaceOf id = Tree.root ∧ ctx.tree.hasKind Kind.isUnit id = true ∧
      id ∈ ctx.tree.members Tree.root := by
  have qualified := domain.qualified within found
  simp only [Tree.standsAlone, qualified, Bool.or_false, Bool.or_eq_true, beq_iff_eq, inner, false_or,
    Bool.and_eq_true] at alone
  have isUnit : ctx.tree.hasKind Kind.isUnit id = true := by rw [Tree.hasKind_eq found, alone.1]
  have whole : node.kind.isComponent = false := by
    cases shape : node.kind <;> simp_all [Kind.isUnit, Kind.isComponent]
  refine ⟨?_, isUnit, ?_⟩
  · rw [Tree.namespaceOf_whole found whole, alone.2]
  · have listed := (wf.unit_in_module isUnit inner).2
    rwa [alone.2] at listed

theorem Domain.eq_of_fold_alone (wf : ctx.tree.WellFormed) (domain : Domain ctx compared)
    (within : compared id) (otherWithin : compared other) (found : ctx.tree.node? id = some node)
    (otherFound : ctx.tree.node? other = some otherNode)
    (alone : ctx.tree.standsAlone id node.kind = true)
    (otherAlone : ctx.tree.standsAlone other otherNode.kind = true)
    (own : localResult ctx id = .ok a) (otherOwn : localResult ctx other = .ok b)
    (same : Ada.fold a = Ada.fold b) : id = other := by
  by_cases top : id = Tree.root <;> by_cases otherTop : other = Tree.root
  · rw [top, otherTop]
  · subst top
    obtain ⟨-, isUnit, listed⟩ := domain.top_of_alone wf otherWithin otherFound otherAlone otherTop
    cases (localResult_root wf).symm.trans own
    refine absurd ?_ (domain.root_apart within other listed isUnit)
    rw [otherOwn, same]
    rfl
  · subst otherTop
    obtain ⟨-, isUnit, listed⟩ := domain.top_of_alone wf within found alone top
    cases (localResult_root wf).symm.trans otherOwn
    refine absurd ?_ (domain.root_apart otherWithin id listed isUnit)
    rw [own, ← same]
    rfl
  · have home := (domain.top_of_alone wf within found alone top).1
    have otherHome := (domain.top_of_alone wf otherWithin otherFound otherAlone otherTop).1
    have shares := shares_of_qualified found top (domain.qualified within found)
    have otherShares := shares_of_qualified otherFound otherTop (domain.qualified otherWithin otherFound)
    exact shares.eq_of_fold wf otherShares (home.trans otherHome.symm) own otherOwn same

theorem Domain.eq_of_fold (wf : ctx.tree.WellFormed) (domain : Domain ctx compared)
    (within : compared id) (otherWithin : compared other) (given : fullResult ctx id = .ok a)
    (otherGiven : fullResult ctx other = .ok b) (same : Ada.fold a = Ada.fold b) : id = other := by
  induction id using Nat.strongRecOn generalizing other a b with
  | ind id ih =>
    obtain ⟨node, own, found, ownName, shape⟩ := fullResult_ok given
    obtain ⟨otherNode, otherOwn, otherFound, otherName, otherShape⟩ := fullResult_ok otherGiven
    have plain := domain.plain within ownName
    have otherPlain := domain.plain otherWithin otherName
    rcases shape with ⟨alone, rfl⟩ | ⟨inside, outer, around, rfl⟩ <;>
      rcases otherShape with ⟨otherAlone, rfl⟩ | ⟨otherInside, otherOuter, otherAround, rfl⟩
    · exact domain.eq_of_fold_alone wf within otherWithin found otherFound alone otherAlone ownName otherName same
    · exact absurd same.symm (fold_full_ne plain)
    · exact absurd same (fold_full_ne otherPlain)
    · obtain ⟨outers, owns⟩ := fold_full_inj plain otherPlain same
      have inner : id ≠ Tree.root := Tree.ne_root_of_qualified (Bool.eq_false_iff.mp inside)
      have otherInner : other ≠ Tree.root := Tree.ne_root_of_qualified (Bool.eq_false_iff.mp otherInside)
      have package := ih _ (ctx.tree.enclosingUnit_lt inner) (domain.outer within found inside)
        (domain.outer otherWithin otherFound otherInside) around otherAround outers
      have qualified := domain.qualified within found
      have otherQualified := domain.qualified otherWithin otherFound
      have home : ctx.tree.namespaceOf id = ctx.tree.namespaceOf other := by
        rw [Tree.namespaceOf_whole found (isComponent_of_qualified qualified),
          Tree.namespaceOf_whole otherFound (isComponent_of_qualified otherQualified), package]
      exact (shares_of_qualified found inner qualified).eq_of_fold wf
        (shares_of_qualified otherFound otherInner otherQualified) home ownName otherName owns

end Unambiguous

/-- Where the root package goes by a name of its own, no two declarations have the same full name. -/
theorem fullName_apart (script : List Step) (settings : Settings) (history : List NameQuery)
    (spelled : (Tree.ofSteps script).isSpelled = true) (plainRoot : '.' ∉ settings.rootPackage.toList)
    (plainPlaceholder : ∀ name ∈ settings.placeholder, '.' ∉ name.toList)
    (rootApart : ∀ top ∈ (Tree.ofSteps script).members Tree.root,
      (Tree.ofSteps script).hasKind Kind.isUnit top = true →
        (answer ⟨.ofSteps script, settings⟩ history (.localName top)).map Ada.fold ≠
          .ok (Ada.fold settings.rootPackage)) :
    let ctx : Context := ⟨.ofSteps script, settings⟩
    let full (id : Nat) := answer ctx history (.fullName id)
    ∀ id node other otherNode a b, ctx.tree.node? id = some node → ctx.tree.node? other = some otherNode →
      node.kind.isUnqualified = false → otherNode.kind.isUnqualified = false → id ≠ other →
      full id = .ok a → full other = .ok b → Ada.fold a ≠ Ada.fold b := by
  intro ctx full id node other otherNode a b found otherFound qualified otherQualified differ given otherGiven same
  have wf : ctx.tree.WellFormed := Tree.ofSteps_wellFormed script
  have spells := Namespace.spells_without_mark (by decide) spelled plainPlaceholder
  have name_eq : ∀ id, answer ctx history (.localName id) = localResult ctx id :=
    fun id => answer_eq_result wf history (.localName id)
  have domain : Domain ctx fun id => ctx.tree.hasKind Kind.isUnqualified id = false := by
    constructor
    · intro id node within found
      rwa [Tree.hasKind_eq found] at within
    · intro id node within found inside
      exact isUnqualified_of_isUnit (wf.isUnit_enclosingUnit id)
    · intro id own within given
      by_cases top : id = Tree.root
      · subst top
        cases (localResult_root wf).symm.trans given
        exact plainRoot
      · obtain ⟨node, found⟩ := exists_of_localResult given
        rw [Tree.hasKind_eq found] at within
        exact (shares_of_qualified found top within).lives.spelled spells given
    · intro _ top listed isUnit
      rw [← name_eq top]
      exact rootApart top listed isUnit
  refine differ (domain.eq_of_fold wf ?_ ?_ ?_ ?_ same)
  · rw [Tree.hasKind_eq found, qualified]
  · rw [Tree.hasKind_eq otherFound, otherQualified]
  · exact (answer_eq_result wf history (.fullName id)).symm.trans given
  · exact (answer_eq_result wf history (.fullName other)).symm.trans otherGiven

/-- Two modules and a structure that are all declared as `M`, and an anonymous type without an owner. -/
theorem fullName_apart_in_modules :
    let script : List Step := [.module 0 "M", .module 1 "m", .struct 2 "M", .sequence 2 3 none]
    let full (id : Nat) := answer ⟨.ofSteps script, { placeholder := some "M" }⟩ [] (.fullName id)
    full 3 = .ok "M.m.M" ∧ full 4 = .ok "M.m.M_1" ∧ Ada.fold "M.m.M" ≠ Ada.fold "M.m.M_1" := by
  intro script full
  have first : full 3 = .ok "M.m.M" := by decide +kernel
  have second : full 4 = .ok "M.m.M_1" := by decide +kernel
  refine ⟨first, second, ?_⟩
  have apart := fullName_apart script { placeholder := some "M" } [] (by decide +kernel) (by decide)
    (by decide) (by decide +kernel)
  exact apart 3 ⟨"M", some 2, .struct, [], []⟩ 4 ⟨"", some 2, .sequence 3 none, [], []⟩ _ _ (by decide +kernel)
    (by decide +kernel) rfl rfl (by decide) first second

end NameTable

end AdaStubs
