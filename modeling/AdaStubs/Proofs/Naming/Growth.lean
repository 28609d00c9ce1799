import AdaStubs.Proofs.Idl.Listings
import AdaStubs.Proofs.Naming.Queries

/-!
# Names in a growing tree

A namespace gives its names out in order, so a name can change only if something new is served before it. A new
declaration in a package stands behind all that the package holds, and a new component behind the others of its
record. The namespace of the package around the record does not serve it, although the walk over that package meets
it between older declarations.

Main statement: `step_keeps_names`.
-/

namespace AdaStubs

/-- Types that may be declared inside a record. -/
def Kind.isNestable : Kind → Bool
  | .struct | .union _ | .enum | .typedef _ => true
  | _ => false

/-- Whether the step declares a type inside a record, where it comes before later declarations of the package. -/
def Step.nestsType (t : Tree) : Step → Bool
  | .struct scope _ | .union scope _ _ | .enum scope _ _ | .typedef scope _ _ => !t.hasKind Kind.isUnit scope
  | _ => false

/-- What stands in a scope that is no package is a type, a literal of an enumeration or a component. -/
theorem Kind.isUnit_or_isComponent {outer inner : Kind} (held : outer.mayHold inner = true)
    (type : inner.isNestable = true → outer.isUnit = true) (literal : inner ≠ .enumerator) :
    outer.isUnit = true ∨ inner.isComponent = true := by
  cases inner with
  | struct | union | enum | typedef => exact .inl (type rfl)
  | field | branch | argument => exact .inr rfl
  | exception | constant => exact .inl held
  | module | interface =>
    cases eq_of_beq held
    exact .inl rfl
  | «attribute» | operation =>
    cases outer with
    | interface bases => exact .inl rfl
    | _ => cases held
  | enumerator => exact absurd rfl literal
  | sequence | string | fixed | array | primitive => cases held

namespace Tree

/-- The tree `t'` is `t` with further nodes. Those that join a scope of `t` stand behind its members; what joins a
record or an operation is one of its components. -/
structure Later (t t' : Tree) : Prop where
  size_le : t.size ≤ t'.size
  kept : ∀ {id node}, t.node? id = some node →
    ∃ node', t'.node? id = some node' ∧ node'.name = node.name ∧ node'.scope = node.scope ∧ node'.kind = node.kind
  joined : ∀ {id}, id < t.size → ∃ more, t'.members id = t.members id ++ more ∧
    ∀ member ∈ more, t.size ≤ member ∧ (t.hasKind Kind.isUnit id = true ∨ t'.hasKind Kind.isComponent member = true)

/-! ## Steps -/

theorem Later.refl (t : Tree) : t.Later t where
  size_le := Nat.le_refl _
  kept found := ⟨_, found, rfl, rfl, rfl⟩
  joined _ := ⟨[], (List.append_nil _).symm, by simp⟩

theorem members_add {t : Tree} {listing : Listing} {scope : Nat} {inside : scope < t.size} {name : String}
    {kind : Kind} {id : Nat} (old : id < t.size) :
    (t.add listing scope inside name kind).members id =
      t.members id ++ if scope = id ∧ listing = .member then [t.size] else [] := by
  have found : t.node? id = some _ := Array.getElem?_eq_getElem old
  rw [members_eq (node?_add_old found), joined_members, members_eq found]
  split <;> simp

theorem Later.add {t t' : Tree} (later : t.Later t') {listing : Listing} {scope : Nat} {inside : scope < t'.size}
    {name : String} {kind : Kind}
    (placed : scope < t.size → listing = .member → t.hasKind Kind.isUnit scope = true ∨ kind.isComponent = true) :
    t.Later (t'.add listing scope inside name kind) where
  size_le := by
    rw [size_add]
    exact Nat.le_succ_of_le later.size_le
  kept found := by
    obtain ⟨node', found', sameName, sameScope, sameKind⟩ := later.kept found
    exact ⟨_, node?_add_old found', by simpa using sameName, by simpa using sameScope, by simpa using sameKind⟩
  joined {id} old := by
    obtain ⟨more, members, new⟩ := later.joined old
    refine ⟨_, by rw [members_add (Nat.lt_of_lt_of_le old later.size_le), members, List.append_assoc], ?_⟩
    intro member listed
    rcases List.mem_append.mp listed with earlier | last
    · obtain ⟨behind, component⟩ := new member earlier
      refine ⟨behind, component.imp_right fun isComponent => ?_⟩
      obtain ⟨node, found, holds⟩ := exists_of_hasKind isComponent
      rw [hasKind_eq (node?_add_old found), joined_kind, holds]
    · split at last
      · next joins =>
        obtain ⟨rfl, isMember⟩ := joins
        rw [List.mem_singleton.mp last, hasKind_eq node?_add_new]
        exact ⟨later.size_le, placed old isMember⟩
      · cases last

theorem Later.declareAll {t t' : Tree} (later : t.Later t') {scope : Nat} (new : t.size ≤ scope) (kind : Kind)
    (names : List String) : t.Later (t'.declareAll scope kind names).2 := by
  induction names generalizing t' with
  | nil => exact later
  | cons name names ih =>
    unfold Tree.declareAll
    cases accepted : t'.declare scope name kind with
    | error e => exact later
    | ok grown =>
      obtain ⟨outer, inside, -, -, rfl⟩ := declare_ok accepted
      exact ih (later.add fun old => absurd old (Nat.not_lt_of_le new))

theorem Later.declare {t grown : Tree} {scope : Nat} {name : String} {kind : Kind}
    (accepted : t.declare scope name kind = .ok grown)
    (type : kind.isNestable = true → t.hasKind Kind.isUnit scope = true) (literal : kind ≠ .enumerator) :
    t.Later grown := by
  obtain ⟨outer, inside, found, admissible, rfl⟩ := declare_ok accepted
  refine (Later.refl t).add fun _ _ => ?_
  rw [hasKind_eq found] at type ⊢
  cases admissible with
  | member held named => exact Kind.isUnit_or_isComponent held type literal

theorem Later.settle {t : Tree} {result : Except BuildError Tree}
    (kept : ∀ {grown}, result = .ok grown → t.Later grown) : t.Later (t.settle result).2 := by
  cases result with
  | ok grown => exact kept rfl
  | error e => exact .refl t

theorem later_step {t : Tree} {s : Step} (outer : s.nestsType t = false) : t.Later (t.step s).2 := by
  have unlisted {listing : Listing} {scope : Nat} (inside : scope < t.size) {name : String} {kind : Kind}
      (other : listing ≠ .member) : t.Later (t.add listing scope inside name kind) :=
    (Later.refl t).add fun _ isMember => absurd isMember other
  have anonymous : ∀ {scope kind}, kind.isAnonymous = true →
      t.Later (t.settle (t.declareAnonymous scope kind)).2 := by
    intro scope kind isAnonymous
    refine .settle fun accepted => ?_
    obtain ⟨outer, inside, -, -, rfl⟩ := declareAnonymous_ok isAnonymous accepted
    exact unlisted inside (by simp)
  cases s with
  | primitive p =>
    show t.Later (t.addPrimitive p).2
    unfold addPrimitive
    cases t.primitive? p with
    | some id => exact .refl t
    | none => exact unlisted t.root_lt (by simp)
  | enum scope name enumerators =>
    show t.Later (t.addEnum scope name enumerators).2
    unfold addEnum
    cases accepted : t.declare scope name .enum with
    | error e => exact .refl t
    | ok grown =>
      have later : t.Later grown := .declare accepted (fun _ => by simpa [Step.nestsType] using outer) (by simp)
      have all := later.declareAll (Nat.le_refl _) .enumerator enumerators
      dsimp only
      split
      · next result => rwa [result] at all
      · next result => rwa [result] at all
  | struct | union | typedef =>
    exact .settle fun accepted => .declare accepted (fun _ => by simpa [Step.nestsType] using outer) (by simp)
  | array | sequence | string | fixed => exact anonymous rfl
  | _ => exact .settle fun accepted => .declare accepted (fun nestable => by cases nestable) (by simp)

/-! ## Positions -/

theorem enclosingUnit_root (t : Tree) : t.enclosingUnit root = root := by
  have top : t.ancestors root = [] :=
    List.eq_nil_iff_forall_not_mem.mpr fun _ above => absurd (t.lt_of_mem_ancestors above) (Nat.not_lt_zero _)
  rw [enclosingUnit, top]
  rfl

theorem namespaceOf_le (t : Tree) (id : Nat) : t.namespaceOf id ≤ id := by
  unfold namespaceOf
  split
  · cases found : t.node? id with
    | none => exact Nat.zero_le _
    | some node =>
      cases inside : node.scope with
      | none => simp [inside, root]
      | some scope => simpa [inside] using Nat.le_of_lt (t.scope_lt found inside)
  · by_cases top : id = root
    · have same : t.enclosingUnit id = id := by rw [top, enclosingUnit_root]
      exact Nat.le_of_eq same
    · exact Nat.le_of_lt (t.enclosingUnit_lt top)

theorem lt_of_mem_contents {t : Tree} {id inner : Nat} (listed : inner ∈ t.contents id) : id < inner := by
  induction id using t.members_induction with
  | step id ih =>
    obtain ⟨member, among, within⟩ := mem_contents.mp listed
    obtain ⟨node, found, direct⟩ := exists_of_mem_members among
    have above := t.lt_member found direct
    rcases within with rfl | ⟨-, deeper⟩
    · exact above
    · exact Nat.lt_trans above (ih member among deeper)

/-- A component is met on the way but not served. -/
theorem WellFormed.filter_component {t : Tree} (wf : t.WellFormed) {unit scope member : Nat} (apart : scope ≠ unit)
    (listed : member ∈ t.members scope) (component : t.hasKind Kind.isComponent member = true) :
    (member :: if t.hasKind Kind.isInnerScope member then t.contents member else []).filter
      (t.namespaceOf · == unit) = [] := by
  obtain ⟨outer, node, -, found, inside, -⟩ := wf.member_inside listed
  rw [hasKind_eq found] at component
  have leaf : t.hasKind Kind.isInnerScope member = false := by
    rw [hasKind_eq found]
    cases shape : node.kind <;> simp_all [Kind.isComponent, Kind.isInnerScope, Kind.isScope]
  simp [leaf, namespaceOf_component found inside component, apart]

namespace Later

variable {t t' : Tree} (later : t.Later t') {id : Nat}
include later

theorem hasKind_eq (old : id < t.size) (p : Kind → Bool) : t'.hasKind p id = t.hasKind p id := by
  have found : t.node? id = some _ := Array.getElem?_eq_getElem old
  obtain ⟨node', found', -, -, sameKind⟩ := later.kept found
  rw [Tree.hasKind_eq found', Tree.hasKind_eq found, sameKind]

theorem name_eq (old : id < t.size) : t'.name id = t.name id := by
  have found : t.node? id = some _ := Array.getElem?_eq_getElem old
  obtain ⟨node', found', sameName, -, -⟩ := later.kept found
  simp [Tree.name, found', found, sameName]

theorem seeds_eq (old : id < t.size) : t'.seeds id = t.seeds id := by
  have found : t.node? id = some _ := Array.getElem?_eq_getElem old
  obtain ⟨node', found', -, -, sameKind⟩ := later.kept found
  rw [Tree.seeds, Tree.seeds, kind?_eq found', kind?_eq found, sameKind]

variable (wf : t.WellFormed) (wf' : t'.WellFormed)
include wf wf'

theorem enclosingUnit_eq (old : id < t.size) : t'.enclosingUnit id = t.enclosingUnit id := by
  induction id using Nat.strongRecOn with
  | ind id ih =>
    by_cases top : id = root
    · rw [top, enclosingUnit_root, enclosingUnit_root]
    · obtain ⟨node, found⟩ : ∃ node, t.node? id = some node := ⟨_, Array.getElem?_eq_getElem old⟩
      obtain ⟨scope, outer, inside, above, -⟩ := wf.stands found top
      obtain ⟨node', found', -, sameScope, -⟩ := later.kept found
      have scopeOld : scope < t.size := Nat.lt_trans above old
      rw [wf.enclosingUnit_of_scope found inside, wf'.enclosingUnit_of_scope found' (sameScope.trans inside),
        wf.packageOf_eq, wf'.packageOf_eq, later.hasKind_eq scopeOld, ih scope above scopeOld]

theorem namespaceOf_eq (old : id < t.size) : t'.namespaceOf id = t.namespaceOf id := by
  have found : t.node? id = some _ := Array.getElem?_eq_getElem old
  obtain ⟨node', found', -, sameScope, -⟩ := later.kept found
  unfold namespaceOf
  rw [later.hasKind_eq old, later.enclosingUnit_eq wf wf' old, found', found, Option.bind_some, Option.bind_some,
    sameScope]

/-! ## What a namespace serves -/

/-- A member that is served along with what stands in it. -/
theorem filter_member {unit member : Nat} (old : member < t.size)
    (deeper : t.hasKind Kind.isInnerScope member = true →
      (t'.contents member).filter (t'.namespaceOf · == unit) = (t.contents member).filter (t.namespaceOf · == unit)) :
    (member :: if t'.hasKind Kind.isInnerScope member then t'.contents member else []).filter
        (t'.namespaceOf · == unit) =
      (member :: if t.hasKind Kind.isInnerScope member then t.contents member else []).filter
        (t.namespaceOf · == unit) := by
  rw [List.filter_cons, List.filter_cons, later.namespaceOf_eq wf wf' old, later.hasKind_eq old]
  split <;> split <;> simp_all

theorem filter_contents {unit scope : Nat} (isUnit : t.hasKind Kind.isUnit unit = true) (old : scope < t.size)
    (record : t.hasKind Kind.isUnit scope = false) :
    (t'.contents scope).filter (t'.namespaceOf · == unit) = (t.contents scope).filter (t.namespaceOf · == unit) := by
  induction scope using t.members_induction with
  | step scope ih =>
    obtain ⟨more, members, new⟩ := later.joined old
    have apart : scope ≠ unit := by
      rintro rfl
      cases record.symm.trans isUnit
    rw [contents_eq, contents_eq, List.filter_flatMap, List.filter_flatMap, members, List.flatMap_append]
    have unserved : more.flatMap (fun member => (member :: if t'.hasKind Kind.isInnerScope member then
        t'.contents member else []).filter (t'.namespaceOf · == unit)) = [] := by
      refine List.flatMap_eq_nil_iff.mpr fun member listed => ?_
      have component := (new member listed).2.resolve_left (by simp [record])
      exact wf'.filter_component apart (by simp [members, listed]) component
    rw [unserved, List.append_nil]
    refine List.flatMap_congr fun member listed => ?_
    obtain ⟨-, node, -, found, -⟩ := wf.member_inside listed
    have memberOld := lt_size_of_node? found
    exact later.filter_member wf wf' memberOld fun inner =>
      ih member listed memberOld (isUnit_eq_false_of_isInnerScope inner)

theorem served_eq {owner : Nat} (old : owner < t.size) :
    ∃ more, t'.served owner = t.served owner ++ more ∧ ∀ id ∈ more, t.size ≤ id := by
  obtain ⟨more, members, new⟩ := later.joined old
  have known {member : Nat} (listed : member ∈ t.members owner) : member < t.size := by
    obtain ⟨-, node, -, found, -⟩ := wf.member_inside listed
    exact lt_size_of_node? found
  unfold served
  rw [wf.opensPackage_eq, wf'.opensPackage_eq, later.hasKind_eq old]
  cases isUnit : t.hasKind Kind.isUnit owner with
  | false =>
    refine ⟨more.filter (t'.namespaceOf · == owner), ?_, fun id listed => (new id (List.mem_of_mem_filter listed)).1⟩
    rw [if_neg Bool.false_ne_true, if_neg Bool.false_ne_true, members, List.filter_append]
    congr 1
    exact List.filter_congr fun id listed => by rw [later.namespaceOf_eq wf wf' (known listed)]
  | true =>
    refine ⟨(more.flatMap fun member => member :: if t'.hasKind Kind.isInnerScope member then
      t'.contents member else []).filter (t'.namespaceOf · == owner), ?_, ?_⟩
    · rw [if_pos rfl, if_pos rfl, contents_eq, contents_eq, members, List.flatMap_append, List.filter_append]
      congr 1
      rw [List.filter_flatMap, List.filter_flatMap]
      refine List.flatMap_congr fun member listed => ?_
      exact later.filter_member wf wf' (known listed) fun inner =>
        later.filter_contents wf wf' isUnit (known listed) (isUnit_eq_false_of_isInnerScope inner)
    · intro id listed
      obtain ⟨member, among, within⟩ := List.mem_flatMap.mp (List.mem_of_mem_filter listed)
      have behind := (new member among).1
      rcases List.mem_cons.mp within with rfl | deeper
      · exact behind
      · split at deeper
        · exact Nat.le_trans behind (Nat.le_of_lt (lt_of_mem_contents deeper))
        · cases deeper

end Later

end Tree

/-! ## Names -/

/-- What is served later finds the names of the others given out. -/
theorem Tree.Later.name?_declared {t t' : Tree} (later : t.Later t') (wf : t.WellFormed) (wf' : t'.WellFormed)
    {owner id : Nat} (old : owner < t.size) (known : id < t.size) :
    (Namespace.declared t' owner).name? id = (Namespace.declared t owner).name? id := by
  obtain ⟨more, served, new⟩ := later.served_eq wf wf' old
  have start : Namespace.start t' owner = Namespace.start t owner := by
    rw [Namespace.start, Namespace.start, later.seeds_eq old]
  have earlier (ns : Namespace) : ns.enterAll t' (t.served owner) = ns.enterAll t (t.served owner) := by
    refine List.foldl_ext _ _ _ fun ns member listed => ?_
    obtain ⟨scope, among⟩ := NameTable.mem_members_of_mem_served listed
    obtain ⟨-, node, -, found, -⟩ := wf.member_inside among
    rw [later.name_eq (lt_size_of_node? found)]
  have absent : id ∉ more := fun listed => absurd known (Nat.not_lt_of_le (new id listed))
  calc (Namespace.declared t' owner).name? id
      = (((Namespace.start t owner).enterAll t' (t.served owner)).enterAll t' more).name? id := by
        rw [Namespace.declared, start, served, Namespace.enterAll, List.foldl_append]
        rfl
    _ = ((Namespace.start t owner).enterAll t' (t.served owner)).name? id :=
        Namespace.name?_enterAll_of_not_mem absent _
    _ = (Namespace.declared t owner).name? id := by rw [earlier, Namespace.declared]

namespace NameTable

variable {t t' : Tree} {settings : Settings} (later : t.Later t') (wf : t.WellFormed) (wf' : t'.WellFormed)
  {id : Nat} {node : Node} (found : t.node? id = some node) (named : node.kind.isAnonymous = false)
include later wf wf' found named

theorem localResult_later : localResult ⟨t', settings⟩ id = localResult ⟨t, settings⟩ id := by
  obtain ⟨node', found', -, -, sameKind⟩ := later.kept found
  cases fixed : fixedName? ⟨t, settings⟩ id node.kind with
  | some name =>
    have fixed' : fixedName? ⟨t', settings⟩ id node'.kind = some name := by rw [sameKind]; exact fixed
    rw [localResult_of_fixed found fixed, localResult_of_fixed found' fixed']
  | none =>
    have lives : Lives ⟨t, settings⟩ id node := ⟨found, fixed⟩
    have lives' : Lives ⟨t', settings⟩ id node' := ⟨found', by rw [sameKind]; exact fixed⟩
    obtain ⟨scope, listed⟩ : ∃ scope, id ∈ t.members scope := by
      rcases lives.placed wf with ⟨-, listed⟩ | ⟨anonymous, -⟩
      · exact listed
      · exact absurd anonymous (by simp [named])
    obtain ⟨name, given⟩ := Namespace.exists_name_of_served (wf.mem_served listed)
    have known := Tree.lt_size_of_node? found
    have given' : (Namespace.declared t' (t'.namespaceOf id)).name? id = some name := by
      rw [later.namespaceOf_eq wf wf' known, later.name?_declared wf wf' ?_ known, given]
      exact Nat.lt_of_le_of_lt (t.namespaceOf_le id) known
    rw [localResult_of_declared wf lives named given,
      localResult_of_declared wf' lives' (by rw [sameKind, named]) given']

theorem fullResult_later : fullResult ⟨t', settings⟩ id = fullResult ⟨t, settings⟩ id := by
  induction id using Nat.strongRecOn generalizing node with
  | ind id ih =>
    obtain ⟨node', found', -, -, sameKind⟩ := later.kept found
    have known := Tree.lt_size_of_node? found
    have alone : t'.standsAlone id node'.kind = t.standsAlone id node.kind := by
      rw [Tree.standsAlone, Tree.standsAlone, sameKind, later.enclosingUnit_eq wf wf' known]
    obtain ⟨own, given⟩ : ∃ own, localResult ⟨t, settings⟩ id = .ok own := localResult_of_named wf found named
    have given' := (localResult_later later wf wf' found named).trans given
    by_cases single : t.standsAlone id node.kind = true
    · rw [fullResult_of_alone found given single, fullResult_of_alone found' given' (alone.trans single)]
    · have above := t.enclosingUnit_lt (Tree.ne_root_of_qualified single)
      obtain ⟨outer, around, isUnit⟩ := Tree.exists_of_hasKind (wf.isUnit_enclosingUnit id)
      have same := ih _ above around (Kind.isAnonymous_eq_false_of_isUnit isUnit)
      rw [fullResult_of_qualified found given single, fullResult_of_qualified found' given' (alone ▸ single)]
      show (fullResult _ (t'.enclosingUnit id) >>= _) = _
      rw [later.enclosingUnit_eq wf wf' known, same]

end NameTable

theorem Tree.ofSteps_concat (script : List Step) (s : Step) :
    ofSteps (script ++ [s]) = ((ofSteps script).step s).2 := by
  have walk : ∀ (t : Tree), (t.steps (script ++ [s])).2 = ((t.steps script).2.step s).2 := by
    induction script with
    | nil => exact fun t => rfl
    | cons first script ih => exact fun t => ih (t.step first).2
  exact walk .initial

namespace NameTable

/-- One more step renames no declaration, whatever the tables of the two trees have been asked, unless it declares a
type inside a record. -/
theorem step_keeps_names (script : List Step) (s : Step) (outer : s.nestsType (.ofSteps script) = false)
    (settings : Settings) (history later : List NameQuery) :
    let before : Context := ⟨.ofSteps script, settings⟩
    let after : Context := ⟨.ofSteps (script ++ [s]), settings⟩
    ∀ id node, before.tree.node? id = some node → node.kind.isAnonymous = false →
      (∃ own, answer before history (.localName id) = .ok own ∧ answer after later (.localName id) = .ok own) ∧
      ∃ full, answer before history (.fullName id) = .ok full ∧ answer after later (.fullName id) = .ok full := by
  intro before after id node found named
  have wf : before.tree.WellFormed := Tree.ofSteps_wellFormed script
  have wf' : after.tree.WellFormed := Tree.ofSteps_wellFormed (script ++ [s])
  have grown : before.tree.Later after.tree := by
    show Tree.Later _ (Tree.ofSteps (script ++ [s]))
    rw [Tree.ofSteps_concat]
    exact Tree.later_step outer
  obtain ⟨own, ownGiven⟩ := localResult_of_named wf found named
  obtain ⟨full, fullGiven⟩ := fullResult_of_named wf found named
  have ownKept : localResult after id = localResult before id := localResult_later grown wf wf' found named
  have fullKept : fullResult after id = fullResult before id := fullResult_later grown wf wf' found named
  refine ⟨⟨own, ?_, ?_⟩, full, ?_, ?_⟩
  · exact (answer_eq_result wf history (.localName id)).trans ownGiven
  · exact (answer_eq_result wf' later (.localName id)).trans (ownKept.trans ownGiven)
  · exact (answer_eq_result wf history (.fullName id)).trans fullGiven
  · exact (answer_eq_result wf' later (.fullName id)).trans (fullKept.trans fullGiven)

/-- A component that bears the name of a structure, and is met before it on the walk over the package. -/
theorem field_keeps_name_of_structure :
    let script : List Step := [.module 0 "M", .struct 1 "S", .struct 1 "x"]
    let after : Context := ⟨.ofSteps (script ++ [.field 2 "X" 3]), {}⟩
    after.tree.contents 1 = [2, 4, 3] ∧
      answer after [] (.localName 4) = .ok "X" ∧ answer after [] (.localName 3) = .ok "x" := by
  intro script after
  refine ⟨by decide +kernel, by decide +kernel, ?_⟩
  obtain ⟨⟨own, before, kept⟩, -⟩ := step_keeps_names script (.field 2 "X" 3) (by decide) {} [] [] 3
    ⟨"x", some 1, .struct, [], []⟩ (by decide +kernel) rfl
  have same : Except.ok own = Except.ok "x" := before.symm.trans (by decide +kernel)
  rw [← same]
  exact kept

end NameTable

end AdaStubs
