import AdaStubs.Proofs.Naming.Assignment
import AdaStubs.Proofs.Run

/-!
# Tables hold the assignment

What a table keeps while it is asked and grows, namespace by namespace. A view says what each namespace
holds: between calls everything or nothing, and while a package is being served, the part of it that has
been served. Main statements:

* `localName_run`, `fullName_run`: whatever a table has been asked before, it answers what the assignment
  says, and is again a table that holds the assignment.
-/

namespace AdaStubs.NameTable

variable {ctx : Context}

/-- A node that gets its name in a namespace. -/
structure Lives (ctx : Context) (id : Nat) (node : Node) : Prop where
  found : ctx.tree.node? id = some node
  free : fixedName? ctx id node.kind = none

/-- The table holds, of each namespace, what the view says. -/
structure Holds (ctx : Context) (view : Nat → Namespace) (table : NameTable) : Prop where
  known : ∀ {id name}, table.local? id = some name → ∃ node, ctx.tree.node? id = some node
  fixed : ∀ {id node name}, ctx.tree.node? id = some node → fixedName? ctx id node.kind = some name →
    ∀ {kept}, table.local? id = some kept → kept = name
  names : ∀ {id node}, Lives ctx id node →
    table.local? id = (view (ctx.tree.namespaceOf id)).name? id
  unowned : ∀ {id node}, Lives ctx id node →
    (id ∈ table.unowned ↔ id ∈ (view (ctx.tree.namespaceOf id)).unowned)

/-- The view with one namespace replaced. -/
def replaced (view : Nat → Namespace) (owner : Nat) (ns : Namespace) : Nat → Namespace :=
  fun other => if other = owner then ns else view other

@[simp] theorem replaced_same (view : Nat → Namespace) (owner : Nat) (ns : Namespace) :
    replaced view owner ns owner = ns := if_pos rfl

theorem replaced_other (view : Nat → Namespace) {owner other : Nat} (ns : Namespace)
    (differ : other ≠ owner) : replaced view owner ns other = view other := if_neg differ

@[simp] theorem replaced_replaced (view : Nat → Namespace) (owner : Nat) (ns ns' : Namespace) :
    replaced (replaced view owner ns) owner ns' = replaced view owner ns' := by
  funext other
  unfold replaced
  split <;> rfl

theorem local?_cons (table : NameTable) (id other : Nat) (name : String) :
    ({ table with locals := (id, name) :: table.locals } : NameTable).local? other =
      if other = id then some name else table.local? other := by
  simp only [local?, List.lookup_cons]
  by_cases same : other = id
  · simp [same]
  · simp [same, beq_false_of_ne same]

/-! ## Entering and refusing -/

section Steps

variable {view : Nat → Namespace} {table : NameTable} {id : Nat} {node : Node}

theorem Holds.keepLocal (holds : Holds ctx view table) (lives : Lives ctx id node) (base : String) :
    Holds ctx (replaced view (ctx.tree.namespaceOf id) ((view (ctx.tree.namespaceOf id)).enter id base))
      { table with locals :=
        (id, Ada.distinct (view (ctx.tree.namespaceOf id)).used base) :: table.locals } := by
  constructor
  · intro other name found
    rw [local?_cons] at found
    split at found
    · next same => exact ⟨node, same ▸ lives.found⟩
    · exact holds.known found
  · intro other otherNode name found fixed kept keptName
    rw [local?_cons] at keptName
    split at keptName
    · next same =>
      subst same
      cases lives.found.symm.trans found
      exact absurd (lives.free.symm.trans fixed) (by simp)
    · exact holds.fixed found fixed keptName
  · intro other otherNode otherLives
    rw [local?_cons]
    by_cases same : other = id
    · subst same
      simp [Namespace.name?_enter]
    · rw [if_neg same, holds.names otherLives]
      by_cases sameOwner : ctx.tree.namespaceOf other = ctx.tree.namespaceOf id
      · rw [sameOwner, replaced_same, Namespace.name?_enter, if_neg same]
      · rw [replaced_other _ _ sameOwner]
  · intro other otherNode otherLives
    refine (holds.unowned otherLives).trans ?_
    by_cases sameOwner : ctx.tree.namespaceOf other = ctx.tree.namespaceOf id
    · rw [sameOwner, replaced_same, Namespace.unowned_enter]
    · rw [replaced_other _ _ sameOwner]

theorem Holds.refuse (holds : Holds ctx view table) (lives : Lives ctx id node) :
    Holds ctx (replaced view (ctx.tree.namespaceOf id) ((view (ctx.tree.namespaceOf id)).refuse id))
      { table with unowned := id :: table.unowned } := by
  constructor
  · exact holds.known
  · exact holds.fixed
  · intro other otherNode otherLives
    refine (holds.names otherLives).trans ?_
    by_cases sameOwner : ctx.tree.namespaceOf other = ctx.tree.namespaceOf id
    · rw [sameOwner, replaced_same, Namespace.name?_refuse]
    · rw [replaced_other _ _ sameOwner]
  · intro other otherNode otherLives
    have earlier := holds.unowned otherLives
    by_cases same : other = id
    · subst same
      simp [Namespace.refuse]
    · by_cases sameOwner : ctx.tree.namespaceOf other = ctx.tree.namespaceOf id
      · rw [sameOwner] at earlier
        simp [Namespace.refuse, sameOwner, same, earlier]
      · rw [replaced_other _ _ sameOwner]
        simp [same, earlier]

theorem Holds.enter_run (holds : Holds ctx view table) (lives : Lives ctx id node)
    {owner : Nat} (home : ctx.tree.namespaceOf id = owner) (base : String) :
    ∃ after, enter (view owner).used id base table = .ok ((view owner).enter id base).used after ∧
      Holds ctx (replaced view owner ((view owner).enter id base)) after ∧
      after.opened = table.opened ∧ after.fulls = table.fulls := by
  subst home
  exact ⟨_, rfl, holds.keepLocal lives base, rfl, rfl⟩

theorem Holds.settle_run (holds : Holds ctx view table) (lives : Lives ctx id node)
    {owner : Nat} (home : ctx.tree.namespaceOf id = owner) (kind : Kind) (base : Option String) :
    ∃ after, settle ctx (view owner).used id kind base table =
        .ok ((view owner).settle ctx.settings.placeholder id kind base).used after ∧
      Holds ctx (replaced view owner ((view owner).settle ctx.settings.placeholder id kind base)) after ∧
      after.opened = table.opened ∧ after.fulls = table.fulls := by
  unfold settle Namespace.settle
  cases base with
  | some base => exact holds.enter_run lives home _
  | none =>
    cases ctx.settings.placeholder with
    | some placeholder => exact holds.enter_run lives home _
    | none =>
      subst home
      exact ⟨_, rfl, holds.refuse lives, rfl, rfl⟩

end Steps

/-! ## Declarations -/

theorem Holds.enterAll_run {owner : Nat} {ids : List Nat} {view : Nat → Namespace} {table : NameTable}
    (holds : Holds ctx view table)
    (living : ∀ id ∈ ids, ∃ node, Lives ctx id node ∧ ctx.tree.namespaceOf id = owner) :
    ∃ after, enterAll ctx (view owner).used ids table = .ok ((view owner).enterAll ctx.tree ids).used after ∧
      Holds ctx (replaced view owner ((view owner).enterAll ctx.tree ids)) after ∧
      after.opened = table.opened ∧ after.fulls = table.fulls := by
  induction ids generalizing view table with
  | nil =>
    have same : replaced view owner (view owner) = view := by
      funext other
      unfold replaced
      split
      · next same => rw [same]
      · rfl
    exact ⟨table, rfl, by rwa [Namespace.enterAll, List.foldl_nil, same], rfl, rfl⟩
  | cons id ids ih =>
    obtain ⟨node, lives, home⟩ := living id List.mem_cons_self
    obtain ⟨middle, first, held, opened, fulls⟩ :=
      holds.enter_run lives home (Ada.identifier (ctx.tree.name id))
    obtain ⟨after, rest, heldAfter, openedAfter, fullsAfter⟩ :=
      ih held fun other listed => living other (List.mem_cons_of_mem _ listed)
    rw [replaced_same] at rest heldAfter
    rw [replaced_replaced] at heldAfter
    refine ⟨after, ?_, heldAfter, openedAfter.trans opened, fullsAfter.trans fulls⟩
    unfold enterAll at rest ⊢
    rw [List.foldlM_cons, Run.bind_of_ok first, rest]
    rfl

theorem lives_of_member (wf : ctx.tree.WellFormed) {scope id : Nat} (listed : id ∈ ctx.tree.members scope) :
    ∃ node, Lives ctx id node ∧ node.kind.isAnonymous = false := by
  obtain ⟨outer, node, around, found, inside, held⟩ := wf.member_inside listed
  have inner : id ≠ Tree.root := Nat.ne_of_gt (Nat.zero_lt_of_lt (ctx.tree.scope_lt found inside))
  refine ⟨node, ⟨found, ?_⟩, ?_⟩
  · unfold fixedName?
    cases shape : node.kind <;> simp_all [Kind.mayHold, Kind.runtimeString?]
  · cases shape : node.kind <;> simp_all [Kind.mayHold, Kind.isAnonymous]

theorem mem_members_of_mem_contents {t : Tree} {scope id : Nat} (listed : id ∈ t.contents scope) :
    ∃ outer, id ∈ t.members outer := by
  induction scope using t.members_induction with
  | step scope ih =>
    obtain ⟨member, among, same | ⟨-, further⟩⟩ := Tree.mem_contents.mp listed
    · exact ⟨scope, same ▸ among⟩
    · exact ih member among further

theorem mem_members_of_mem_served {t : Tree} {owner id : Nat} (served : id ∈ t.served owner) :
    ∃ scope, id ∈ t.members scope := by
  have listed := (List.mem_filter.mp served).1
  split at listed
  · exact mem_members_of_mem_contents listed
  · exact ⟨owner, listed⟩

theorem lives_of_served (wf : ctx.tree.WellFormed) {owner id : Nat} (served : id ∈ ctx.tree.served owner) :
    ∃ node, Lives ctx id node ∧ ctx.tree.namespaceOf id = owner := by
  obtain ⟨scope, listed⟩ := mem_members_of_mem_served served
  obtain ⟨node, lives, -⟩ := lives_of_member wf listed
  exact ⟨node, lives, by simpa using (List.mem_filter.mp served).2⟩

/-- A namespace that holds nothing. -/
structure IsBlank (ns : Namespace) : Prop where
  names : ns.names = []
  unowned : ns.unowned = []

theorem Holds.markOpened {owner : Nat} {view : Nat → Namespace} {table : NameTable}
    (holds : Holds ctx view table) (blank : IsBlank (view owner)) :
    Holds ctx (replaced view owner (.start ctx.tree owner))
      { table with opened := owner :: table.opened } := by
  have nothing : ∀ id, (view owner).name? id = none := by
    intro id
    rw [Namespace.name?, blank.names]
    rfl
  constructor
  · exact holds.known
  · exact holds.fixed
  · intro id node lives
    refine (holds.names lives).trans ?_
    by_cases home : ctx.tree.namespaceOf id = owner
    · rw [home, replaced_same, nothing, Namespace.name?_start]
    · rw [replaced_other _ _ home]
  · intro id node lives
    refine (holds.unowned lives).trans ?_
    by_cases home : ctx.tree.namespaceOf id = owner
    · rw [home, replaced_same, blank.unowned]
      rfl
    · rw [replaced_other _ _ home]

theorem Holds.declared_run (wf : ctx.tree.WellFormed) {owner : Nat} {view : Nat → Namespace}
    {table : NameTable} (holds : Holds ctx view table) (blank : IsBlank (view owner)) :
    ∃ after, enterAll ctx ((ctx.tree.seeds owner).map Ada.fold) (ctx.tree.served owner)
        { table with opened := owner :: table.opened } =
          .ok (Namespace.declared ctx.tree owner).used after ∧
      Holds ctx (replaced view owner (.declared ctx.tree owner)) after ∧
      after.opened = owner :: table.opened ∧ after.fulls = table.fulls := by
  obtain ⟨after, run, held, opened, fulls⟩ :=
    (holds.markOpened blank).enterAll_run fun id served => lives_of_served wf served
  rw [replaced_same] at run held
  rw [replaced_replaced] at held
  exact ⟨after, run, held, opened, fulls⟩

/-! ## Packages under way -/

/-- The pure assignment under the settings. -/
abbrev assigned (ctx : Context) (owner : Nat) : Namespace := .assign ctx.tree ctx.settings.placeholder owner

/-- What namespaces hold between calls: those that were opened everything, the others nothing. -/
def resting (ctx : Context) (table : NameTable) (owner : Nat) : Namespace :=
  if owner ∈ table.opened then assigned ctx owner else ⟨[], [], []⟩

theorem resting_opened {table : NameTable} {owner : Nat} (opened : owner ∈ table.opened) :
    resting ctx table owner = assigned ctx owner := if_pos opened

theorem isBlank_resting {table : NameTable} {owner : Nat} (closed : owner ∉ table.opened) :
    IsBlank (resting ctx table owner) := by
  rw [resting, if_neg closed]
  exact ⟨rfl, rfl⟩

theorem resting_congr {table after : NameTable} (same : after.opened = table.opened) :
    resting ctx after = resting ctx table := by
  funext owner
  rw [resting, resting, same]

/-- The package `unit` is being served: of its own names the table holds `ns`, which has those of all
declarations. -/
structure Serving (ctx : Context) (unit : Nat) (ns : Namespace) (table : NameTable) : Prop where
  opened : unit ∈ table.opened
  holds : Holds ctx (replaced (resting ctx table) unit ns) table
  declared : ∀ {id node}, ctx.tree.node? id = some node → node.kind.isAnonymous = false →
    ns.name? id = (Namespace.declared ctx.tree unit).name? id

/-- A record or an operation has no anonymous types to serve. -/
theorem assigned_of_record (wf : ctx.tree.WellFormed) {owner : Nat}
    (record : ctx.tree.hasKind Kind.isUnit owner = false) :
    assigned ctx owner = .declared ctx.tree owner := by
  rw [assigned, Namespace.assign, Tree.servedAnonymous, wf.opensPackage_eq, record]
  rfl

theorem assign_record_run (wf : ctx.tree.WellFormed) {owner : Nat} {view : Nat → Namespace}
    {table : NameTable} (record : ctx.tree.hasKind Kind.isUnit owner = false) (holds : Holds ctx view table)
    (blank : IsBlank (view owner)) (nameOf : Nat → Lookup String) :
    ∃ after, assign ctx nameOf owner table = .ok () after ∧
      Holds ctx (replaced view owner (assigned ctx owner)) after ∧
      after.opened = owner :: table.opened ∧ after.fulls = table.fulls := by
  obtain ⟨after, run, held, opened, fulls⟩ := holds.declared_run wf blank
  rw [← assigned_of_record wf record] at held
  refine ⟨after, ?_, held, opened, fulls⟩
  have none : ctx.tree.servedAnonymous owner = [] := by
    rw [Tree.servedAnonymous, wf.opensPackage_eq, record]
    rfl
  unfold assign NameTable.markOpened
  rw [Run.bind_of_ok (Run.modify_apply _ table), Run.bind_of_ok run, none]
  rfl

/-- What is asked of a way to find names while a package is served: it answers the names of the
declarations in that package and leaves the package as it is. -/
def NamesDeclarations (ctx : Context) (nameOf : Nat → Lookup String) : Prop :=
  ∀ {unit ns table scope owner}, Serving ctx unit ns table → owner ∈ ctx.tree.members scope →
    ctx.tree.packageOf scope = unit → ∃ name after,
      (Namespace.declared ctx.tree (ctx.tree.namespaceOf owner)).name? owner = some name ∧
      nameOf owner table = .ok name after ∧ Serving ctx unit ns after ∧ after.fulls = table.fulls

theorem find_of_local {table : NameTable} {id : Nat} {name : String} (kept : table.local? id = some name)
    (assignAll : Nat → Lookup Unit) : find ctx assignAll id table = .ok name table := by
  unfold find
  rw [Run.bind_of_ok (Run.get_apply table), kept]
  rfl

theorem need_of_found {t : Tree} {id : Nat} {node : Node} (found : t.node? id = some node) :
    t.need id = .ok node := by
  unfold Tree.need
  rw [found]

/-- A namespace that is not open is opened, and the answer is what it holds then. -/
theorem find_of_closed {table after : NameTable} {id : Nat} {node : Node} (lives : Lives ctx id node)
    (missing : table.local? id = none) (closed : ctx.tree.namespaceOf id ∉ table.opened)
    {assignAll : Nat → Lookup Unit} (run : assignAll (ctx.tree.namespaceOf id) table = .ok () after)
    {name : String} (kept : after.local? id = some name) : find ctx assignAll id table = .ok name after := by
  unfold find
  rw [Run.bind_of_ok (Run.get_apply table), missing]
  dsimp only
  rw [need_of_found lives.found, Run.bind_of_ok (Run.lift_ok node table), lives.free]
  dsimp only
  rw [if_pos (by simpa using closed), Run.bind_of_ok run, Run.bind_of_ok (Run.get_apply after), kept]
  rfl

theorem findWithin_namesDeclarations (wf : ctx.tree.WellFormed) (depth : Nat) :
    NamesDeclarations ctx (findWithin ctx (depth + 1)) := by
  intro unit ns table scope owner serving listed package
  obtain ⟨node, lives, named⟩ := lives_of_member wf listed
  obtain ⟨name, given⟩ := Namespace.exists_name_of_served (wf.mem_served listed)
  obtain ⟨outer, inner, around, present, inside, held⟩ := wf.member_inside listed
  cases lives.found.symm.trans present
  have keptNames := serving.holds.names lives
  by_cases home : ctx.tree.namespaceOf owner = unit
  · -- A declaration of the package itself: it was named before any anonymous type.
    rw [home, replaced_same, serving.declared lives.found named, ← home, given] at keptNames
    exact ⟨name, table, given, find_of_local keptNames _, serving, rfl⟩
  · -- A component: its record is another namespace, open or not.
    have component : node.kind.isComponent = true := by
      cases component : node.kind.isComponent with
      | true => rfl
      | false =>
        refine absurd ?_ home
        rw [Tree.namespaceOf_whole lives.found component, wf.enclosingUnit_of_scope lives.found inside,
          package]
    have record : ctx.tree.hasKind Kind.isUnit (ctx.tree.namespaceOf owner) = false := by
      rw [Tree.namespaceOf_component lives.found inside component, Tree.hasKind_eq around]
      exact Tree.isUnit_eq_false_of_holds_component held component
    have whole := assigned_of_record wf record
    rw [replaced_other _ _ home] at keptNames
    by_cases opened : ctx.tree.namespaceOf owner ∈ table.opened
    · rw [resting_opened opened, whole, given] at keptNames
      exact ⟨name, table, given, find_of_local keptNames _, serving, rfl⟩
    · have blank : IsBlank (resting ctx table (ctx.tree.namespaceOf owner)) := isBlank_resting opened
      rw [Namespace.name?, blank.names] at keptNames
      have blankView : IsBlank (replaced (resting ctx table) unit ns (ctx.tree.namespaceOf owner)) := by
        rwa [replaced_other _ _ home]
      obtain ⟨after, run, heldAfter, openedAfter, fulls⟩ :=
        assign_record_run wf record serving.holds blankView (findWithin ctx depth)
      have nameAfter : after.local? owner = some name := by
        rw [heldAfter.names lives, replaced_same, whole, given]
      have views : replaced (replaced (resting ctx table) unit ns) (ctx.tree.namespaceOf owner)
          (assigned ctx (ctx.tree.namespaceOf owner)) = replaced (resting ctx after) unit ns := by
        funext other
        by_cases here : other = ctx.tree.namespaceOf owner
        · rw [here, replaced_same, replaced_other _ _ home, resting_opened (by simp [openedAfter])]
        · rw [replaced_other _ _ here]
          unfold replaced resting
          simp [openedAfter, here]
      refine ⟨name, after, given, find_of_closed lives keptNames opened run nameAfter, ?_, fulls⟩
      refine ⟨?_, views ▸ heldAfter, serving.declared⟩
      rw [openedAfter]
      exact List.mem_cons_of_mem _ serving.opened

/-! ## Anonymous types -/

section Anonymous

variable {unit id scope : Nat} {node : Node} {ns : Namespace} {table : NameTable}

theorem fixedName?_inline (inline : ctx.tree.Inline unit id scope node) :
    fixedName? ctx id node.kind = node.kind.runtimeString? := by
  have inner : id ≠ Tree.root :=
    Nat.ne_of_gt (Nat.zero_lt_of_lt (ctx.tree.scope_lt inline.found inline.inside))
  have anonymous := inline.anonymous
  unfold fixedName?
  cases shape : node.kind <;> simp_all [Kind.isAnonymous]

theorem Serving.settle_run (wf : ctx.tree.WellFormed) (serving : Serving ctx unit ns table)
    (inline : ctx.tree.Inline unit id scope node) (lives : Lives ctx id node) (base : Option String) :
    ∃ after, settle ctx ns.used id node.kind base table =
        .ok (ns.settle ctx.settings.placeholder id node.kind base).used after ∧
      Serving ctx unit (ns.settle ctx.settings.placeholder id node.kind base) after ∧
      after.fulls = table.fulls := by
  obtain ⟨after, run, held, opened, fulls⟩ :=
    serving.holds.settle_run lives (inline.namespaceOf wf) node.kind base
  rw [replaced_same] at run held
  rw [replaced_replaced, ← resting_congr opened] at held
  refine ⟨after, run, ⟨opened ▸ serving.opened, held, ?_⟩, fulls⟩
  intro other otherNode found named
  have differ : other ≠ id := by
    rintro rfl
    cases found.symm.trans inline.found
    exact absurd inline.anonymous (by simp [named])
  refine Namespace.settle_keeps (P := fun ns' => ns'.name? other = _) ?_ ?_ node.kind base
  · intro base
    rw [Namespace.name?_enter, if_neg differ]
    exact serving.declared found named
  · intro bare
    exact serving.declared found named

/-- The anonymous type around another one is looked up in the table, not in the package. -/
theorem Serving.settle_inside_run (wf : ctx.tree.WellFormed) (serving : Serving ctx unit ns table)
    (inline : ctx.tree.Inline unit id scope node) (lives : Lives ctx id node)
    {outer : Nat} {outerNode : Node} (around : ctx.tree.Inline unit outer scope outerNode)
    (outerLives : Lives ctx outer outerNode) :
    ∃ after, (do let table ← get; settle ctx ns.used id node.kind (table.local? outer) : Lookup _) table =
        .ok (ns.settle ctx.settings.placeholder id node.kind (ns.name? outer)).used after ∧
      Serving ctx unit (ns.settle ctx.settings.placeholder id node.kind (ns.name? outer)) after ∧
      after.fulls = table.fulls := by
  rw [Run.bind_of_ok (Run.get_apply table), serving.holds.names outerLives, around.namespaceOf wf,
    replaced_same]
  exact serving.settle_run wf inline lives _

end Anonymous

theorem enterAnonymous_run (wf : ctx.tree.WellFormed) {nameOf : Nat → Lookup String}
    (names : NamesDeclarations ctx nameOf) {unit id scope : Nat} {node : Node}
    (inline : ctx.tree.Inline unit id scope node) {ns : Namespace} {table : NameTable}
    (serving : Serving ctx unit ns table) :
    ∃ after, enterAnonymous ctx nameOf ns.used id table =
        .ok (ns.enterAnonymous ctx.tree ctx.settings.placeholder id).used after ∧
      Serving ctx unit (ns.enterAnonymous ctx.tree ctx.settings.placeholder id) after ∧
      after.fulls = table.fulls := by
  rw [enterAnonymous, Namespace.enterAnonymous]
  rw [Run.bind_of_ok (Run.get_apply table)]
  simp only [inline.found, inline.inside, need_of_found inline.found]
  cases runtime : node.kind.runtimeString? with
  | some text =>
    -- The runtime's own strings are passed over, whatever has been kept of them.
    simp only [Option.isSome_some, if_true, ite_self]
    refine ⟨table, ?_, serving, rfl⟩
    split
    · rfl
    · rw [Run.bind_of_ok (Run.lift_ok node table), runtime]
      rfl
  | none =>
    have lives : Lives ctx id node := ⟨inline.found, (fixedName?_inline inline).trans runtime⟩
    have sameName : table.local? id = ns.name? id := by
      rw [serving.holds.names lives, inline.namespaceOf wf, replaced_same]
    have sameRefusal : table.unowned.contains id = ns.unowned.contains id := by
      have refused := serving.holds.unowned lives
      rw [inline.namespaceOf wf, replaced_same] at refused
      rw [Bool.eq_iff_iff, List.contains_iff_mem, List.contains_iff_mem]
      exact refused
    rw [sameName, sameRefusal]
    split
    · exact ⟨table, rfl, serving, rfl⟩
    · rw [if_neg (by simp), Run.bind_of_ok (Run.lift_ok node table)]
      rw [runtime, if_neg (by simp), inline.inside]
      dsimp only
      cases owned : ctx.tree.declaringOwner? scope id with
      | some owner =>
        obtain ⟨name, middle, given, first, held, fulls⟩ :=
          names serving (List.mem_of_find?_eq_some owned) inline.package
        obtain ⟨after, run, heldAfter, fullsAfter⟩ := held.settle_run wf inline lives (some name)
        dsimp only
        rw [Run.bind_of_ok first, given]
        exact ⟨after, run, heldAfter, fullsAfter.trans fulls⟩
      | none =>
        cases around : ctx.tree.containingOwner? scope id with
        | none => exact serving.settle_run wf inline lives none
        | some outer =>
          obtain ⟨outerNode, outerInline⟩ := wf.inline_of_listed (List.mem_of_find?_eq_some around)
          rw [inline.package] at outerInline
          have outerLives : Lives ctx outer outerNode := by
            refine ⟨outerInline.found, (fixedName?_inline outerInline).trans ?_⟩
            have element := List.find?_some around
            rw [Tree.kind?_eq outerInline.found] at element
            cases shape : outerNode.kind <;> simp_all [Kind.element?, Kind.runtimeString?]
          by_cases later : id < outer ∧ outer < ctx.tree.size
          · obtain ⟨middle, first, held, fulls⟩ := enterAnonymous_run wf names outerInline serving
            obtain ⟨after, run, heldAfter, fullsAfter⟩ :=
              held.settle_inside_run wf inline lives outerInline outerLives
            simp only [dif_pos later, if_pos later]
            rw [Run.bind_of_ok first]
            exact ⟨after, run, heldAfter, fullsAfter.trans fulls⟩
          · simp only [dif_neg later, if_neg later]
            exact serving.settle_inside_run wf inline lives outerInline outerLives
termination_by ctx.tree.size - id

/-! ## Giving out a namespace -/

theorem Serving.enterAllAnonymous_run (wf : ctx.tree.WellFormed) {nameOf : Nat → Lookup String}
    (names : NamesDeclarations ctx nameOf) {unit : Nat} {ids : List Nat} {ns : Namespace}
    {table : NameTable} (inlines : ∀ id ∈ ids, ∃ scope node, ctx.tree.Inline unit id scope node)
    (serving : Serving ctx unit ns table) :
    ∃ used after, ids.foldlM (enterAnonymous ctx nameOf) ns.used table = .ok used after ∧
      Serving ctx unit (ids.foldl (Namespace.enterAnonymous ctx.tree ctx.settings.placeholder) ns) after ∧
      after.fulls = table.fulls := by
  induction ids generalizing ns table with
  | nil => exact ⟨ns.used, table, rfl, serving, rfl⟩
  | cons id ids ih =>
    obtain ⟨scope, node, inline⟩ := inlines id List.mem_cons_self
    obtain ⟨middle, first, held, fulls⟩ := enterAnonymous_run wf names inline serving
    obtain ⟨used, after, rest, heldAfter, fullsAfter⟩ :=
      ih (fun other listed => inlines other (List.mem_cons_of_mem _ listed)) held
    refine ⟨used, after, ?_, heldAfter, fullsAfter.trans fulls⟩
    rw [List.foldlM_cons, Run.bind_of_ok first, rest]

theorem assign_run (wf : ctx.tree.WellFormed) {nameOf : Nat → Lookup String}
    (names : NamesDeclarations ctx nameOf) {owner : Nat} {table : NameTable}
    (holds : Holds ctx (resting ctx table) table) (closed : owner ∉ table.opened) :
    ∃ after, assign ctx nameOf owner table = .ok () after ∧ Holds ctx (resting ctx after) after ∧
      owner ∈ after.opened ∧ after.fulls = table.fulls := by
  obtain ⟨middle, first, held, opened, fulls⟩ := holds.declared_run wf (isBlank_resting closed)
  have views : replaced (resting ctx table) owner (.declared ctx.tree owner) =
      replaced (resting ctx middle) owner (.declared ctx.tree owner) := by
    funext other
    by_cases here : other = owner
    · rw [here, replaced_same, replaced_same]
    · rw [replaced_other _ _ here, replaced_other _ _ here, resting, resting, opened]
      simp [here]
  have serving : Serving ctx owner (.declared ctx.tree owner) middle :=
    ⟨by simp [opened], views ▸ held, fun _ _ => rfl⟩
  obtain ⟨used, after, rest, heldAfter, fullsAfter⟩ :=
    serving.enterAllAnonymous_run wf names fun id listed => wf.inline_of_served listed
  have whole : replaced (resting ctx after) owner (assigned ctx owner) = resting ctx after := by
    funext other
    by_cases here : other = owner
    · rw [here, replaced_same, resting_opened heldAfter.opened]
    · rw [replaced_other _ _ here]
  refine ⟨after, ?_, whole ▸ heldAfter.holds, heldAfter.opened, fullsAfter.trans fulls⟩
  unfold assign NameTable.markOpened
  rw [Run.bind_of_ok (Run.modify_apply _ table), Run.bind_of_ok first]
  show EStateM.map _ _ middle = _
  unfold EStateM.map
  rw [rest]

/-! ## Asking for a local name -/

/-- What a name must be: the fixed one, or what the assignment of its namespace says. -/
def localResult (ctx : Context) (id : Nat) : Except Fault String :=
  match ctx.tree.node? id with
  | none => .error (.dangling id)
  | some node =>
    match fixedName? ctx id node.kind with
    | some name => .ok name
    | none =>
      let ns := assigned ctx (ctx.tree.namespaceOf id)
      match ns.name? id with
      | some name => .ok name
      | none =>
        .error (.error (if ns.unowned.contains id then .unowned id node.kind
          else .wrongKind id "named declaration" node.kind))

theorem localResult_of_fixed {id : Nat} {node : Node} {name : String}
    (found : ctx.tree.node? id = some node) (fixed : fixedName? ctx id node.kind = some name) :
    localResult ctx id = .ok name := by
  unfold localResult
  rw [found]
  dsimp only
  rw [fixed]

theorem localResult_of_lives {id : Nat} {node : Node} (lives : Lives ctx id node) :
    localResult ctx id = match (assigned ctx (ctx.tree.namespaceOf id)).name? id with
      | some name => .ok name
      | none => .error (.error (if (assigned ctx (ctx.tree.namespaceOf id)).unowned.contains id then
          .unowned id node.kind else .wrongKind id "named declaration" node.kind)) := by
  unfold localResult
  rw [lives.found]
  dsimp only
  rw [lives.free]

section Resting

variable {table : NameTable} {id : Nat} {node : Node}

/-- Once its namespace is open, a node has its name in the table or none at all. -/
theorem lookup_of_opened (holds : Holds ctx (resting ctx table) table) (lives : Lives ctx id node)
    (opened : ctx.tree.namespaceOf id ∈ table.opened) :
    (do
      let table ← get
      match table.local? id with
      | some name => return name
      | none =>
        throw (.error (if table.unowned.contains id then .unowned id node.kind
          else .wrongKind id "named declaration" node.kind)) : Lookup String) table =
      (liftM (localResult ctx id) : Lookup String) table := by
  have named := holds.names lives
  have refused : table.unowned.contains id =
      (assigned ctx (ctx.tree.namespaceOf id)).unowned.contains id := by
    have listed := holds.unowned lives
    rw [resting_opened opened] at listed
    rw [Bool.eq_iff_iff, List.contains_iff_mem, List.contains_iff_mem]
    exact listed
  rw [resting_opened opened] at named
  rw [Run.bind_of_ok (Run.get_apply table), localResult_of_lives lives, named, refused]
  cases (assigned ctx (ctx.tree.namespaceOf id)).name? id <;> rfl

theorem localResult_of_kept (holds : Holds ctx (resting ctx table) table) {name : String}
    (kept : table.local? id = some name) : localResult ctx id = .ok name := by
  obtain ⟨node, found⟩ := holds.known kept
  cases fixed : fixedName? ctx id node.kind with
  | some given => rw [localResult_of_fixed found fixed, holds.fixed found fixed kept]
  | none =>
    have lives : Lives ctx id node := ⟨found, fixed⟩
    have named := holds.names lives
    by_cases opened : ctx.tree.namespaceOf id ∈ table.opened
    · rw [resting_opened opened, kept] at named
      rw [localResult_of_lives lives, ← named]
    · have blank : IsBlank (resting ctx table (ctx.tree.namespaceOf id)) := isBlank_resting opened
      rw [Namespace.name?, blank.names, kept] at named
      cases named

theorem Holds.keepFixed (holds : Holds ctx (resting ctx table) table) {name : String}
    (found : ctx.tree.node? id = some node) (fixed : fixedName? ctx id node.kind = some name) :
    Holds ctx (resting ctx { table with locals := (id, name) :: table.locals })
      { table with locals := (id, name) :: table.locals } := by
  constructor
  · intro other kept given
    rw [local?_cons] at given
    split at given
    · next same => exact ⟨node, same ▸ found⟩
    · exact holds.known given
  · intro other otherNode otherName otherFound otherFixed kept given
    rw [local?_cons] at given
    split at given
    · next same =>
      subst same
      cases found.symm.trans otherFound
      exact (Option.some.inj given).symm.trans (Option.some.inj (fixed.symm.trans otherFixed))
    · exact holds.fixed otherFound otherFixed given
  · intro other otherNode lives
    have differ : other ≠ id := by
      rintro rfl
      cases found.symm.trans lives.found
      exact absurd (lives.free.symm.trans fixed) (by simp)
    rw [local?_cons, if_neg differ]
    exact holds.names lives
  · exact holds.unowned

theorem find_run (wf : ctx.tree.WellFormed) {nameOf : Nat → Lookup String}
    (names : NamesDeclarations ctx nameOf) (holds : Holds ctx (resting ctx table) table) (id : Nat) :
    ∃ after, find ctx (assign ctx nameOf) id table = (liftM (localResult ctx id) : Lookup String) after ∧
      Holds ctx (resting ctx after) after ∧ after.fulls = table.fulls := by
  unfold find
  rw [Run.bind_of_ok (Run.get_apply table)]
  cases kept : table.local? id with
  | some name => exact ⟨table, by rw [localResult_of_kept holds kept]; rfl, holds, rfl⟩
  | none =>
    cases present : ctx.tree.node? id with
    | none =>
      refine ⟨table, ?_, holds, rfl⟩
      unfold localResult Tree.need
      rw [present]
      rfl
    | some node =>
      rw [need_of_found present]
      dsimp only
      rw [Run.bind_of_ok (Run.lift_ok node table)]
      cases fixed : fixedName? ctx id node.kind with
      | some name =>
        rw [localResult_of_fixed present fixed]
        exact ⟨_, rfl, holds.keepFixed present fixed, rfl⟩
      | none =>
        have lives : Lives ctx id node := ⟨present, fixed⟩
        by_cases opened : ctx.tree.namespaceOf id ∈ table.opened
        · refine ⟨table, ?_, holds, rfl⟩
          dsimp only
          rw [if_neg (by simpa using opened)]
          exact lookup_of_opened holds lives opened
        · obtain ⟨after, run, heldAfter, openedAfter, fulls⟩ := assign_run wf names holds opened
          refine ⟨after, ?_, heldAfter, fulls⟩
          dsimp only
          rw [if_pos (by simpa using opened), Run.bind_of_ok run]
          exact lookup_of_opened heldAfter lives openedAfter

end Resting

/-! ## Asking for a full name -/

def fullResult (ctx : Context) (id : Nat) : Except Fault String := do
  let own ← localResult ctx id
  let node ← ctx.tree.need id
  if _alone : ctx.tree.standsAlone id node.kind then return own
  else
    let outer ← fullResult ctx (ctx.tree.enclosingUnit id)
    return outer ++ "." ++ own
termination_by id
decreasing_by exact ctx.tree.enclosingUnit_lt (Tree.ne_root_of_qualified _alone)

theorem fullResult_of_alone {id : Nat} {node : Node} {own : String} (found : ctx.tree.node? id = some node)
    (given : localResult ctx id = .ok own) (alone : ctx.tree.standsAlone id node.kind = true) :
    fullResult ctx id = .ok own := by
  rw [fullResult, given, need_of_found found]
  exact dif_pos alone

theorem fullResult_of_qualified {id : Nat} {node : Node} {own : String} (found : ctx.tree.node? id = some node)
    (given : localResult ctx id = .ok own) (qualified : ¬ ctx.tree.standsAlone id node.kind = true) :
    fullResult ctx id =
      (fullResult ctx (ctx.tree.enclosingUnit id) >>= fun outer => .ok (outer ++ "." ++ own)) := by
  rw [fullResult, given, need_of_found found]
  exact dif_neg qualified

/-- A table between calls. -/
structure Rests (ctx : Context) (table : NameTable) : Prop where
  holds : Holds ctx (resting ctx table) table
  fulls : ∀ {id name}, table.full? id = some name → fullResult ctx id = .ok name

theorem rests_empty (ctx : Context) : Rests ctx .empty := by
  refine ⟨⟨?_, ?_, ?_, ?_⟩, ?_⟩
  · intro id name kept
    cases kept
  · intro id node name found fixed kept given
    cases given
  · intro id node lives
    rfl
  · intro id node lives
    exact Iff.rfl
  · intro id name kept
    cases kept

theorem Rests.keepFull {table : NameTable} (rests : Rests ctx table) {id : Nat} {name : String}
    (full : fullResult ctx id = .ok name) :
    Rests ctx { table with fulls := (id, name) :: table.fulls } := by
  refine ⟨⟨rests.holds.known, rests.holds.fixed, rests.holds.names, rests.holds.unowned⟩, ?_⟩
  intro other kept given
  simp only [full?, List.lookup_cons] at given
  by_cases same : other = id
  · subst same
    simp only [beq_self_eq_true, Option.some.injEq] at given
    rw [full, given]
  · rw [beq_false_of_ne same] at given
    exact rests.fulls given

/-- From a table between calls the computation gives that result and leaves a table between calls. -/
def Answers (ctx : Context) (act : Lookup String) (result : Except Fault String) : Prop :=
  ∀ {table}, Rests ctx table → ∃ after, act table = (liftM result : Lookup String) after ∧ Rests ctx after

theorem localName_run (wf : ctx.tree.WellFormed) (id : Nat) :
    Answers ctx (localName ctx id) (localResult ctx id) := by
  intro table rests
  unfold localName
  -- One level for the namespace asked for, one for those of the components met on the way.
  obtain ⟨depth, deep⟩ : ∃ depth, ctx.tree.size = depth + 1 :=
    ⟨_, (Nat.sub_add_cancel ctx.tree.root_lt).symm⟩
  rw [deep]
  obtain ⟨after, run, held, fulls⟩ := find_run wf (findWithin_namesDeclarations wf depth) rests.holds id
  refine ⟨after, run, held, ?_⟩
  intro other name kept
  rw [full?, fulls] at kept
  exact rests.fulls kept

theorem exists_of_localResult {id : Nat} {name : String} (named : localResult ctx id = .ok name) :
    ∃ node, ctx.tree.node? id = some node := by
  unfold localResult at named
  split at named
  · cases named
  · next node found => exact ⟨node, found⟩

theorem fullName_run (wf : ctx.tree.WellFormed) (id : Nat) :
    Answers ctx (fullName ctx id) (fullResult ctx id) := by
  intro table rests
  rw [fullName, Run.bind_of_ok (Run.get_apply table)]
  cases kept : table.full? id with
  | some name => exact ⟨table, by rw [rests.fulls kept]; rfl, rests⟩
  | none =>
    dsimp only
    obtain ⟨middle, first, held⟩ := localName_run wf id rests
    cases own : localResult ctx id with
    | error fault =>
      rw [own] at first
      refine ⟨middle, ?_, held⟩
      rw [Run.bind_of_error first, fullResult, own]
      rfl
    | ok name =>
      rw [own] at first
      obtain ⟨node, found⟩ := exists_of_localResult own
      rw [Run.bind_of_ok first, need_of_found found, Run.bind_of_ok (Run.lift_ok node middle)]
      by_cases alone : ctx.tree.standsAlone id node.kind
      · have full := fullResult_of_alone found own alone
        refine ⟨_, ?_, held.keepFull full⟩
        rw [full, dif_pos alone]
        rfl
      · have full := fullResult_of_qualified found own alone
        have outside := ctx.tree.enclosingUnit_lt (Tree.ne_root_of_qualified alone)
        obtain ⟨after, second, heldAfter⟩ := fullName_run wf (ctx.tree.enclosingUnit id) held
        rw [dif_neg alone]
        cases outer : fullResult ctx (ctx.tree.enclosingUnit id) with
        | error fault =>
          rw [outer] at second full
          exact ⟨after, by rw [Run.bind_of_error second, full]; rfl, heldAfter⟩
        | ok before =>
          rw [outer] at second full
          exact ⟨_, by rw [Run.bind_of_ok second, full]; rfl, heldAfter.keepFull full⟩
termination_by id

end AdaStubs.NameTable
