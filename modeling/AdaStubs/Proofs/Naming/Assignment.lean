import AdaStubs.Naming.Table
import AdaStubs.Proofs.Ada.Spelling
import AdaStubs.Proofs.Idl.Scopes

/-!
# The assignment of names

The names of a namespace as a function of the tree alone, with no table to keep them. Main statements:

* `assign_apart`: the names of a namespace differ from each other and from its seeds, also after folding.
* `exists_name_of_served`, `settled_of_servedAnonymous`: whatever a namespace serves is named, or is an
  anonymous type that was refused for want of an owner.
-/

namespace AdaStubs

/-- Names given out so far. `used` holds their folded spellings, and `unowned` the anonymous types that
were refused one. -/
structure Namespace where
  used : List String
  names : List (Nat × String)
  unowned : List Nat

namespace Namespace

def start (t : Tree) (owner : Nat) : Namespace := ⟨(t.seeds owner).map Ada.fold, [], []⟩

def name? (ns : Namespace) (id : Nat) : Option String := ns.names.lookup id

def enter (ns : Namespace) (id : Nat) (base : String) : Namespace :=
  let name := Ada.distinct ns.used base
  { ns with used := Ada.fold name :: ns.used, names := (id, name) :: ns.names }

def refuse (ns : Namespace) (id : Nat) : Namespace := { ns with unowned := id :: ns.unowned }

def enterAll (ns : Namespace) (t : Tree) (ids : List Nat) : Namespace :=
  ids.foldl (fun ns id => ns.enter id (Ada.identifier (t.name id))) ns

/-- The names of the declarations of a namespace, before any anonymous type is served. -/
def declared (t : Tree) (owner : Nat) : Namespace := (start t owner).enterAll t (t.served owner)

def settle (placeholder : Option String) (ns : Namespace) (id : Nat) (kind : Kind)
    (base : Option String) : Namespace :=
  match base, placeholder with
  | some base, _ => ns.enter id (base ++ kind.suffix)
  | none, some name => ns.enter id name
  | none, none => ns.refuse id

/-- Serves an anonymous type, after the one around it if that one comes later. -/
def enterAnonymous (t : Tree) (placeholder : Option String) (ns : Namespace) (id : Nat) : Namespace :=
  if (ns.name? id).isSome || ns.unowned.contains id then ns
  else
    match t.node? id with
    | none => ns
    | some node =>
      if node.kind.runtimeString?.isSome then ns
      else
        match node.scope with
        | none => ns.refuse id
        | some scope =>
          match t.declaringOwner? scope id with
          | some owner =>
            ns.settle placeholder id node.kind ((declared t (t.namespaceOf owner)).name? owner)
          | none =>
            match t.containingOwner? scope id with
            | none => ns.settle placeholder id node.kind none
            | some outer =>
              let ns := if id < outer ∧ outer < t.size then enterAnonymous t placeholder ns outer else ns
              ns.settle placeholder id node.kind (ns.name? outer)
termination_by t.size - id

/-- The namespace opened by `owner`. -/
def assign (t : Tree) (placeholder : Option String) (owner : Nat) : Namespace :=
  (t.servedAnonymous owner).foldl (enterAnonymous t placeholder) (declared t owner)

/-! ## Look-ups -/

theorem name?_enter (ns : Namespace) (id other : Nat) (base : String) :
    (ns.enter id base).name? other =
      if other = id then some (Ada.distinct ns.used base) else ns.name? other := by
  simp only [name?, enter, List.lookup_cons]
  by_cases same : other = id
  · simp [same]
  · simp [same, beq_false_of_ne same]

@[simp] theorem name?_refuse (ns : Namespace) (id other : Nat) :
    (ns.refuse id).name? other = ns.name? other := rfl

@[simp] theorem unowned_enter (ns : Namespace) (id : Nat) (base : String) :
    (ns.enter id base).unowned = ns.unowned := rfl

@[simp] theorem name?_start (t : Tree) (owner id : Nat) : (start t owner).name? id = none := rfl

theorem isSome_name?_enter {ns : Namespace} {id other : Nat} {base : String}
    (named : (ns.name? other).isSome = true) : ((ns.enter id base).name? other).isSome = true := by
  rw [name?_enter]
  split
  · rfl
  · exact named

theorem name?_enterAll_of_not_mem {t : Tree} {ids : List Nat} {id : Nat} (absent : id ∉ ids)
    (ns : Namespace) : (ns.enterAll t ids).name? id = ns.name? id := by
  induction ids generalizing ns with
  | nil => rfl
  | cons first ids ih =>
    rw [List.mem_cons, not_or] at absent
    refine (ih absent.2 _).trans ?_
    rw [name?_enter, if_neg absent.1]

/-! ## What entering keeps -/

section Keeps

variable {t : Tree} {placeholder : Option String} {P : Namespace → Prop}

theorem enterAll_keeps (enter : ∀ {ns id base}, P ns → P (ns.enter id base)) {ns : Namespace}
    (holds : P ns) (ids : List Nat) : P (ns.enterAll t ids) := by
  induction ids generalizing ns with
  | nil => exact holds
  | cons id ids ih => exact ih (enter holds)

theorem settle_keeps {ns : Namespace} {id : Nat} (enter : ∀ base, P (ns.enter id base))
    (refuse : placeholder = none → P (ns.refuse id)) (kind : Kind) (base : Option String) :
    P (ns.settle placeholder id kind base) := by
  unfold settle
  cases base with
  | some base => exact enter _
  | none =>
    cases placeholder with
    | some name => exact enter _
    | none => exact refuse rfl

/-- Serving an anonymous type enters or refuses anonymous types of the same package and does nothing
else. -/
theorem enterAnonymous_keeps (wf : t.WellFormed) {unit : Nat}
    (enter : ∀ {ns id scope node base}, t.Inline unit id scope node → P ns → P (ns.enter id base))
    (refuse : ∀ {ns id scope node}, t.Inline unit id scope node → placeholder = none → P ns →
      P (ns.refuse id))
    {ns : Namespace} {id scope : Nat} {node : Node} (inline : t.Inline unit id scope node)
    (holds : P ns) : P (enterAnonymous t placeholder ns id) := by
  have settled : ∀ {ns : Namespace} (base : Option String), P ns →
      P (ns.settle placeholder id node.kind base) := by
    intro ns base holds
    exact settle_keeps (fun _ => enter inline holds) (fun bare => refuse inline bare holds) _ _
  rw [enterAnonymous]
  simp only [inline.found, inline.inside]
  split
  · exact holds
  · split
    · exact holds
    · split
      · exact settled _ holds
      · split
        · exact settled _ holds
        · next outer around =>
          refine settled _ ?_
          split
          · next later =>
            obtain ⟨outerNode, outerInline⟩ := wf.inline_of_listed (List.mem_of_find?_eq_some around)
            rw [inline.package] at outerInline
            exact enterAnonymous_keeps wf enter refuse outerInline holds
          · exact holds
termination_by t.size - id

theorem assign_keeps (wf : t.WellFormed) {unit : Nat}
    (enter : ∀ {ns id scope node base}, t.Inline unit id scope node → P ns → P (ns.enter id base))
    (refuse : ∀ {ns id scope node}, t.Inline unit id scope node → placeholder = none → P ns →
      P (ns.refuse id))
    (holds : P (declared t unit)) : P (assign t placeholder unit) := by
  unfold assign
  have served : ∀ id ∈ t.servedAnonymous unit, ∃ scope node, t.Inline unit id scope node :=
    fun id listed => wf.inline_of_served listed
  generalize t.servedAnonymous unit = ids at served
  generalize declared t unit = ns at holds
  induction ids generalizing ns with
  | nil => exact holds
  | cons id ids ih =>
    obtain ⟨scope, node, inline⟩ := served id List.mem_cons_self
    refine ih (fun other listed => served other (List.mem_cons_of_mem _ listed)) _ ?_
    exact enterAnonymous_keeps wf enter refuse inline holds

end Keeps

/-! ## Names are apart -/

/-- The names of a namespace and its seeds, all of them used and all of them different. -/
structure Apart (seeds : List String) (ns : Namespace) : Prop where
  used_of_name : ∀ {id name}, ns.name? id = some name → Ada.fold name ∈ ns.used
  used_of_seed : ∀ {seed}, seed ∈ seeds → seed ∈ ns.used
  names_differ : ∀ {id other a b}, ns.name? id = some a → ns.name? other = some b → id ≠ other →
    Ada.fold a ≠ Ada.fold b
  name_not_seed : ∀ {id name}, ns.name? id = some name → Ada.fold name ∉ seeds

theorem Apart.enter {seeds : List String} {ns : Namespace} (apart : Apart seeds ns) (id : Nat)
    (base : String) : Apart seeds (ns.enter id base) := by
  have free := Ada.fold_distinct_not_mem ns.used base
  have named : ∀ {other name}, (ns.enter id base).name? other = some name →
      (other = id ∧ name = Ada.distinct ns.used base) ∨ ns.name? other = some name := by
    intro other name found
    rw [name?_enter] at found
    split at found
    · next same => exact .inl ⟨same, (Option.some.inj found).symm⟩
    · exact .inr found
  constructor
  · intro other name found
    rcases named found with ⟨-, rfl⟩ | earlier
    · exact List.mem_cons_self
    · exact List.mem_cons_of_mem _ (apart.used_of_name earlier)
  · intro seed listed
    exact List.mem_cons_of_mem _ (apart.used_of_seed listed)
  · intro first second a b foundFirst foundSecond differ same
    rcases named foundFirst with ⟨rfl, rfl⟩ | earlierFirst <;>
      rcases named foundSecond with ⟨rfl, rfl⟩ | earlierSecond
    · exact differ rfl
    · exact free (same ▸ apart.used_of_name earlierSecond)
    · exact free (same ▸ apart.used_of_name earlierFirst)
    · exact apart.names_differ earlierFirst earlierSecond differ same
  · intro other name found listed
    rcases named found with ⟨-, rfl⟩ | earlier
    · exact free (apart.used_of_seed listed)
    · exact apart.name_not_seed earlier listed

theorem Apart.refuse {seeds : List String} {ns : Namespace} (apart : Apart seeds ns) (id : Nat) :
    Apart seeds (ns.refuse id) :=
  ⟨apart.used_of_name, apart.used_of_seed, apart.names_differ, apart.name_not_seed⟩

theorem Apart.start (t : Tree) (owner : Nat) : Apart ((t.seeds owner).map Ada.fold) (start t owner) := by
  constructor
  · intro id name found
    cases found
  · intro seed listed
    exact listed
  · intro id other a b found
    cases found
  · intro id name found
    cases found

theorem assign_apart {t : Tree} (wf : t.WellFormed) (placeholder : Option String) (owner : Nat) :
    Apart ((t.seeds owner).map Ada.fold) (assign t placeholder owner) := by
  refine assign_keeps wf (fun _ apart => apart.enter _ _) (fun _ _ apart => apart.refuse _) ?_
  exact enterAll_keeps (fun apart => apart.enter _ _) (Apart.start t owner) _

/-! ## Everything served is settled -/

theorem isSome_name?_enterAll {ns : Namespace} {t : Tree} {ids : List Nat} {id : Nat}
    (listed : id ∈ ids) : ((ns.enterAll t ids).name? id).isSome = true := by
  induction ids generalizing ns with
  | nil => cases listed
  | cons first ids ih =>
    rcases List.mem_cons.mp listed with rfl | later
    · refine enterAll_keeps (P := fun ns => (ns.name? id).isSome = true) isSome_name?_enter ?_ ids
      rw [name?_enter, if_pos rfl]
      rfl
    · exact ih later

theorem exists_name_of_served {t : Tree} {owner id : Nat} (served : id ∈ t.served owner) :
    ∃ name, (declared t owner).name? id = some name :=
  Option.isSome_iff_exists.mp (isSome_name?_enterAll served)

theorem unowned_declared (t : Tree) (owner : Nat) : (declared t owner).unowned = [] := by
  unfold declared
  refine enterAll_keeps (P := fun ns => ns.unowned = []) (fun none => none) rfl _

section Settled

variable {t : Tree} {placeholder : Option String}

theorem name?_assign_of_named (wf : t.WellFormed) {id : Nat} {node : Node}
    (found : t.node? id = some node) (named : node.kind.isAnonymous = false) (owner : Nat) :
    (assign t placeholder owner).name? id = (declared t owner).name? id := by
  refine assign_keeps (P := fun ns => ns.name? id = (declared t owner).name? id) wf ?_ ?_ rfl
  · intro ns other scope otherNode base inline kept
    have differ : id ≠ other := by
      rintro rfl
      cases found.symm.trans inline.found
      exact absurd inline.anonymous (by simp [named])
    rw [name?_enter, if_neg differ, kept]
  · intro ns other scope otherNode inline bare kept
    exact kept

theorem unowned_assign_of_placeholder (wf : t.WellFormed) (owner : Nat) (name : String) :
    (assign t (some name) owner).unowned = [] := by
  refine assign_keeps (P := fun ns => ns.unowned = []) wf (fun _ none => none) ?_ (unowned_declared t owner)
  intro ns id scope node inline bare
  cases bare

/-- Whether an anonymous type has been served. -/
def Settled (ns : Namespace) (id : Nat) : Prop := (ns.name? id).isSome = true ∨ id ∈ ns.unowned

theorem Settled.enter {ns : Namespace} {id other : Nat} {base : String} (settled : ns.Settled id) :
    (ns.enter other base).Settled id :=
  settled.imp isSome_name?_enter fun refused => refused

theorem Settled.refuse {ns : Namespace} {id other : Nat} (settled : ns.Settled id) :
    (ns.refuse other).Settled id :=
  settled.imp (fun named => named) (List.mem_cons_of_mem _)

theorem settled_settle (ns : Namespace) (id : Nat) (kind : Kind) (base : Option String) :
    (ns.settle placeholder id kind base).Settled id := by
  refine settle_keeps (P := fun ns => ns.Settled id) (fun base => .inl ?_) (fun _ => .inr ?_) kind base
  · rw [name?_enter, if_pos rfl]
    rfl
  · exact List.mem_cons_self

theorem settled_enterAnonymous {unit id scope : Nat} {node : Node} (inline : t.Inline unit id scope node)
    (bounded : node.kind.runtimeString? = none) (ns : Namespace) :
    (enterAnonymous t placeholder ns id).Settled id := by
  rw [enterAnonymous]
  simp only [inline.found, inline.inside, bounded]
  split
  · next early =>
    rcases Bool.or_eq_true_iff.mp early with named | refused
    · exact .inl named
    · exact .inr (List.contains_iff_mem.mp refused)
  · rw [if_neg (by simp)]
    split
    · exact settled_settle ..
    · split <;> exact settled_settle ..

theorem settled_of_servedAnonymous (wf : t.WellFormed) {unit id : Nat} {node : Node}
    (served : id ∈ t.servedAnonymous unit) (found : t.node? id = some node)
    (bounded : node.kind.runtimeString? = none) : (assign t placeholder unit).Settled id := by
  have keeps : ∀ {other scope otherNode ns}, t.Inline unit other scope otherNode → ns.Settled id →
      (enterAnonymous t placeholder ns other).Settled id := by
    intro other scope otherNode ns inline
    exact enterAnonymous_keeps (P := fun ns => ns.Settled id) wf (fun _ => Settled.enter)
      (fun _ _ => Settled.refuse) inline
  obtain ⟨scope, present, inline⟩ := wf.inline_of_served served
  cases found.symm.trans inline.found
  have inlines : ∀ other ∈ t.servedAnonymous unit, ∃ scope node, t.Inline unit other scope node :=
    fun other listed => wf.inline_of_served listed
  -- Settled when it is served, and by no later one unsettled.
  obtain ⟨earlier, later, split⟩ := List.append_of_mem served
  unfold assign
  rw [split, List.foldl_append, List.foldl_cons]
  have start : (enterAnonymous t placeholder
      (earlier.foldl (enterAnonymous t placeholder) (declared t unit)) id).Settled id :=
    settled_enterAnonymous inline bounded _
  have rest : ∀ other ∈ later, ∃ scope node, t.Inline unit other scope node := by
    intro other listed
    exact inlines other (by simp [split, listed])
  generalize enterAnonymous t placeholder _ id = ns at start
  clear split
  induction later generalizing ns with
  | nil => exact start
  | cons other later ih =>
    obtain ⟨scope, node, nextInline⟩ := rest other List.mem_cons_self
    exact ih (fun x listed => rest x (List.mem_cons_of_mem _ listed)) _ (keeps nextInline start)

end Settled

end Namespace

end AdaStubs
