import Mathlib.Data.Finset.Card
import Mathlib.Logic.Relation
import AdaStubs.Idl.Alias
import AdaStubs.Proofs.Idl.Steps

/-!
# Where typedef chains end

The base of a typedef is not looked at when the typedef is declared. So it may be the typedef itself or one that comes
later, and a chain of bases can run in a circle; then it never ends. A chain that does not is shorter than the tree is
large, and every circle has a typedef in it that was declared before its base.

Main statement: `unalias_ends_unless_circular`.
-/

namespace AdaStubs.Tree

/-- One link of a chain: `base` is the base of the typedef `id`. -/
def Aliases (t : Tree) (id base : Nat) : Prop := t.aliasOf? id = some base

/-- Where a chain stands after `turns` links; none if it has ended before. -/
def follow (t : Tree) : Nat → Nat → Option Nat
  | 0, id => some id
  | turns + 1, id => (t.aliasOf? id).bind (t.follow turns)

/-- The chain of `id` comes back to where it has been. -/
def Circular (t : Tree) (id : Nat) : Prop :=
  ∃ m, Relation.ReflTransGen t.Aliases id m ∧ Relation.TransGen t.Aliases m m

/-- All bases of typedefs are nodes of the tree. -/
def BasesInside (t : Tree) : Prop := ∀ id ∈ t.ids, ∀ base ∈ t.aliasOf? id, base ∈ t.ids

instance (t : Tree) : Decidable t.BasesInside := inferInstanceAs (Decidable (∀ id ∈ t.ids, _))

variable {t t' : Tree} {id base last n m turns : Nat}

theorem aliases_iff : t.Aliases id base ↔ t.kind? id = some (.typedef base) := by
  unfold Aliases aliasOf?
  split
  · next found => simp [found]
  · next other =>
    constructor
    · intro link
      cases link
    · intro found
      exact absurd found (other base)

theorem lt_size_of_kind? {kind : Kind} (found : t.kind? id = some kind) : id < t.size := by
  obtain ⟨node, present, -⟩ := Option.map_eq_some_iff.mp found
  exact lt_size_of_node? present

theorem Aliases.lt_size (link : t.Aliases id base) : id < t.size := lt_size_of_kind? (aliases_iff.mp link)

/-! ## Chains -/

theorem follow_add (first more n : Nat) : t.follow (first + more) n = (t.follow first n).bind (t.follow more) := by
  induction first generalizing n with
  | zero => rw [Nat.zero_add]; rfl
  | succ first ih =>
    rw [Nat.succ_add, follow, follow, Option.bind_assoc]
    exact congrArg (Option.bind _) (funext ih)

theorem reaches_of_follow (reached : t.follow turns n = some m) : Relation.ReflTransGen t.Aliases n m := by
  induction turns generalizing n with
  | zero =>
    cases reached
    exact .refl
  | succ turns ih =>
    obtain ⟨base, link, rest⟩ := Option.bind_eq_some_iff.mp reached
    exact (ih rest).head link

theorem passes_of_follow (reached : t.follow (turns + 1) n = some m) : Relation.TransGen t.Aliases n m := by
  obtain ⟨base, link, rest⟩ := Option.bind_eq_some_iff.mp reached
  exact .head' link (reaches_of_follow rest)

theorem exists_follow_lt (reached : t.follow turns n = some last) (inside : last < t.size) {k : Nat}
    (before : k ≤ turns) : ∃ m < t.size, t.follow k n = some m := by
  obtain ⟨rest, rfl⟩ := Nat.exists_eq_add_of_le before
  rw [follow_add] at reached
  obtain ⟨m, here, onward⟩ := Option.bind_eq_some_iff.mp reached
  -- All but the last node of a chain are typedefs, so they are nodes of the tree whatever their bases are.
  cases rest with
  | zero =>
    cases onward
    exact ⟨last, inside, here⟩
  | succ rest =>
    obtain ⟨base, link, -⟩ := Option.bind_eq_some_iff.mp onward
    exact ⟨m, Aliases.lt_size link, here⟩

/-! ## Circles -/

theorem Circular.next (circular : t.Circular n) : ∃ base, t.Aliases n base ∧ t.Circular base := by
  obtain ⟨m, reached, circle⟩ := circular
  rcases Relation.ReflTransGen.cases_head reached with rfl | ⟨base, link, onward⟩
  · obtain ⟨base, link, back⟩ := Relation.TransGen.head'_iff.mp circle
    exact ⟨base, link, n, back, circle⟩
  · exact ⟨base, link, m, onward, circle⟩

theorem Circular.follow (circular : t.Circular n) (turns : Nat) : ∃ m, t.follow turns n = some m ∧ t.Circular m := by
  induction turns generalizing n with
  | zero => exact ⟨n, rfl, circular⟩
  | succ turns ih =>
    obtain ⟨base, link, onward⟩ := circular.next
    obtain ⟨m, reached, still⟩ := ih onward
    exact ⟨m, Option.bind_eq_some_iff.mpr ⟨base, link, reached⟩, still⟩

theorem not_circular_of_follow (reached : t.follow turns n = some last) (done : t.aliasOf? last = none) :
    ¬ t.Circular n := by
  intro circular
  obtain ⟨m, here, still⟩ := circular.follow turns
  cases here.symm.trans reached
  obtain ⟨base, link, -⟩ := still.next
  cases done.symm.trans link

theorem circular_of_size_le (long : t.size ≤ turns) (reached : t.follow turns n = some last)
    (inside : last < t.size) : t.Circular n := by
  -- The chain has been at more places than the tree has nodes, at one of them twice.
  have places : ∀ k ∈ Finset.range (turns + 1), (t.follow k n).getD 0 ∈ Finset.range t.size := by
    intro k before
    obtain ⟨m, small, here⟩ := exists_follow_lt reached inside (Nat.le_of_lt_succ (Finset.mem_range.mp before))
    rw [here]
    exact Finset.mem_range.mpr small
  obtain ⟨j, beforeJ, k, beforeK, differ, same⟩ :=
    Finset.exists_ne_map_eq_of_card_lt_of_maps_to (by simpa using Nat.lt_succ_of_le long) places
  wlog earlier : j < k generalizing j k
  · exact this k beforeK j beforeJ differ.symm same.symm (by omega)
  obtain ⟨m, -, here⟩ := exists_follow_lt reached inside (Nat.le_of_lt_succ (Finset.mem_range.mp beforeJ))
  obtain ⟨m', -, again⟩ := exists_follow_lt reached inside (Nat.le_of_lt_succ (Finset.mem_range.mp beforeK))
  obtain rfl : m = m' := by simpa [here, again] using same
  obtain ⟨links, rfl⟩ := Nat.exists_eq_add_of_lt earlier
  rw [Nat.add_assoc, follow_add, here] at again
  exact ⟨m, reaches_of_follow here, passes_of_follow again⟩

theorem Circular.exists_forward (circular : t.Circular n) :
    ∃ m base, Relation.ReflTransGen t.Aliases n m ∧ t.Aliases m base ∧ m ≤ base := by
  obtain ⟨m, reached, circle⟩ := circular
  by_contra absent
  -- If all links led to earlier nodes, one could not come back.
  have down {k : Nat} (passed : Relation.TransGen t.Aliases m k) : k < m := by
    have lower {j base : Nat} (onward : Relation.ReflTransGen t.Aliases m j) (link : t.Aliases j base) : base < j :=
      Nat.lt_of_not_le fun forward => absent ⟨j, base, reached.trans onward, link, forward⟩
    induction passed with
    | single link => exact lower .refl link
    | tail before link ih => exact Nat.lt_trans (lower before.to_reflTransGen link) ih
  exact Nat.lt_irrefl m (down circle)

/-! ## Looking for the end -/

theorem exists_follow_of_unaliasWithin (found : t.unaliasWithin turns n = some last) :
    t.aliasOf? last = none ∧ ∃ k, t.follow k n = some last := by
  fun_induction unaliasWithin t turns n with
  | case1 id more => cases found
  | case2 id done =>
    cases found
    exact ⟨by simpa using done, 0, rfl⟩
  | case3 turns id base link ih =>
    obtain ⟨done, k, reached⟩ := ih found
    exact ⟨done, k + 1, Option.bind_eq_some_iff.mpr ⟨base, link, reached⟩⟩
  | case4 turns id done =>
    cases found
    exact ⟨done, 0, rfl⟩

theorem exists_follow_of_unaliasWithin_none (unfinished : t.unaliasWithin turns n = none) :
    ∃ m base, t.follow turns n = some m ∧ t.Aliases m base := by
  fun_induction unaliasWithin t turns n with
  | case1 id more => exact ⟨id, _, rfl, (Option.some_get more).symm⟩
  | case2 id done => cases unfinished
  | case3 turns id base link ih =>
    obtain ⟨m, further, reached, onward⟩ := ih unfinished
    exact ⟨m, further, Option.bind_eq_some_iff.mpr ⟨base, link, reached⟩, onward⟩
  | case4 turns id done => cases unfinished

theorem BasesInside.lt_of_follow (inside : t.BasesInside) (present : n < t.size)
    (reached : t.follow turns n = some m) : m < t.size := by
  induction turns generalizing n with
  | zero =>
    cases reached
    exact present
  | succ turns ih =>
    obtain ⟨base, link, rest⟩ := Option.bind_eq_some_iff.mp reached
    exact ih (List.mem_range.mp (inside n (List.mem_range.mpr present) base link)) rest

theorem unalias_cases (inside : t.BasesInside) (present : n < t.size) :
    t.Circular n ∧ t.unalias n = .error .exhausted ∨
    ¬ t.Circular n ∧ ∃ turns < t.size, ∃ last, t.follow turns n = some last ∧
      (∃ kind, t.kind? last = some kind ∧ ∀ base, kind ≠ .typedef base) ∧ t.unalias n = .ok last := by
  cases searched : t.unaliasWithin t.size n with
  | none =>
    obtain ⟨m, base, reached, link⟩ := exists_follow_of_unaliasWithin_none searched
    refine .inl ⟨circular_of_size_le (Nat.le_refl _) reached link.lt_size, ?_⟩
    rw [unalias, searched]
    rfl
  | some last =>
    obtain ⟨done, turns, reached⟩ := exists_follow_of_unaliasWithin searched
    have straight : ¬ t.Circular n := not_circular_of_follow reached done
    have known : last < t.size := inside.lt_of_follow present reached
    obtain ⟨node, found⟩ : ∃ node, t.node? last = some node := ⟨_, Array.getElem?_eq_getElem known⟩
    have kind : t.kind? last = some node.kind := by rw [kind?, found]; rfl
    refine .inr ⟨straight, turns, ?_, last, reached, ⟨_, kind, fun base typedef => ?_⟩, ?_⟩
    · exact Nat.lt_of_not_le fun long => straight (circular_of_size_le long reached known)
    · cases done.symm.trans (aliases_iff.mpr (typedef ▸ kind))
    · rw [unalias, searched]
      dsimp only
      rw [need, found]
      rfl

/-! ## Typedefs of a script -/

theorem Appends.kind?_cases {e : Entry} (appends : t.Appends t' e) {kind : Kind} (found : t'.kind? id = some kind) :
    t.kind? id = some kind ∨ id = t.size ∧ e.kind = kind := by
  have inside : id < t.size + 1 := appends.size_eq ▸ lt_size_of_kind? found
  rcases Nat.lt_succ_iff_lt_or_eq.mp inside with old | rfl
  · refine .inl ?_
    by_cases host : id = e.scope
    · obtain ⟨outer, before, after⟩ := appends.host
      subst host
      rw [kind?, after] at found
      rw [kind?, before]
      exact found
    · rwa [kind?, appends.frame id old host] at found
  · rw [kind?, appends.new] at found
    exact .inr ⟨rfl, Option.some.inj found⟩

theorem AppendsAll.kind?_cases {entries : List Entry} (appends : t.AppendsAll t' entries) {kind : Kind}
    (found : t'.kind? id = some kind) : t.kind? id = some kind ∨ ∃ e ∈ entries, e.kind = kind := by
  induction appends with
  | nil => exact .inl found
  | cons first later ih =>
    rcases ih found with before | ⟨e, listed, same⟩
    · exact (first.kind?_cases before).imp_right fun new => ⟨_, .head _, new.2⟩
    · exact .inr ⟨e, .tail _ listed, same⟩

/-- Only a step that asks for a typedef brings one, and it stands at the end. -/
theorem aliases_step {s : Step} (link : (t.step s).2.Aliases id base) :
    t.Aliases id base ∨ id = t.size ∧ ∃ scope name, s = .typedef scope name base := by
  rw [aliases_iff] at link ⊢
  cases isEnum : s.enumerators? with
  | none =>
    rcases step_cases (t := t) isEnum with ⟨e, refused⟩ | ⟨found, p, -, -, same⟩ | ⟨-, appends⟩
    · exact .inl (by rwa [refused] at link)
    · exact .inl (by rwa [same] at link)
    · refine (appends.kind?_cases link).imp_right fun ⟨new, asked⟩ => ⟨new, ?_⟩
      cases s with
      | typedef scope name =>
        cases asked
        exact ⟨scope, name, rfl⟩
      | _ => cases asked
  | some names =>
    obtain ⟨scope, name, rfl⟩ := Step.eq_enum isEnum
    rcases addEnum_cases (t := t) scope name names with ⟨e, -, refused⟩ | ⟨-, appends, -⟩
    · exact .inl (by rwa [step, refused] at link)
    · refine (appends.kind?_cases link).imp_right ?_
      rintro ⟨e, listed, asked⟩
      rcases List.mem_cons.mp listed with rfl | enumerator
      · cases asked
      · obtain ⟨word, -, rfl⟩ := List.mem_map.mp enumerator
        cases asked

theorem aliases_steps {script : List Step} (link : (t.steps script).2.Aliases id base) :
    t.Aliases id base ∨ ∃ before scope name after, script = before ++ .typedef scope name base :: after ∧
      (t.steps before).2.size = id := by
  induction script generalizing t with
  | nil => exact .inl link
  | cons s rest ih =>
    rcases ih link with first | ⟨before, scope, name, after, rfl, size⟩
    · rcases aliases_step first with old | ⟨rfl, scope, name, rfl⟩
      · exact .inl old
      · exact .inr ⟨[], scope, name, rest, rfl, rfl⟩
    · exact .inr ⟨s :: before, scope, name, after, rfl, size⟩

theorem exists_step_of_aliases {script : List Step} (link : (ofSteps script).Aliases id base) :
    ∃ before scope name after, script = before ++ .typedef scope name base :: after ∧ (ofSteps before).size = id := by
  refine (aliases_steps link).resolve_left fun first => ?_
  have only : id < 1 := first.lt_size
  obtain rfl : id = 0 := by omega
  cases first

/-- In a tree whose typedefs have nodes as bases, the chain of a node ends at a node that is no typedef, after fewer
links than there are nodes, unless it comes back to where it has been. Then it goes on for ever, and on the way there is
a typedef whose base did not exist when it was declared. -/
theorem unalias_ends_unless_circular (script : List Step) (inside : (ofSteps script).BasesInside) {n : Nat}
    (present : n ∈ (ofSteps script).ids) :
    let t := ofSteps script
    (¬ t.Circular n ↔ ∃ turns < t.size, ∃ last, t.follow turns n = some last ∧
      (∃ kind, t.kind? last = some kind ∧ ∀ base, kind ≠ .typedef base) ∧ t.unalias n = .ok last) ∧
    (t.Circular n ↔ t.unalias n = .error .exhausted) ∧
    (t.Circular n ↔ ∀ turns, ∃ m base, t.follow turns n = some m ∧ t.kind? m = some (.typedef base)) ∧
    (t.Circular n → ∃ before scope name base after, script = before ++ .typedef scope name base :: after ∧
      Relation.ReflTransGen t.Aliases n (ofSteps before).size ∧ t.Aliases (ofSteps before).size base ∧
      (ofSteps before).size ≤ base) := by
  intro t
  have outcome := unalias_cases inside (List.mem_range.mp present)
  refine ⟨⟨fun straight => ?_, fun ⟨_, _, _, _, _, ended⟩ circular => ?_⟩, ⟨fun circular => ?_, fun endless => ?_⟩,
    ⟨fun circular turns => ?_, fun endless => ?_⟩, fun circular => ?_⟩
  · exact (outcome.resolve_left fun circle => straight circle.1).2
  · rcases outcome with ⟨-, endless⟩ | ⟨straight, -⟩
    · cases ended.symm.trans endless
    · exact straight circular
  · exact (outcome.resolve_right fun straight => straight.1 circular).2
  · rcases outcome with ⟨circular, -⟩ | ⟨-, _, _, _, _, _, ended⟩
    · exact circular
    · cases ended.symm.trans endless
  · obtain ⟨m, reached, still⟩ := circular.follow turns
    obtain ⟨base, link, -⟩ := still.next
    exact ⟨m, base, reached, aliases_iff.mp link⟩
  · obtain ⟨m, base, reached, typedef⟩ := endless t.size
    exact circular_of_size_le (Nat.le_refl _) reached (lt_size_of_kind? typedef)
  · obtain ⟨m, base, reached, link, forward⟩ := circular.exists_forward
    obtain ⟨before, scope, name, after, split, rfl⟩ := exists_step_of_aliases link
    exact ⟨before, scope, name, base, after, split, reached, link, forward⟩

/-- `Handle` stands for the later `Key`, which is a number; `Left` and `Right` stand for each other. -/
def forwardTypedefs : List Step :=
  [.primitive .long, .typedef root "Handle" 3, .typedef root "Key" 1, .typedef root "Left" 5, .typedef root "Right" 4]

theorem forward_typedef_ends_beside_circle : (ofSteps forwardTypedefs).BasesInside ∧
    (∃ turns < 6, ∃ last, (ofSteps forwardTypedefs).follow turns 2 = some last ∧
      (∃ kind, (ofSteps forwardTypedefs).kind? last = some kind ∧ ∀ base, kind ≠ .typedef base) ∧
      (ofSteps forwardTypedefs).unalias 2 = .ok last) ∧
    (ofSteps forwardTypedefs).Circular 5 ∧
    ∃ before scope name base after, forwardTypedefs = before ++ .typedef scope name base :: after ∧
      Relation.ReflTransGen (ofSteps forwardTypedefs).Aliases 5 (ofSteps before).size ∧
      (ofSteps forwardTypedefs).Aliases (ofSteps before).size base ∧ (ofSteps before).size ≤ base := by
  have inside : (ofSteps forwardTypedefs).BasesInside := by decide
  have answer : (ofSteps forwardTypedefs).unalias 2 = .ok 1 := by decide
  have endless : (ofSteps forwardTypedefs).unalias 5 = .error .exhausted := by decide
  obtain ⟨ends, circles, -⟩ := unalias_ends_unless_circular forwardTypedefs inside (n := 2) (by decide)
  obtain ⟨-, circles', -, forward⟩ := unalias_ends_unless_circular forwardTypedefs inside (n := 5) (by decide)
  have circular := circles'.mpr endless
  refine ⟨inside, ends.mp fun circular => ?_, circular, forward circular⟩
  cases answer.symm.trans (circles.mp circular)

/-- A typedef of itself: its base is a node, but following the base never gets anywhere. -/
theorem typedef_of_itself_never_ends :
    let t := ofSteps [.typedef root "T" 1]
    t.BasesInside ∧ 1 ∈ t.ids ∧ (∀ turns, t.follow turns 1 = some 1) ∧ t.kind? 1 = some (.typedef 1) ∧
      ¬ (∃ turns last, t.follow turns 1 = some last ∧ ∃ kind, t.kind? last = some kind ∧ ∀ base, kind ≠ .typedef base) ∧
      ∀ last, t.unalias 1 ≠ .ok last := by
  intro t
  have typedef : t.kind? 1 = some (.typedef 1) := by decide
  have stays : ∀ turns, t.follow turns 1 = some 1 := by
    intro turns
    induction turns with
    | zero => rfl
    | succ turns ih => exact Option.bind_eq_some_iff.mpr ⟨1, aliases_iff.mpr typedef, ih⟩
  have endless : t.unalias 1 = .error .exhausted := by decide
  refine ⟨by decide, by decide, stays, typedef, ?_, fun last ended => ?_⟩
  · rintro ⟨turns, last, reached, kind, found, other⟩
    cases (stays turns).symm.trans reached
    exact other 1 (Option.some.inj (found.symm.trans typedef))
  · cases ended.symm.trans endless

end AdaStubs.Tree
