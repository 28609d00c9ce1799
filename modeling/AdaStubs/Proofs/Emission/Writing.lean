import Mathlib.Logic.Relation
import AdaStubs.Proofs.Emission.Trace

/-!
# What is written, how often and in which order

The step and the run of everything that writes an aspect of declarations in one artifact: nothing that has
been done is done again, what is done belongs to the artifact's package and is written there once, and
whatever it refers to in that package is done as well, or under way. It comes before the reference, unless
it refers back.
-/

namespace AdaStubs

/-- The declaration of `n` refers to `r`, which an artifact of `unit` has to declare itself. -/
def Context.Uses (ctx : Context) (unit n r : Nat) : Prop :=
  r ∈ ctx.tree.declarationRefs n ∧ ctx.isLocal unit r = true

/-- References of that kind lead from one node to another. -/
abbrev Context.Leads (ctx : Context) (unit : Nat) : Nat → Nat → Prop := Relation.ReflTransGen (ctx.Uses unit)

/-! ## Places in a list -/

section Places

variable {l more : List Nat} {r n : Nat}

theorem idxOf_lt_append_left (listed : n ∈ l) (earlier : l.idxOf r < l.idxOf n) :
    (l ++ more).idxOf r < (l ++ more).idxOf n := by
  have inside : r ∈ l := List.idxOf_lt_length_iff.mp (Nat.lt_trans earlier (List.idxOf_lt_length_iff.mpr listed))
  rwa [List.idxOf_append, if_pos inside, List.idxOf_append, if_pos listed]

theorem idxOf_lt_append_between (inside : r ∈ l) (apart : n ∉ l) :
    (l ++ more).idxOf r < (l ++ more).idxOf n := by
  rw [List.idxOf_append, if_pos inside, List.idxOf_append, if_neg apart]
  exact Nat.lt_add_left _ (List.idxOf_lt_length_iff.mpr inside)

theorem idxOf_lt_append_right (apart : n ∉ l) (earlier : more.idxOf r < more.idxOf n) :
    (l ++ more).idxOf r < (l ++ more).idxOf n := by
  by_cases inside : r ∈ l
  · exact idxOf_lt_append_between inside apart
  · rw [List.idxOf_append, if_neg inside, List.idxOf_append, if_neg apart]
    exact Nat.add_lt_add_right earlier _

end Places

namespace Emit

open Ada Run Dependencies

/-- From `τ` to `τ'` an aspect of `new` has been written, in that order, and nothing else. -/
structure Written (ctx : Context) (a : Aspect) (unit : Nat) (allowed : Nat → Prop) (new : List Nat)
    (τ τ' : Trace) : Prop where
  done_eq : a.done τ' = new.reverse ++ a.done τ
  other_eq : a.other.done τ' = a.other.done τ
  parts_eq : τ'.parts = τ.parts ++ new.map fun n => (a.part, n)
  declared_eq : τ'.declared = τ.declared ++ new.filter (awaitsMarshalling ctx a)
  busy_eq : τ'.busy = τ.busy
  distinct : new.Nodup
  fresh : ∀ n ∈ new, n ∉ a.done τ ∧ n ∉ τ.busy
  owned : ∀ n ∈ new, ctx.tree.Owns unit a n ∧ allowed n
  closed : ∀ n ∈ new, ∀ r ∈ a.refs ctx.tree n, ctx.isLocal unit r = true → r ∈ a.done τ' ∨ r ∈ τ'.busy
  ordered : ∀ n ∈ new, ∀ r ∈ a.refs ctx.tree n, ctx.isLocal unit r = true →
    new.idxOf r < new.idxOf n ∨ r ∈ a.done τ ∨ r ∈ τ.busy ∨ ctx.Leads unit r n

namespace Written

variable {ctx : Context} {a : Aspect} {unit : Nat} {allowed : Nat → Prop} {new more : List Nat}
  {τ τ' τ'' : Trace}

theorem nothing (ctx : Context) (a : Aspect) (unit : Nat) (allowed : Nat → Prop) (τ : Trace) :
    Written ctx a unit allowed [] τ τ := by
  constructor <;> simp

theorem mem_done (written : Written ctx a unit allowed new τ τ') {n : Nat} :
    n ∈ a.done τ' ↔ n ∈ new ∨ n ∈ a.done τ := by
  rw [written.done_eq, List.mem_append, List.mem_reverse]

theorem append (first : Written ctx a unit allowed new τ τ')
    (second : Written ctx a unit allowed more τ' τ'') : Written ctx a unit allowed (new ++ more) τ τ'' := by
  have apart : ∀ n ∈ more, n ∉ new := fun n late early =>
    (second.fresh n late).1 (first.mem_done.mpr (.inl early))
  constructor
  · simp [second.done_eq, first.done_eq]
  · rw [second.other_eq, first.other_eq]
  · simp [second.parts_eq, first.parts_eq]
  · simp [second.declared_eq, first.declared_eq]
  · rw [second.busy_eq, first.busy_eq]
  · refine List.nodup_append.mpr ⟨first.distinct, second.distinct, ?_⟩
    rintro n early _ late rfl
    exact apart n late early
  · intro n listed
    rcases List.mem_append.mp listed with early | late
    · exact first.fresh n early
    · obtain ⟨undone, idle⟩ := second.fresh n late
      exact ⟨fun done => undone (first.mem_done.mpr (.inr done)), first.busy_eq ▸ idle⟩
  · intro n listed
    rcases List.mem_append.mp listed with early | late
    · exact first.owned n early
    · exact second.owned n late
  · intro n listed r refers isLocal
    rcases List.mem_append.mp listed with early | late
    · rw [second.busy_eq]
      rcases first.closed n early r refers isLocal with done | busy
      · exact .inl (second.mem_done.mpr (.inr done))
      · exact .inr busy
    · exact second.closed n late r refers isLocal
  · intro n listed r refers isLocal
    rcases List.mem_append.mp listed with early | late
    · exact (first.ordered n early r refers isLocal).imp_left (idxOf_lt_append_left early)
    · rcases second.ordered n late r refers isLocal with earlier | done | busy | leads
      · exact .inl (idxOf_lt_append_right (apart n late) earlier)
      · exact (first.mem_done.mp done).imp (idxOf_lt_append_between · (apart n late)) .inl
      · exact .inr (.inr (.inl (first.busy_eq ▸ busy)))
      · exact .inr (.inr (.inr leads))

/-- What has been written while `node` was under way comes before `node` itself, and may refer back to it if
`node` leads there. -/
theorem finish {node : Nat}
    (written : Written ctx a unit (fun n => allowed n ∧ ctx.Leads unit node n) new
      { τ with busy := node :: τ.busy } τ')
    (finished : a.done τ'' = node :: a.done τ' ∧ a.other.done τ'' = a.other.done τ' ∧
      τ''.parts = τ'.parts ++ [(a.part, node)] ∧
      τ''.declared = τ'.declared ++ [node].filter (awaitsMarshalling ctx a) ∧ τ''.busy = τ.busy)
    (undone : node ∉ a.done τ) (idle : node ∉ τ.busy) (own : ctx.tree.Owns unit a node ∧ allowed node)
    (settled : ∀ r ∈ a.refs ctx.tree node, ctx.isLocal unit r = true → r ∈ a.done τ' ∨ r ∈ τ'.busy) :
    Written ctx a unit allowed (new ++ [node]) τ τ'' := by
  have doneIn : ∀ b : Aspect, b.done { τ with busy := node :: τ.busy } = b.done τ := by
    intro b
    cases b <;> rfl
  have last : node ∉ new := fun listed => (written.fresh node listed).2 List.mem_cons_self
  obtain ⟨doneOut, otherOut, partsOut, declaredOut, busyOut⟩ := finished
  -- Whatever was settled inside is settled now: what was busy with `node` is `node`, which is done.
  have stays : ∀ {r}, r ∈ a.done τ' ∨ r ∈ τ'.busy → r ∈ a.done τ'' ∨ r ∈ τ''.busy := by
    intro r inside
    rw [written.busy_eq] at inside
    rw [doneOut, busyOut]
    rcases inside with done | busy
    · exact .inl (List.mem_cons_of_mem _ done)
    · rcases List.mem_cons.mp busy with rfl | outer
      · exact .inl List.mem_cons_self
      · exact .inr outer
  constructor
  · simp [doneOut, written.done_eq, doneIn a]
  · rw [otherOut, written.other_eq, doneIn]
  · simp [partsOut, written.parts_eq]
  · rw [declaredOut, written.declared_eq, List.filter_append, List.append_assoc]
  · exact busyOut
  · refine List.nodup_append.mpr ⟨written.distinct, List.pairwise_singleton _ _, ?_⟩
    rintro n listed _ same rfl
    exact last (List.mem_singleton.mp same ▸ listed)
  · intro n listed
    rcases List.mem_append.mp listed with inside | same
    · obtain ⟨undoneIn, idleIn⟩ := written.fresh n inside
      exact ⟨doneIn a ▸ undoneIn, fun busy => idleIn (List.mem_cons_of_mem _ busy)⟩
    · rw [List.mem_singleton.mp same]
      exact ⟨undone, idle⟩
  · intro n listed
    rcases List.mem_append.mp listed with inside | same
    · exact ⟨(written.owned n inside).1, (written.owned n inside).2.1⟩
    · rwa [List.mem_singleton.mp same]
  · intro n listed r refers isLocal
    rcases List.mem_append.mp listed with inside | same
    · exact stays (written.closed n inside r refers isLocal)
    · rw [List.mem_singleton.mp same] at refers
      exact stays (settled r refers isLocal)
  · intro n listed r refers isLocal
    rcases List.mem_append.mp listed with inside | same
    · rcases written.ordered n inside r refers isLocal with earlier | done | busy | leads
      · exact .inl (idxOf_lt_append_left inside earlier)
      · exact .inr (.inl (doneIn a ▸ done))
      · rcases List.mem_cons.mp busy with rfl | outer
        · exact .inr (.inr (.inr (written.owned n inside).2.2))
        · exact .inr (.inr (.inl outer))
      · exact .inr (.inr (.inr leads))
    · rw [List.mem_singleton.mp same] at refers ⊢
      rcases settled r refers isLocal with done | busy
      · rw [written.mem_done, doneIn a] at done
        exact done.imp (idxOf_lt_append_between · last) .inl
      · rw [written.busy_eq] at busy
        rcases List.mem_cons.mp busy with rfl | outer
        · exact .inr (.inr (.inr .refl))
        · exact .inr (.inr (.inl outer))

end Written

variable {ctx : Context} {a : Aspect} {unit node : Nat} {allowed : Nat → Prop}

/-- The conduct of writing an aspect in an artifact of `unit`, of nodes that are allowed. -/
def writing (ctx : Context) (a : Aspect) (unit : Nat) (allowed : Nat → Prop) : Conduct Session where
  holds s := ctx.Packaged unit s.deps
  moves s s' := ∃ new, Written ctx a unit allowed new s.trace s'.trace
  stops _ _ := True
  settled n s := ctx.Expects unit a n → n ∈ a.done s.trace ∨ n ∈ s.trace.busy

theorem writing_lawful : (writing ctx a unit allowed).Lawful := by
  constructor
  · intro s _
    exact ⟨[], .nothing ..⟩
  · rintro s s' s'' - ⟨new, first⟩ ⟨more, second⟩
    exact ⟨new ++ more, first.append second⟩
  · intros
    trivial
  · intros
    trivial
  · rintro n s s' settled ⟨new, written⟩ expects
    rw [written.mem_done, written.busy_eq]
    rcases settled expects with done | busy
    · exact .inl (.inr done)
    · exact .inr busy

theorem writing_tolerates : Tolerates ctx unit (writing ctx a unit allowed) := by
  refine ⟨writing_lawful, id, ?_, trivial, fun _ => trivial⟩
  intro s s' _ packaged same
  refine ⟨packaged, [], ?_⟩
  rw [same]
  exact .nothing ..

/-! ## Writing a node -/

theorem trace_enter {s : Session} (idle : node ∉ s.trace.busy) :
    ({ s with progress := s.progress.enter node } : Session).trace =
      { s.trace with busy := node :: s.trace.busy } := by
  have entered : s.progress.busy.insert node = node :: s.progress.busy := List.insert_of_not_mem idle
  simp only [Session.trace, Progress.enter, entered]

theorem trace_finish (ctx : Context) {s : Session} {items : List Item} {busy : List Nat} (undone : node ∉ a.done s.trace)
    (under : s.trace.busy = node :: busy) (parts : items.filterMap Item.part? = [(a.part, node)]) :
    let last : Session := { s with
      progress := a.markDone (s.progress.leave node) node,
      declared := s.declared ++ if awaitsMarshalling ctx a node then [node] else [],
      hoisted := s.hoisted ++ items }
    a.done last.trace = node :: a.done s.trace ∧ a.other.done last.trace = a.other.done s.trace ∧
      last.trace.parts = s.trace.parts ++ [(a.part, node)] ∧
      last.trace.declared = s.trace.declared ++ [node].filter (awaitsMarshalling ctx a) ∧
      last.trace.busy = busy := by
  have left : s.progress.busy.erase node = busy := by
    rw [show s.progress.busy = node :: busy from under, List.erase_cons_head]
  refine ⟨?_, ?_, ?_, ?_, ?_⟩
  · cases a <;> exact List.insert_of_not_mem undone
  · cases a <;> rfl
  · simp only [Session.trace, List.filterMap_append, parts]
  · simp only [Session.trace, List.filter_cons, List.filter_nil]
  · cases a <;> exact left

/-- The step: a node is written after what has to be written before it, or left alone. -/
theorem place_produce_follows (allows : ∀ allowed, Allows ctx (writing ctx a unit allowed))
    {resolve : Nat → Emit String} (own : ctx.tree.Owns unit a node ∧ allowed node)
    (refs : ∀ r ∈ a.refs ctx.tree node, (resolve r).Follows
      (writing ctx a unit fun n => allowed n ∧ ctx.Leads unit node n) [r]) :
    (place (produce ctx a resolve node)).Follows (writing ctx a unit allowed) [node] := by
  intro s packaged
  cases done : place (produce ctx a resolve node) s with
  | error fault s' => exact ⟨trivial, trivial⟩
  | ok _ s' =>
    obtain ⟨items, after, run, rfl⟩ := place_ok done
    rcases produce_ok run with ⟨early, rfl, rfl⟩ | ⟨undone, idle, inner, written, rfl⟩
    -- A node that is done or under way is left alone. Any other is written while it is under way, so that
    -- the references inside follow the conduct from a state in which they cannot come back to it.
    · have same : ({ after with hoisted := after.hoisted ++ [] } : Session) = after := by simp
      refine ⟨packaged, ⟨[], ?_⟩, ?_⟩
      · rw [same]
        exact .nothing ..
      · intro n listed _
        rw [same, List.mem_singleton.mp listed]
        exact early.imp isDone_iff.mp List.contains_iff_mem.mp
    · have undone : node ∉ a.done s.trace := fun listed => by simp [isDone_iff.mpr listed] at undone
      have idle : node ∉ s.trace.busy := isBusy_eq_false.mp idle
      have entered : ctx.Packaged unit ({ s with progress := s.progress.enter node } : Session).deps := packaged
      have item := item_follows (allows _) writing_tolerates.fits trivial refs
      obtain ⟨kept, ⟨new, inside⟩, settled⟩ := item.ok entered written
      rw [trace_enter idle] at inside
      have parts : items.filterMap Item.part? = [(a.part, node)] :=
        item_parts own.1.1 items ⟨_, _, written⟩
      have undoneInside : node ∉ a.done inner.trace := by
        rw [inside.mem_done]
        rintro (listed | earlier)
        · exact (inside.fresh node listed).2 List.mem_cons_self
        · apply undone
          cases a <;> exact earlier
      have finished := trace_finish ctx undoneInside inside.busy_eq parts
      refine ⟨kept, ⟨new ++ [node], inside.finish finished undone idle own ?_⟩, ?_⟩
      · exact fun r refers isLocal => settled r refers (ctx.expects_of_isLocal a isLocal)
      · intro n listed _
        left
        rw [List.mem_singleton.mp listed, finished.1]
        exact List.mem_cons_self

section Runs

variable (wf : ctx.tree.WellFormed) (allows : ∀ allowed, Allows ctx (writing ctx a unit allowed))
include wf allows

theorem nameWithin_writes
    (closed : ∀ n, allowed n → ∀ r ∈ a.refs ctx.tree n, ctx.isLocal unit r = true → allowed r)
    (depth : Nat) (node : Nat) (permitted : ctx.isLocal unit node = true → allowed node) :
    (nameWithin ctx a depth node).Follows (writing ctx a unit allowed) [node] := by
  induction depth generalizing node allowed with
  | zero => exact .throw writing_lawful trivial
  | succ depth ih =>
    intro s packaged
    cases done : nameWithin ctx a (depth + 1) node s with
    | error fault s' => exact ⟨trivial, trivial⟩
    | ok name s' =>
      rcases refer_trace wf packaged done with ⟨foreign, kept, same⟩ | ⟨isLocal, placed, names, written, rfl⟩
      · obtain ⟨held, moved⟩ := writing_tolerates.still packaged kept same
        refine ⟨held, moved, ?_⟩
        intro n listed expects
        rw [List.mem_singleton.mp listed] at expects
        exact absurd expects foreign
      · have step : (place (produce ctx a (nameWithin ctx a depth) node)).Follows
            (writing ctx a unit allowed) [node] := by
          apply place_produce_follows allows ⟨Tree.owns_of_isLocal a isLocal, permitted isLocal⟩
          intro r refers
          refine ih ?_ r fun further => ⟨closed node (permitted isLocal) r refers further,
            .single ⟨Aspect.mem_declarationRefs refers, further⟩⟩
          rintro n ⟨within, leads⟩ r refers further
          exact ⟨closed n within r refers further, leads.tail ⟨Aspect.mem_declarationRefs refers, further⟩⟩
        obtain ⟨held, moved, settled⟩ := step.ok packaged written
        exact ⟨held, moved, settled⟩

/-- The run: a node is written, together with all it refers to. -/
theorem place_writes
    (closed : ∀ n, allowed n → ∀ r ∈ a.refs ctx.tree n, ctx.isLocal unit r = true → allowed r)
    {node : Nat} (own : ctx.tree.Owns unit a node ∧ allowed node) :
    (place (produce ctx a (nameFor ctx a) node)).Follows (writing ctx a unit allowed) [node] := by
  apply place_produce_follows allows own
  intro r refers
  refine nameWithin_writes wf allows ?_ _ r fun further => ⟨closed node own.2 r refers further,
    .single ⟨Aspect.mem_declarationRefs refers, further⟩⟩
  rintro n ⟨within, leads⟩ r refers further
  exact ⟨closed n within r refers further, leads.tail ⟨Aspect.mem_declarationRefs refers, further⟩⟩

end Runs

end Emit

end AdaStubs
