import AdaStubs.Proofs.Run

/-!
# Agreement of runs

A computation may be run from two states that differ in what it ought not to depend on. It agrees if both runs
go the same way, and this is kept by every way of putting computations together.
-/

namespace AdaStubs.Run

variable {σ α β : Type}

/-- From related states the computation gives the same and leaves related states, or fails in the same way. -/
def Agrees (act : Run σ α) (R : σ → σ → Prop) : Prop :=
  ∀ s t, R s t → (∃ a s' t', act s = .ok a s' ∧ act t = .ok a t' ∧ R s' t') ∨
    ∃ fault s' t', act s = .error fault s' ∧ act t = .error fault t'

namespace Agrees

variable {R : σ → σ → Prop} {act : Run σ α} {f : α → Run σ β} {s t : σ}

theorem outcome_eq (agrees : act.Agrees R) (related : R s t) : act.outcome s = act.outcome t := by
  rcases agrees s t related with ⟨a, s', t', run, run', -⟩ | ⟨fault, s', t', run, run'⟩
  all_goals
    unfold outcome
    rw [run, run']

theorem ok (agrees : act.Agrees R) (related : R s t) {a : α} {s' : σ} (done : act s = .ok a s') :
    ∃ t', act t = .ok a t' ∧ R s' t' := by
  rcases agrees s t related with ⟨b, s'', t', run, run', after⟩ | ⟨fault, s'', t', run, run'⟩
  · cases done.symm.trans run
    exact ⟨t', run', after⟩
  · cases done.symm.trans run

theorem pure (a : α) : (Pure.pure a : Run σ α).Agrees R :=
  fun s t related => .inl ⟨a, s, t, rfl, rfl, related⟩

theorem throw (fault : Fault) : (throw fault : Run σ α).Agrees R :=
  fun s t _ => .inr ⟨fault, s, t, rfl, rfl⟩

theorem modify {g : σ → σ} (step : ∀ {s t}, R s t → R (g s) (g t)) : (modify g : Run σ PUnit).Agrees R :=
  fun s t related => .inl ⟨⟨⟩, g s, g t, rfl, rfl, step related⟩

theorem liftFault (result : Except Fault α) : (liftM result : Run σ α).Agrees R := by
  cases result with
  | ok a => exact pure a
  | error fault => exact throw fault

theorem liftError (result : Except Error α) : (liftM result : Run σ α).Agrees R := by
  cases result with
  | ok a => exact pure a
  | error e => exact throw (.error e)

/-- The form that keeps what the first part has found out. -/
theorem bindRun (first : act.Agrees R)
    (second : ∀ {s t a s'}, R s t → act s = .ok a s' → (f a).Agrees R) : (act >>= f).Agrees R := by
  intro s t related
  rcases first s t related with ⟨a, s', t', run, run', after⟩ | ⟨fault, s', t', run, run'⟩
  · rw [bind_of_ok run, bind_of_ok run']
    exact second related run s' t' after
  · rw [bind_of_error run, bind_of_error run']
    exact .inr ⟨fault, s', t', rfl, rfl⟩

theorem bind (first : act.Agrees R) (second : ∀ a, (f a).Agrees R) : (act >>= f).Agrees R :=
  bindRun first fun {_ _ a _} _ _ => second a

/-- What is read of the state may decide on the rest as far as related states do not differ in it. -/
theorem reads {g : σ → Run σ β} (same : ∀ {s t}, R s t → g s = g t) (rest : ∀ {s t}, R s t → (g s).Agrees R) :
    (get >>= g).Agrees R := by
  intro s t related
  rw [bind_of_ok (get_apply s), bind_of_ok (get_apply t), ← same related]
  exact rest related s t related

theorem map (agrees : act.Agrees R) (g : α → β) : (g <$> act).Agrees R := by
  rw [← bind_pure_comp]
  exact bind agrees fun a => pure (g a)

theorem mapM {l : List α} (each : ∀ x ∈ l, (f x).Agrees R) : (l.mapM f).Agrees R := by
  induction l with
  | nil => exact pure []
  | cons x l ih =>
    rw [List.mapM_cons]
    refine bind (each x List.mem_cons_self) fun b => ?_
    exact bind (ih fun y listed => each y (List.mem_cons_of_mem _ listed)) fun _ => pure _

theorem forM {g : α → Run σ PUnit} {l : List α} (each : ∀ x ∈ l, (g x).Agrees R) : (l.forM g).Agrees R := by
  induction l with
  | nil => exact pure _
  | cons x l ih =>
    exact bind (each x List.mem_cons_self) fun _ => ih fun y listed => each y (List.mem_cons_of_mem _ listed)

theorem foldlM {g : β → α → Run σ β} {l : List α} (each : ∀ b, ∀ x ∈ l, (g b x).Agrees R) {start : β} :
    (l.foldlM g start).Agrees R := by
  induction l generalizing start with
  | nil => exact pure start
  | cons x l ih =>
    exact bind (each start x List.mem_cons_self) fun b => ih fun b y listed => each b y (List.mem_cons_of_mem _ listed)

theorem filterM {p : α → Run σ Bool} {l : List α} (each : ∀ x ∈ l, (p x).Agrees R) : (l.filterM p).Agrees R := by
  have walk : ∀ {l acc : List α}, (∀ x ∈ l, (p x).Agrees R) → (l.filterAuxM p acc).Agrees R := by
    intro l
    induction l with
    | nil => exact fun _ => pure _
    | cons x l ih =>
      intro acc each
      exact bind (each x List.mem_cons_self) fun _ => ih fun y listed => each y (List.mem_cons_of_mem _ listed)
  exact bind (walk each) fun _ => pure _

theorem option_mapM {o : Option α} (each : ∀ x ∈ o, (f x).Agrees R) : (o.mapM f).Agrees R := by
  cases o with
  | none => exact pure none
  | some x =>
    rw [Option.mapM_some]
    exact map (each x rfl) some

end Agrees

end AdaStubs.Run
