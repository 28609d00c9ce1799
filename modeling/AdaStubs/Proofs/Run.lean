import AdaStubs.Error

/-!
# Computations on a state

How a computation runs from a state, one equation for each way of putting computations together.
-/

namespace AdaStubs.Run

variable {σ α β : Type}

@[simp] theorem pure_apply (a : α) (s : σ) : (pure a : Run σ α) s = .ok a s := rfl

@[simp] theorem get_apply (s : σ) : (get : Run σ σ) s = .ok s s := rfl

@[simp] theorem set_apply (s s' : σ) : (set s' : Run σ PUnit) s = .ok ⟨⟩ s' := rfl

@[simp] theorem modify_apply (f : σ → σ) (s : σ) : (modify f : Run σ PUnit) s = .ok ⟨⟩ (f s) := rfl

@[simp] theorem throw_apply (fault : Fault) (s : σ) : (throw fault : Run σ α) s = .error fault s := rfl

theorem bind_apply (act : Run σ α) (f : α → Run σ β) (s : σ) :
    (act >>= f) s = match act s with
      | .ok a s' => f a s'
      | .error fault s' => .error fault s' := by
  show EStateM.bind act f s = _
  unfold EStateM.bind
  cases act s <;> rfl

theorem bind_of_ok {act : Run σ α} {s s' : σ} {a : α} (done : act s = .ok a s') (f : α → Run σ β) :
    (act >>= f) s = f a s' := by
  rw [bind_apply, done]

theorem bind_of_error {act : Run σ α} {s s' : σ} {fault : Fault} (failed : act s = .error fault s')
    (f : α → Run σ β) : (act >>= f) s = .error fault s' := by
  rw [bind_apply, failed]

theorem bind_eq_ok {act : Run σ α} {f : α → Run σ β} {s s' : σ} {b : β} :
    (act >>= f) s = .ok b s' ↔ ∃ a middle, act s = .ok a middle ∧ f a middle = .ok b s' := by
  rw [bind_apply]
  constructor
  · intro done
    cases first : act s with
    | ok a middle =>
      rw [first] at done
      exact ⟨a, middle, rfl, done⟩
    | error fault middle =>
      rw [first] at done
      cases done
  · rintro ⟨a, middle, first, second⟩
    rw [first]
    exact second

@[simp] theorem lift_ok (a : α) (s : σ) : (liftM (Except.ok a : Except Fault α) : Run σ α) s = .ok a s := rfl

@[simp] theorem lift_error (fault : Fault) (s : σ) :
    (liftM (Except.error fault : Except Fault α) : Run σ α) s = .error fault s := rfl

theorem filterM_run {p : α → Run σ Bool} {q : α → Bool} {l : List α} {s s' : σ} {kept : List α}
    (test : ∀ x ∈ l, ∀ {b middle}, p x s = .ok b middle → middle = s ∧ b = q x)
    (done : l.filterM p s = .ok kept s') : s' = s ∧ kept = l.filter q := by
  have walk : ∀ {l : List α} {acc reversed : List α},
      (∀ x ∈ l, ∀ {b middle}, p x s = .ok b middle → middle = s ∧ b = q x) →
      l.filterAuxM p acc s = .ok reversed s' → s' = s ∧ reversed = (l.filter q).reverse ++ acc := by
    intro l
    induction l with
    | nil =>
      intro acc reversed test done
      cases done
      exact ⟨rfl, rfl⟩
    | cons x l ih =>
      intro acc reversed test done
      unfold List.filterAuxM at done
      obtain ⟨b, middle, first, rest⟩ := bind_eq_ok.mp done
      obtain ⟨rfl, rfl⟩ := test x List.mem_cons_self first
      obtain ⟨same, kept⟩ := ih (fun y listed => test y (List.mem_cons_of_mem _ listed)) rest
      refine ⟨same, kept.trans ?_⟩
      cases chosen : q x <;> simp [chosen]
  unfold List.filterM at done
  obtain ⟨reversed, middle, first, last⟩ := bind_eq_ok.mp done
  cases last
  obtain ⟨same, rfl⟩ := walk test first
  exact ⟨same, by simp⟩

theorem mapM_run {P : σ → Prop} {Q : α → β → Prop} {f : α → Run σ β} {l : List α}
    (step : ∀ x ∈ l, ∀ {s b s'}, P s → f x s = .ok b s' → Q x b ∧ P s') {s s' : σ} {results : List β}
    (start : P s) (done : l.mapM f s = .ok results s') : (∀ b ∈ results, ∃ x ∈ l, Q x b) ∧ P s' := by
  induction l generalizing s results with
  | nil =>
    rw [List.mapM_nil] at done
    cases done
    exact ⟨fun b listed => absurd listed List.not_mem_nil, start⟩
  | cons x l ih =>
    rw [List.mapM_cons] at done
    obtain ⟨b, middle, first, rest⟩ := bind_eq_ok.mp done
    obtain ⟨others, last, later, returned⟩ := bind_eq_ok.mp rest
    cases returned
    obtain ⟨head, kept⟩ := step x List.mem_cons_self start first
    obtain ⟨tail, keptLast⟩ := ih (fun y listed => step y (List.mem_cons_of_mem _ listed)) kept later
    refine ⟨?_, keptLast⟩
    intro c listed
    rcases List.mem_cons.mp listed with rfl | further
    · exact ⟨x, List.mem_cons_self, head⟩
    · obtain ⟨y, among, holds⟩ := tail c further
      exact ⟨y, List.mem_cons_of_mem _ among, holds⟩

/-- What a computation gives, whatever state it leaves. -/
def outcome (act : Run σ α) (s : σ) : Except Fault α :=
  match act s with
  | .ok a _ => .ok a
  | .error fault _ => .error fault

theorem exists_of_outcome {act : Run σ α} {s : σ} {a : α} (given : act.outcome s = .ok a) :
    ∃ s', act s = .ok a s' := by
  unfold outcome at given
  cases run : act s with
  | ok b s' =>
    rw [run] at given
    cases given
    exact ⟨s', rfl⟩
  | error fault s' =>
    rw [run] at given
    cases given

/-- The state that a computation leaves, also if it stops. -/
def final (act : Run σ α) (s : σ) : σ :=
  match act s with
  | .ok _ s' | .error _ s' => s'

theorem final_of_ok {act : Run σ α} {s s' : σ} {a : α} (done : act s = .ok a s') : act.final s = s' := by
  rw [final, done]

theorem final_of_error {act : Run σ α} {s s' : σ} {fault : Fault} (failed : act s = .error fault s') :
    act.final s = s' := by
  rw [final, failed]

theorem outcome_of_ok {act : Run σ α} {s s' : σ} {a : α} (done : act s = .ok a s') : act.outcome s = .ok a := by
  rw [outcome, done]

theorem outcome_of_error {act : Run σ α} {s s' : σ} {fault : Fault} (failed : act s = .error fault s') :
    act.outcome s = .error fault := by
  rw [outcome, failed]

theorem outcome_bind_of_ok {act : Run σ α} {s s' : σ} {a : α} (done : act s = .ok a s') (f : α → Run σ β) :
    (act >>= f).outcome s = (f a).outcome s' := by
  unfold outcome
  rw [bind_of_ok done]

theorem outcome_map (act : Run σ α) (f : α → β) (s : σ) : (f <$> act).outcome s = f <$> act.outcome s := by
  rw [← bind_pure_comp]
  cases done : act s with
  | ok a s' =>
    rw [outcome_bind_of_ok done, outcome_of_ok done]
    rfl
  | error fault s' =>
    rw [outcome_of_error (bind_of_error done _), outcome_of_error done]
    rfl

theorem outcome_of_lift {act : Run σ α} {result : Except Fault α} {s s' : σ}
    (run : act s = (liftM result : Run σ α) s') : act.outcome s = result := by
  unfold outcome
  rw [run]
  cases result <;> rfl

theorem final_of_lift {act : Run σ α} {result : Except Fault α} {s s' : σ}
    (run : act s = (liftM result : Run σ α) s') : act.final s = s' := by
  unfold final
  rw [run]
  cases result <;> rfl

/-- The computation can give `a`. -/
def Gives (act : Run σ α) (a : α) : Prop := ∃ s s', act s = .ok a s'

theorem Gives.bind {act : Run σ α} {f : α → Run σ β} {b : β} (gives : (act >>= f).Gives b) :
    ∃ a, act.Gives a ∧ (f a).Gives b := by
  obtain ⟨s, s', done⟩ := gives
  obtain ⟨a, middle, first, second⟩ := bind_eq_ok.mp done
  exact ⟨a, ⟨s, middle, first⟩, ⟨middle, s', second⟩⟩

theorem Gives.pure {a b : α} (gives : (Pure.pure a : Run σ α).Gives b) : b = a := by
  obtain ⟨s, s', done⟩ := gives
  cases done
  rfl

theorem Gives.throw {fault : Fault} {a : α} : ¬ (throw fault : Run σ α).Gives a := by
  rintro ⟨s, s', done⟩
  cases done

theorem Gives.mapM {f : α → Run σ β} {l : List α} {results : List β} (gives : (l.mapM f).Gives results) :
    ∀ b ∈ results, ∃ a ∈ l, (f a).Gives b := by
  induction l generalizing results with
  | nil =>
    rw [List.mapM_nil] at gives
    rw [gives.pure]
    intro b listed
    cases listed
  | cons a l ih =>
    rw [List.mapM_cons] at gives
    obtain ⟨b, first, rest⟩ := gives.bind
    obtain ⟨others, later, last⟩ := rest.bind
    rw [last.pure]
    intro x listed
    rcases List.mem_cons.mp listed with rfl | further
    · exact ⟨a, List.mem_cons_self, first⟩
    · obtain ⟨y, among, given⟩ := ih later x further
      exact ⟨y, List.mem_cons_of_mem _ among, given⟩

theorem Gives.option_mapM {f : α → Run σ β} {o : Option α} {result : Option β}
    (gives : (o.mapM f).Gives result) : ∀ b ∈ result, ∃ a ∈ o, (f a).Gives b := by
  cases o with
  | none =>
    rw [Option.mapM_none] at gives
    rw [gives.pure]
    intro b given
    cases given
  | some a =>
    rw [Option.mapM_some, ← bind_pure_comp] at gives
    obtain ⟨b, first, last⟩ := gives.bind
    rw [last.pure]
    intro x given
    cases given
    exact ⟨a, rfl, first⟩

/-- Every result has the property. -/
def Returns (act : Run σ α) (Q : α → Prop) : Prop := ∀ a, act.Gives a → Q a

theorem Returns.bind {act : Run σ α} {f : α → Run σ β} {Q : β → Prop} (rest : ∀ a, (f a).Returns Q) :
    (act >>= f).Returns Q := by
  intro b gives
  obtain ⟨a, -, given⟩ := gives.bind
  exact rest a b given

theorem Returns.pure {a : α} {Q : α → Prop} (holds : Q a) : (Pure.pure a : Run σ α).Returns Q := by
  intro b gives
  rwa [gives.pure]

theorem Returns.throw {fault : Fault} {Q : α → Prop} : (throw fault : Run σ α).Returns Q :=
  fun _ gives => absurd gives Gives.throw

/-- From a state with the property `P`, every result has the property `Q` and `P` is kept. -/
def Yields (act : Run σ α) (P : σ → Prop) (Q : α → Prop) : Prop :=
  ∀ ⦃s a s'⦄, P s → act s = .ok a s' → Q a ∧ P s'

namespace Yields

variable {P : σ → Prop} {Q : α → Prop} {R : β → Prop} {γ : Type}

theorem pure {a : α} (holds : Q a) : (Pure.pure a : Run σ α).Yields P Q := by
  intro s b s' kept done
  cases done
  exact ⟨holds, kept⟩

theorem throw {fault : Fault} : (throw fault : Run σ α).Yields P Q := by
  intro s b s' kept done
  cases done

theorem imp {act : Run σ α} {Q' : α → Prop} (yields : act.Yields P Q) (implies : ∀ a, Q a → Q' a) :
    act.Yields P Q' := by
  intro s a s' kept done
  obtain ⟨holds, keptLast⟩ := yields kept done
  exact ⟨implies a holds, keptLast⟩

theorem bind {act : Run σ α} {f : α → Run σ β} (first : act.Yields P Q) (rest : ∀ a, Q a → (f a).Yields P R) :
    (act >>= f).Yields P R := by
  intro s b s' kept done
  obtain ⟨a, middle, given, last⟩ := bind_eq_ok.mp done
  obtain ⟨holds, keptMiddle⟩ := first kept given
  exact rest a holds keptMiddle last

theorem liftError {result : Except Error α} (given : ∀ a, result = .ok a → Q a) :
    (liftM result : Run σ α).Yields P Q := by
  cases result with
  | ok a => exact pure (given a rfl)
  | error e => exact throw

theorem mapM {f : α → Run σ β} {l : List α} {F : α → γ} {G : β → γ}
    (each : ∀ x ∈ l, (f x).Yields P fun b => F x = G b) : (l.mapM f).Yields P fun results => l.map F = results.map G := by
  induction l with
  | nil => exact pure rfl
  | cons x l ih =>
    rw [List.mapM_cons]
    refine bind (each x List.mem_cons_self) fun b head => ?_
    refine bind (ih fun y listed => each y (List.mem_cons_of_mem _ listed)) fun others tail => ?_
    exact pure (by rw [List.map_cons, List.map_cons, head, tail])

end Yields

end AdaStubs.Run
