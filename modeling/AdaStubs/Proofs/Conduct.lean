import AdaStubs.Proofs.Run

/-!
# Conduct of computations

What a computation may do to its state, said once for every way of putting computations together: it keeps
an invariant, moves the state along a relation, leaves each node it refers to settled, and fails only in
certain ways.
-/

namespace AdaStubs

structure Conduct (σ : Type) where
  holds : σ → Prop
  /-- How a computation that succeeds may move the state. -/
  moves : σ → σ → Prop
  /-- How one that fails may leave it. -/
  stops : σ → σ → Prop
  /-- What is known of a node once it has been referred to. -/
  settled : Nat → σ → Prop
  /-- What a computation may fail with. -/
  faults : Fault → Prop := fun _ => True

structure Conduct.Lawful {σ : Type} (c : Conduct σ) : Prop where
  rest : ∀ {s}, c.holds s → c.moves s s
  trans : ∀ {s s' s''}, c.holds s → c.moves s s' → c.moves s' s'' → c.moves s s''
  halt : ∀ {s}, c.holds s → c.stops s s
  halt_after : ∀ {s s' s''}, c.holds s → c.moves s s' → c.stops s' s'' → c.stops s s''
  stays : ∀ {n s s'}, c.settled n s → c.moves s s' → c.settled n s'

namespace Run

variable {σ α β : Type}

/-- The computation keeps to the conduct, and settles `nodes`. -/
def Follows (act : Run σ α) (c : Conduct σ) (nodes : List Nat) : Prop :=
  ∀ s, c.holds s → match act s with
    | .ok _ s' => c.holds s' ∧ c.moves s s' ∧ ∀ n ∈ nodes, c.settled n s'
    | .error fault s' => c.stops s s' ∧ c.faults fault

namespace Follows

variable {c : Conduct σ} {act : Run σ α} {f : α → Run σ β} {nodes more : List Nat}

theorem ok (follows : act.Follows c nodes) {s s' : σ} {a : α} (holds : c.holds s)
    (done : act s = .ok a s') : c.holds s' ∧ c.moves s s' ∧ ∀ n ∈ nodes, c.settled n s' := by
  have run := follows _ holds
  rwa [done] at run

theorem error (follows : act.Follows c nodes) {s s' : σ} {fault : Fault} (holds : c.holds s)
    (failed : act s = .error fault s') : c.stops s s' ∧ c.faults fault := by
  have run := follows _ holds
  rwa [failed] at run

theorem weaken (follows : act.Follows c more) (fewer : ∀ n ∈ nodes, n ∈ more) : act.Follows c nodes := by
  intro s holds
  have run := follows _ holds
  cases done : act s with
  | error fault s' => rwa [done] at run
  | ok a s' =>
    rw [done] at run
    exact ⟨run.1, run.2.1, fun n listed => run.2.2 n (fewer n listed)⟩

theorem settle (follows : act.Follows c []) (always : ∀ n s, c.settled n s) : act.Follows c nodes := by
  intro s holds
  have run := follows s holds
  cases done : act s with
  | error fault s' => rwa [done] at run
  | ok a s' =>
    rw [done] at run
    exact ⟨run.1, run.2.1, fun n _ => always n s'⟩

theorem pure (lawful : c.Lawful) (a : α) : (Pure.pure a : Run σ α).Follows c [] := by
  intro s holds
  exact ⟨holds, lawful.rest holds, fun n listed => absurd listed List.not_mem_nil⟩

theorem throw (lawful : c.Lawful) {fault : Fault} (permitted : c.faults fault) :
    (throw fault : Run σ α).Follows c nodes :=
  fun _ holds => ⟨lawful.halt holds, permitted⟩

theorem get (lawful : c.Lawful) : (get : Run σ σ).Follows c [] :=
  fun _ holds => ⟨holds, lawful.rest holds, fun _ listed => absurd listed List.not_mem_nil⟩

theorem modify {g : σ → σ} (step : ∀ {s}, c.holds s → c.holds (g s) ∧ c.moves s (g s)) :
    (modify g : Run σ PUnit).Follows c [] := by
  intro s holds
  obtain ⟨held, moved⟩ := step holds
  exact ⟨held, moved, fun _ listed => absurd listed List.not_mem_nil⟩

theorem liftFault (lawful : c.Lawful) {result : Except Fault α}
    (permitted : ∀ {fault}, result = .error fault → c.faults fault) : (liftM result : Run σ α).Follows c [] := by
  cases result with
  | ok a => exact pure lawful a
  | error fault => exact throw lawful (permitted rfl)

theorem liftError (lawful : c.Lawful) {result : Except Error α}
    (permitted : ∀ {e}, result = .error e → c.faults (.error e)) : (liftM result : Run σ α).Follows c [] := by
  cases result with
  | ok a => exact pure lawful a
  | error e => exact throw lawful (permitted rfl)

/-- The form that keeps what the first part has found out. -/
theorem bindRun (lawful : c.Lawful) (first : act.Follows c nodes)
    (second : ∀ {s a s'}, c.holds s → act s = .ok a s' → (f a).Follows c more) :
    (act >>= f).Follows c (nodes ++ more) := by
  intro s holds
  have run := first s holds
  rw [bind_apply]
  cases done : act s with
  | error fault s' => rwa [done] at run
  | ok a middle =>
    rw [done] at run
    obtain ⟨held, moved, settled⟩ := run
    have rest := second holds done middle held
    dsimp only
    cases last : f a middle with
    | error fault s' =>
      rw [last] at rest
      exact ⟨lawful.halt_after holds moved rest.1, rest.2⟩
    | ok b s' =>
      rw [last] at rest
      obtain ⟨heldLast, movedLast, settledLast⟩ := rest
      refine ⟨heldLast, lawful.trans holds moved movedLast, ?_⟩
      intro n listed
      rcases List.mem_append.mp listed with early | late
      · exact lawful.stays (settled n early) movedLast
      · exact settledLast n late

theorem bindGives (lawful : c.Lawful) (first : act.Follows c nodes)
    (second : ∀ a, act.Gives a → (f a).Follows c more) : (act >>= f).Follows c (nodes ++ more) :=
  bindRun lawful first fun _ done => second _ ⟨_, _, done⟩

theorem bind (lawful : c.Lawful) (first : act.Follows c nodes) (second : ∀ a, (f a).Follows c more) :
    (act >>= f).Follows c (nodes ++ more) :=
  bindRun lawful first fun {_ a _} _ _ => second a

theorem getThen {g : σ → Run σ β} (rest : ∀ s, c.holds s → (g s).Follows c nodes) :
    (MonadState.get >>= g).Follows c nodes :=
  fun s holds => rest s holds s holds

/-- The form for a first part that settles nothing of interest. -/
theorem seq (lawful : c.Lawful) (first : act.Follows c []) (second : ∀ a, (f a).Follows c nodes) :
    (act >>= f).Follows c nodes :=
  bind lawful first second

/-- The form for a last part that settles nothing of interest. -/
theorem before (lawful : c.Lawful) (first : act.Follows c nodes) (second : ∀ a, (f a).Follows c []) :
    (act >>= f).Follows c nodes :=
  (bind lawful first second).weaken fun _ listed => List.mem_append_left _ listed

theorem map (lawful : c.Lawful) (follows : act.Follows c nodes) (g : α → β) :
    (g <$> act).Follows c nodes := by
  rw [← bind_pure_comp]
  exact before lawful follows fun a => pure lawful (g a)

theorem mapM (lawful : c.Lawful) {l : List α} {refs : α → List Nat}
    (each : ∀ x ∈ l, (f x).Follows c (refs x)) : (l.mapM f).Follows c (l.flatMap refs) := by
  induction l with
  | nil => exact pure lawful []
  | cons x l ih =>
    rw [List.mapM_cons, List.flatMap_cons]
    refine bind lawful (each x List.mem_cons_self) fun b => ?_
    refine before lawful (ih fun y listed => each y (List.mem_cons_of_mem _ listed)) fun rest => ?_
    exact pure lawful _

theorem forM (lawful : c.Lawful) {g : α → Run σ PUnit} {l : List α} {refs : α → List Nat}
    (each : ∀ x ∈ l, (g x).Follows c (refs x)) : (l.forM g).Follows c (l.flatMap refs) := by
  induction l with
  | nil => exact pure lawful _
  | cons x l ih =>
    rw [List.flatMap_cons]
    show (g x >>= fun _ => l.forM g).Follows c _
    exact bind lawful (each x List.mem_cons_self) fun _ =>
      ih fun y listed => each y (List.mem_cons_of_mem _ listed)

theorem foldlM (lawful : c.Lawful) {g : β → α → Run σ β} {l : List α}
    (each : ∀ b, ∀ x ∈ l, (g b x).Follows c []) {start : β} : (l.foldlM g start).Follows c [] := by
  induction l generalizing start with
  | nil => exact pure lawful start
  | cons x l ih =>
    refine seq lawful (each start x List.mem_cons_self) fun b => ?_
    exact ih fun b y listed => each b y (List.mem_cons_of_mem _ listed)

theorem allM (lawful : c.Lawful) {p : α → Run σ Bool} {l : List α} (each : ∀ x ∈ l, (p x).Follows c []) :
    (l.allM p).Follows c [] := by
  induction l with
  | nil => exact pure lawful _
  | cons x l ih =>
    unfold List.allM
    refine seq lawful (each x List.mem_cons_self) fun chosen => ?_
    cases chosen with
    | true => exact ih fun y listed => each y (List.mem_cons_of_mem _ listed)
    | false => exact pure lawful _

theorem filterM (lawful : c.Lawful) {p : α → Run σ Bool} {l : List α} (each : ∀ x ∈ l, (p x).Follows c []) :
    (l.filterM p).Follows c [] := by
  have walk : ∀ {l acc : List α}, (∀ x ∈ l, (p x).Follows c []) → (l.filterAuxM p acc).Follows c [] := by
    intro l
    induction l with
    | nil => exact fun _ => pure lawful _
    | cons x l ih =>
      intro acc each
      unfold List.filterAuxM
      refine seq lawful (each x List.mem_cons_self) fun chosen => ?_
      exact ih fun y listed => each y (List.mem_cons_of_mem _ listed)
  exact seq lawful (walk each) fun _ => pure lawful _

theorem option_mapM (lawful : c.Lawful) {o : Option α} {refs : α → List Nat}
    (each : ∀ x ∈ o, (f x).Follows c (refs x)) : (o.mapM f).Follows c (o.toList.flatMap refs) := by
  cases o with
  | none => exact pure lawful none
  | some x =>
    have settles := map lawful (each x rfl) some
    simpa using settles

end Follows

end Run

/-- The conduct of keeping an invariant as long as nothing fails. -/
def Conduct.keeping {σ : Type} (P : σ → Prop) : Conduct σ :=
  ⟨P, fun _ _ => True, fun _ _ => True, fun _ _ => True, fun _ => True⟩

theorem Conduct.keeping_lawful {σ : Type} (P : σ → Prop) : (Conduct.keeping P).Lawful :=
  ⟨fun _ => trivial, fun _ _ _ => trivial, fun _ => trivial, fun _ _ _ => trivial, fun _ _ => trivial⟩

theorem Run.Follows.keeping {σ α : Type} {P : σ → Prop} {act : Run σ α} {nodes : List Nat}
    (keeps : ∀ {s a s'}, P s → act s = .ok a s' → P s') : act.Follows (.keeping P) nodes := by
  intro s holds
  cases done : act s with
  | error fault s' => exact ⟨trivial, trivial⟩
  | ok a s' => exact ⟨keeps holds done, trivial, fun _ _ => trivial⟩

/-- The conduct of keeping an invariant also where something fails. -/
def Conduct.upholding {σ : Type} (P : σ → Prop) : Conduct σ :=
  ⟨P, fun _ _ => True, fun _ s' => P s', fun _ _ => True, fun _ => True⟩

theorem Conduct.upholding_lawful {σ : Type} (P : σ → Prop) : (Conduct.upholding P).Lawful :=
  ⟨fun _ => trivial, fun _ _ _ => trivial, id, fun _ _ stopped => stopped, fun _ _ => trivial⟩

theorem Run.Follows.final {σ α : Type} {P : σ → Prop} {act : Run σ α} {nodes : List Nat}
    (follows : act.Follows (.upholding P) nodes) {s : σ} (holds : P s) : P (act.final s) := by
  have run := follows s holds
  unfold Run.final
  cases done : act s with
  | ok a s' =>
    rw [done] at run
    exact run.1
  | error fault s' =>
    rw [done] at run
    exact run.1

theorem Run.Follows.yields {σ α : Type} {c : Conduct σ} {act : Run σ α} {nodes : List Nat}
    (follows : act.Follows c nodes) : act.Yields c.holds fun _ => True :=
  fun _ _ _ holds done => ⟨trivial, (follows.ok holds done).1⟩

/-- The conduct of keeping an invariant and not failing. -/
def Conduct.ensuring {σ : Type} (P : σ → Prop) : Conduct σ :=
  ⟨P, fun _ _ => True, fun _ _ => True, fun _ _ => True, fun _ => False⟩

theorem Conduct.ensuring_lawful {σ : Type} (P : σ → Prop) : (Conduct.ensuring P).Lawful :=
  ⟨fun _ => trivial, fun _ _ _ => trivial, fun _ => trivial, fun _ _ _ => trivial, fun _ _ => trivial⟩

theorem Run.Follows.exists_ok {σ α : Type} {P : σ → Prop} {act : Run σ α} {nodes : List Nat}
    (follows : act.Follows (.ensuring P) nodes) {s : σ} (holds : P s) : ∃ a s', act s = .ok a s' ∧ P s' := by
  cases done : act s with
  | ok a s' => exact ⟨a, s', rfl, (follows.ok holds done).1⟩
  | error fault s' => exact (follows.error holds done).2.elim

/-- The conduct of moving the state along a relation, also where something fails. -/
def Conduct.along {σ : Type} (R : σ → σ → Prop) : Conduct σ :=
  ⟨fun _ => True, R, R, fun _ _ => True, fun _ => True⟩

theorem Conduct.along_lawful {σ : Type} {R : σ → σ → Prop} (refl : ∀ s, R s s)
    (trans : ∀ {s s' s''}, R s s' → R s' s'' → R s s'') : (Conduct.along R).Lawful :=
  ⟨fun _ => refl _, fun _ => trans, fun _ => refl _, fun _ => trans, fun _ _ => trivial⟩

theorem Run.follows_along_iff {σ α : Type} {R : σ → σ → Prop} {act : Run σ α} {nodes : List Nat} :
    act.Follows (.along R) nodes ↔ ∀ s, R s (act.final s) := by
  have final_eq (s : σ) : act.final s = match act s with | .ok _ s' | .error _ s' => s' := rfl
  refine forall_congr' fun s => ?_
  rw [final_eq]
  cases act s <;> simp [Conduct.along]

theorem Run.Follows.along_mono {σ α : Type} {R R' : σ → σ → Prop} {act : Run σ α} {nodes : List Nat}
    (implies : ∀ {s s'}, R s s' → R' s s') (follows : act.Follows (.along R) nodes) : act.Follows (.along R') nodes :=
  follows_along_iff.mpr fun s => implies (follows_along_iff.mp follows s)

end AdaStubs
