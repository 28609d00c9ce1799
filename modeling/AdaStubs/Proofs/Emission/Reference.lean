import AdaStubs.Proofs.Emission.External

/-!
# The conduct of a reference

What a conduct has to permit for the questions that a reference asks, and for what is written on its account,
to keep to it. A conduct may hold of a declaration under way in another form than before and after.
-/

namespace AdaStubs.Emit

open Ada Run Dependencies

/-- What a session records of a reference keeps to the conduct. -/
structure Records (ctx : Context) (c : Conduct Session) : Prop where
  lawful : c.Lawful
  wellFormed : ctx.tree.WellFormed
  requires : ∀ package, (require package).Follows c []
  uses : ∀ package, (use package).Follows c []
  records : ∀ (a : Aspect) (node : Nat), (updateDeps (a.recordPackage · (ctx.tree.packageOf node))).Follows c []
  mentions : ∀ a node, (mention a node).Follows c []
  marks : ∀ (a : Aspect) (node : Nat), (updateProgress (a.markImported · node)).Follows c []
  units : ∀ {s}, c.holds s → Fits ctx c (fun _ => true) s.deps.unit

/-- What a session notes while it refers to declarations keeps to the conduct. -/
structure Notes (ctx : Context) (c : Conduct Session) : Prop extends Records ctx c where
  localNames : ∀ {node kind}, ctx.tree.kind? node = some kind → (localName ctx node).Follows c []
  fullNames : ∀ {node kind}, ctx.tree.kind? node = some kind → (fullName ctx node).Follows c []

section

variable {ctx : Context} {c : Conduct Session} {a : Aspect} {node : Nat}

theorem expectType_follows (lawful : c.Lawful) (fits : Fits ctx c (fun _ => true) node)
    (refused : ∀ {kind}, ctx.tree.kind? node = some kind → kind.isType = false →
      c.faults (.error (.wrongKind node "type" kind))) : (expectType ctx node).Follows c [] := by
  unfold expectType
  apply kindOf_follows lawful fits
  intro kind found _
  cases isType : kind.isType with
  | true => exact .pure lawful _
  | false => exact .throw lawful (refused found isType)

theorem takeDeclared_follows (step : ∀ {s}, c.holds s → c.holds { s with declared := [] } ∧
    c.moves s { s with declared := [] }) : takeDeclared.Follows c [] := by
  intro s holds
  obtain ⟨held, moved⟩ := step holds
  exact ⟨held, moved, fun _ listed => absurd listed List.not_mem_nil⟩

section

variable (records : Records ctx c)
include records

theorem requireRuntimeType_follows (package : String) : (requireRuntimeType ctx a package).Follows c [] := by
  unfold requireRuntimeType
  refine .seq records.lawful (records.requires _) fun _ => ?_
  split
  · exact .seq records.lawful (records.uses _) fun _ => records.requires _
  · exact .pure records.lawful _

theorem isExternal_follows (fits : Fits ctx c (fun _ => true) node) : (isExternal ctx a node).Follows c [] := by
  unfold isExternal
  apply kindOf_follows records.lawful fits
  intro kind found _
  have runtime (package : String) : (do
      requireRuntimeType ctx a package
      return true : Emit Bool).Follows c [] :=
    .seq records.lawful (requireRuntimeType_follows records package) fun _ => .pure records.lawful _
  have ordinary : (do
      let deps := (← get).deps
      if ← a.isImported deps ctx.tree node then return true
      let package := ctx.tree.packageOf node
      if package == deps.unit then return false
      updateDeps (a.recordPackage · package)
      return true : Emit Bool).Follows c [] := by
    apply Follows.getThen
    intro s holds
    refine .seq records.lawful (.liftFault records.lawful fun failed => ?_) fun imported => ?_
    · rw [Aspect.isImported_eq] at failed
      have missing : ctx.tree.kind? s.deps.unit = none := (reaches_error failed).resolve_left (by simp [found])
      exact (records.units holds).resolve_left (by simp [Tree.hasKind, missing]) _
    · cases imported with
      | true => exact .pure records.lawful _
      | false =>
        rw [if_neg Bool.false_ne_true]
        dsimp only
        split
        · exact .pure records.lawful _
        · exact .seq records.lawful (records.records a node) fun _ => .pure records.lawful _
  cases kind with
  | primitive p => exact runtime _
  | string bound wide =>
    cases bound with
    | none => exact runtime _
    | some bound => exact ordinary
  | _ => exact ordinary

/-- The name of the type is asked for in the one form that where it comes from calls for. -/
theorem refer_follows_of_names {resolve : Nat → Emit String} (typed : (expectType ctx node).Follows c [])
    (outside : ctx.tree.hasKind Kind.isType node = true → ∀ {s seen}, c.holds s →
      Sighting ctx a node s true seen → (typeName ctx node true).Follows c [])
    (inside : ctx.tree.hasKind Kind.isType node = true → ∀ {s seen}, c.holds s →
      Sighting ctx a node s false seen →
        (place (produce ctx a resolve node)).Follows c [] ∧ (typeName ctx node false).Follows c []) :
    (refer ctx a resolve node).Follows c [] := by
  unfold refer
  refine .bindRun records.lawful typed fun _ done => ?_
  have isType := (expectType_run done).2
  obtain ⟨present, found, -⟩ := Tree.exists_of_hasKind isType
  have fits : Fits ctx c (fun _ => true) node := .inl (Tree.hasKind_of_kind (Tree.kind?_eq found) rfl)
  refine .bindRun records.lawful (isExternal_follows records fits) fun {_ outer _} holds decided => ?_
  cases outer with
  | true =>
    refine .seq records.lawful (records.marks a node) fun _ => ?_
    refine .seq records.lawful (outside isType holds (isExternal_sighting decided)) fun name => ?_
    exact .seq records.lawful (records.mentions a node) fun _ => .pure records.lawful _
  | false =>
    obtain ⟨placed, named⟩ := inside isType holds (isExternal_sighting decided)
    exact .seq records.lawful placed fun _ => named

end

variable (notes : Notes ctx c)
include notes

theorem enumeratorName_follows (fits : Fits ctx c (fun _ => true) node) :
    (enumeratorName ctx node).Follows c [] := by
  unfold enumeratorName
  refine .bindRun notes.lawful (isExternal_follows notes.toRecords fits) fun {_ outside _} _ done => ?_
  obtain ⟨kind, found⟩ := (isExternal_sighting done).found
  cases outside with
  | true =>
    refine .seq notes.lawful (notes.fullNames found) fun name => ?_
    exact .seq notes.lawful (notes.mentions .declaration node) fun _ => .pure notes.lawful _
  | false => exact notes.localNames found

theorem Notes.allows {written : Nat → Prop}
    (sizes : ∀ {node dims element}, ctx.tree.kind? node = some (.array dims element) →
      (isFixedSize ctx element).Follows c [])
    (enumerators : ∀ {node kind e}, ctx.tree.kind? node = some kind → e ∈ kind.enumerators →
      Fits ctx c (fun _ => true) e)
    (bases : ∀ {node kind base}, written node → ctx.tree.kind? node = some kind → base ∈ kind.firstBase? →
      (updateDeps (·.record base)).Follows c [] ∧ (fullName ctx base).Follows c [])
    (bounds : ∀ {node kind e}, ctx.tree.kind? node = some kind → kind.BoundRefused node e → c.faults (.error e)) :
    Allows ctx c written where
  lawful := notes.lawful
  wellFormed := notes.wellFormed
  localNames := notes.localNames
  fullNames := notes.fullNames
  sizes := sizes
  requires := notes.requires
  uses := notes.uses
  enumerators found listed := enumeratorName_follows notes (enumerators found listed)
  bases := bases
  bounds := bounds

omit notes in
theorem place_follows (lawful : c.Lawful) (hoists : ∀ items, (hoist items).Follows c []) {act : Emit (List Item)}
    {nodes : List Nat} (follows : act.Follows c nodes) : (place act).Follows c nodes :=
  .before lawful follows hoists

/-- A reference keeps to the conduct if it does where the type has to be written first. -/
theorem refer_follows {resolve : Nat → Emit String} {written : Nat → Prop} (allows : Allows ctx c written)
    (typed : (expectType ctx node).Follows c [])
    (placed : ctx.tree.hasKind Kind.isType node = true → ∀ {s seen}, c.holds s →
      Sighting ctx a node s false seen → (place (produce ctx a resolve node)).Follows c []) :
    (refer ctx a resolve node).Follows c [] := by
  have named (isType : ctx.tree.hasKind Kind.isType node = true) (qualified : Bool) :
      (typeName ctx node qualified).Follows c [] := by
    obtain ⟨present, found, -⟩ := Tree.exists_of_hasKind isType
    exact typeName_follows allows (Tree.kind?_eq found) qualified
  apply refer_follows_of_names notes.toRecords typed
  · exact fun isType _ _ _ _ => named isType true
  · exact fun isType _ _ holds sighting => ⟨placed isType holds sighting, named isType false⟩

end

/-- What is written for a node keeps to a conduct `c` if, while it is under way, it keeps to `d`. -/
theorem produce_follows {ctx : Context} {c d : Conduct Session} {a : Aspect} {node : Nat} {nodes : List Nat}
    {resolve : Nat → Emit String} (lawful : c.Lawful)
    (enter : ∀ {s}, c.holds s → node ∉ s.progress.busy →
      d.holds { s with progress := s.progress.enter node })
    (leave : ∀ {s s'}, c.holds s → node ∉ s.progress.busy → d.holds s' →
      d.moves { s with progress := s.progress.enter node } s' →
      let last := { s' with
        progress := a.markDone (s'.progress.leave node) node,
        declared := s'.declared ++ if awaitsMarshalling ctx a node then [node] else [] }
      c.holds last ∧ c.moves s last)
    (abort : ∀ {s s'}, c.holds s → node ∉ s.progress.busy →
      d.stops { s with progress := s.progress.enter node } s' →
      c.stops s { s' with progress := s'.progress.leave node })
    (faults : ∀ {fault}, d.faults fault → c.faults fault)
    (item : ∀ {s}, c.holds s → node ∉ s.progress.busy → (a.item ctx resolve node).Follows d nodes) :
    (produce ctx a resolve node).Follows c [] := by
  intro s holds
  rw [produce_run]
  by_cases early : (a.isDone s.progress node || s.progress.isBusy node) = true
  · rw [if_pos early]
    exact ⟨holds, lawful.rest holds, fun _ listed => absurd listed List.not_mem_nil⟩
  · rw [if_neg early]
    simp only [Bool.or_eq_true, not_or, Bool.not_eq_true, isBusy_eq_false] at early
    cases run : a.item ctx resolve node { s with progress := s.progress.enter node } with
    | error fault s' =>
      obtain ⟨stopped, permitted⟩ := (item holds early.2).error (enter holds early.2) run
      exact ⟨abort holds early.2 stopped, faults permitted⟩
    | ok items s' =>
      obtain ⟨held, moved, -⟩ := (item holds early.2).ok (enter holds early.2) run
      obtain ⟨heldLast, movedLast⟩ := leave holds early.2 held moved
      exact ⟨heldLast, movedLast, fun _ listed => absurd listed List.not_mem_nil⟩

end AdaStubs.Emit
