import AdaStubs.Proofs.Emission.Footprint
import AdaStubs.Proofs.Idl.Scopes
import AdaStubs.Proofs.Naming.Queries

/-!
# Where a reference leads

The one question that decides how a declaration is referred to, whether it comes from outside the artifact,
by cases: what was found and what was recorded on the way.
-/

namespace AdaStubs

open Ada Run

/-- Types of the runtime library, which no unit declares. -/
def Kind.isRuntime : Kind → Bool
  | .primitive _ | .string none _ => true
  | _ => false

namespace Dependencies

/-- The scopes of `node` up to where its path meets that of `unit`. -/
def outerPath (t : Tree) (unit node : Nat) : List Nat :=
  (node :: t.ancestors node).takeWhile (!(unit :: t.ancestors unit).contains ·)

/-- A list recorded for `unit` has the package of `node`, if that is another one, or a scope of `node`. -/
def Reaches (t : Tree) (unit : Nat) (list : List Nat) (node : Nat) : Prop :=
  (t.packageOf node ≠ unit ∧ t.packageOf node ∈ list) ∨ ∃ scope ∈ outerPath t unit node, scope ∈ list

theorem reaches_iff {t : Tree} {unit node : Nat} {list : List Nat} {found : Bool}
    (done : reaches t unit list node = .ok found) : found = true ↔ Reaches t unit list node := by
  unfold reaches at done
  cases list with
  | nil =>
    cases done
    simp [Reaches]
  | cons first rest =>
    rw [if_neg (by simp)] at done
    cases present : t.need node with
    | error fault =>
      rw [present] at done
      cases done
    | ok reached =>
      rw [present] at done
      dsimp only [bind, Except.bind] at done
      split at done
      · next package =>
        cases done
        simp only [Bool.and_eq_true, bne_iff_ne, List.contains_iff_mem] at package
        simp [Reaches, package]
      · next other =>
        cases known : t.need unit with
        | error fault =>
          rw [known] at done
          cases done
        | ok around =>
          rw [known] at done
          cases done
          simp only [Bool.and_eq_true, bne_iff_ne, List.contains_iff_mem] at other
          rw [Reaches, or_iff_right other, List.any_eq_true]
          simp only [List.contains_iff_mem, outerPath]

theorem reaches_error {t : Tree} {unit node : Nat} {list : List Nat} {fault : Fault}
    (failed : reaches t unit list node = .error fault) : t.kind? node = none ∨ t.kind? unit = none := by
  have missing : ∀ {id}, t.need id = .error fault → t.kind? id = none := by
    intro id absent
    unfold Tree.need at absent
    split at absent
    · cases absent
    · next lookup => rw [Tree.kind?, lookup, Option.map_none]
  unfold reaches at failed
  cases list with
  | nil => cases failed
  | cons first rest =>
    rw [if_neg (by simp)] at failed
    cases present : t.need node with
    | error other =>
      rw [present] at failed
      cases failed
      exact .inl (missing present)
    | ok reached =>
      rw [present] at failed
      dsimp only [bind, Except.bind] at failed
      split at failed
      · cases failed
      · cases around : t.need unit with
        | error other =>
          rw [around] at failed
          cases failed
          exact .inr (missing around)
        | ok scopes =>
          rw [around] at failed
          cases failed

theorem Reaches.mono {t : Tree} {unit node : Nat} {list larger : List Nat}
    (grows : ∀ e ∈ list, e ∈ larger) (reaches : Reaches t unit list node) : Reaches t unit larger node := by
  rcases reaches with ⟨away, listed⟩ | ⟨scope, above, listed⟩
  · exact .inl ⟨away, grows _ listed⟩
  · exact .inr ⟨scope, above, grows _ listed⟩

theorem mem_appendNew {list : List Nat} {node e : Nat} : e ∈ appendNew list node ↔ e ∈ list ∨ e = node := by
  unfold appendNew
  split
  · next listed =>
    have known : node ∈ list := List.contains_iff_mem.mp listed
    constructor
    · exact .inl
    · rintro (earlier | rfl)
      · exact earlier
      · exact known
  · simp

end Dependencies

open Dependencies

/-- What an aspect has been recorded for. -/
def Aspect.recorded (a : Aspect) (d : Dependencies) : List Nat :=
  match a with
  | declaration => d.imports
  | marshalling => d.marshalImports

namespace Emit

/-- The ways in which a declaration is found to come from outside, or not. -/
inductive Sighting (ctx : Context) (a : Aspect) (node : Nat) (s : Session) : Bool → Session → Prop
  | runtime {kind : Kind} (found : ctx.tree.kind? node = some kind) (isRuntime : kind.isRuntime = true)
      (packages : List RuntimeImport) :
      Sighting ctx a node s true { s with deps := { s.deps with runtime := packages } }
  | reached {kind : Kind} (found : ctx.tree.kind? node = some kind) (ordinary : kind.isRuntime = false)
      (reaches : Reaches ctx.tree s.deps.unit (a.recorded s.deps) node) : Sighting ctx a node s true s
  | own {kind : Kind} (found : ctx.tree.kind? node = some kind) (ordinary : kind.isRuntime = false)
      (unreached : ¬ Reaches ctx.tree s.deps.unit (a.recorded s.deps) node)
      (home : ctx.tree.packageOf node = s.deps.unit) : Sighting ctx a node s false s
  | recorded {kind : Kind} (found : ctx.tree.kind? node = some kind) (ordinary : kind.isRuntime = false)
      (unreached : ¬ Reaches ctx.tree s.deps.unit (a.recorded s.deps) node)
      (away : ctx.tree.packageOf node ≠ s.deps.unit) :
      Sighting ctx a node s true { s with deps := a.recordPackage s.deps (ctx.tree.packageOf node) }

variable {ctx : Context} {a : Aspect} {node : Nat} {s s' : Session} {outside : Bool}

theorem Sighting.found (sighting : Sighting ctx a node s outside s') : ∃ kind, ctx.tree.kind? node = some kind := by
  cases sighting <;> exact ⟨_, ‹_›⟩

theorem Sighting.names_eq (sighting : Sighting ctx a node s outside s') : s'.names = s.names := by
  cases sighting <;> rfl

theorem Aspect.isImported_eq (a : Aspect) (d : Dependencies) (t : Tree) (node : Nat) :
    a.isImported d t node = reaches t d.unit (a.recorded d) node := by
  cases a <;> rfl

theorem requireRuntimeType_run (package : String) :
    ∃ packages, requireRuntimeType ctx a package s =
      .ok () { s with deps := { s.deps with runtime := packages } } := by
  cases a <;> exact ⟨_, rfl⟩

theorem isImported_run {imported : Bool}
    (done : (liftM (a.isImported s.deps ctx.tree node) : Emit Bool) s = .ok imported s') :
    s' = s ∧ (imported = true ↔ Reaches ctx.tree s.deps.unit (a.recorded s.deps) node) := by
  rw [Aspect.isImported_eq] at done
  cases answer : reaches ctx.tree s.deps.unit (a.recorded s.deps) node with
  | error fault =>
    rw [answer] at done
    cases done
  | ok found =>
    rw [answer] at done
    cases done
    exact ⟨rfl, reaches_iff answer⟩

theorem isExternal_sighting (done : isExternal ctx a node s = .ok outside s') :
    Sighting ctx a node s outside s' := by
  unfold isExternal at done
  cases found : ctx.tree.kind? node with
  | none =>
    rw [kindOf_of_none found] at done
    cases done
  | some kind =>
    rw [kindOf_of_kind found, pure_bind] at done
    have ordinary : (do
        let deps := (← get).deps
        if ← a.isImported deps ctx.tree node then return true
        let package := ctx.tree.packageOf node
        if package == deps.unit then return false
        updateDeps (a.recordPackage · package)
        return true : Emit Bool) s = .ok outside s' → kind.isRuntime = false →
        Sighting ctx a node s outside s' := by
      intro done ordinary
      rw [bind_of_ok (get_apply s)] at done
      obtain ⟨imported, middle, decided, rest⟩ := bind_eq_ok.mp done
      obtain ⟨same, decision⟩ := isImported_run decided
      rw [same] at rest
      cases imported with
      | true =>
        cases rest
        exact .reached found ordinary (decision.mp rfl)
      | false =>
        have unreached : ¬ Reaches ctx.tree s.deps.unit (a.recorded s.deps) node :=
          fun reaches => absurd (decision.mpr reaches) (by simp)
        by_cases home : ctx.tree.packageOf node = s.deps.unit
        · rw [if_neg (by simp), if_pos (by simpa using home)] at rest
          cases rest
          exact .own found ordinary unreached home
        · rw [if_neg (by simp), if_neg (by simpa using home)] at rest
          cases rest
          exact .recorded found ordinary unreached home
    have required : ∀ package, (do requireRuntimeType ctx a package; return true : Emit Bool) s =
        .ok outside s' → kind.isRuntime = true → Sighting ctx a node s outside s' := by
      intro package done isRuntime
      obtain ⟨packages, run⟩ : ∃ packages, requireRuntimeType ctx a package s = _ :=
        requireRuntimeType_run package
      rw [bind_of_ok run] at done
      cases done
      exact .runtime found isRuntime packages
    cases kind with
    | primitive p => exact required _ done rfl
    | string bound wide =>
      cases bound with
      | none => exact required _ done rfl
      | some bound => exact ordinary done rfl
    | _ => exact ordinary done rfl

/-! ## Names -/

theorem withNames_run {α : Type} {act : NameTable.Lookup α} {result : α}
    (done : withNames act s = .ok result s') : ∃ names, s' = { s with names } := by
  unfold withNames at done
  cases run : act s.names with
  | error fault names =>
    rw [run] at done
    cases done
  | ok value names =>
    rw [run] at done
    cases done
    exact ⟨names, rfl⟩

theorem withNames_lift {act : NameTable.Lookup String} {result : Except Fault String}
    (answers : NameTable.Answers ctx act result) (rests : NameTable.Rests ctx s.names) :
    ∃ names, NameTable.Rests ctx names ∧ withNames act s = (liftM result : Emit String) { s with names } := by
  obtain ⟨after, run, kept⟩ := answers rests
  refine ⟨after, kept, ?_⟩
  unfold withNames
  rw [run]
  cases result <;> rfl

theorem withNames_answers {act : NameTable.Lookup String} {result : Except Fault String} {name : String}
    (answers : NameTable.Answers ctx act result) (rests : NameTable.Rests ctx s.names)
    (done : withNames act s = .ok name s') :
    result = .ok name ∧ ∃ names, NameTable.Rests ctx names ∧ s' = { s with names } := by
  obtain ⟨names, kept, run⟩ := withNames_lift answers rests
  rw [run] at done
  cases result with
  | error fault => cases done
  | ok given =>
    cases done
    exact ⟨rfl, names, kept, rfl⟩

theorem typeName_run {qualified : Bool} {name : String} (done : typeName ctx node qualified s = .ok name s') :
    ∃ names, s' = { s with names } := by
  unfold typeName at done
  cases qualified
  all_goals
    obtain ⟨own, middle, first, last⟩ := bind_eq_ok.mp done
    cases found : ctx.tree.kind? node with
    | none =>
      rw [kindOf_of_none found] at last
      cases last
    | some kind =>
      rw [kindOf_of_kind found] at last
      cases kind <;> cases last <;> exact withNames_run first

theorem externalName_run {name : String} (done : externalName ctx a node s = .ok name s') :
    ∃ names, s' = { s with
      names, progress := a.markImported s.progress node,
      deps := s.deps.mention ⟨node, decide (a = .marshalling)⟩ } := by
  unfold externalName at done
  obtain ⟨_, marked, first, rest⟩ := bind_eq_ok.mp done
  cases first
  obtain ⟨named, middle, second, last⟩ := bind_eq_ok.mp rest
  obtain ⟨names, rfl⟩ := typeName_run second
  cases last
  exact ⟨names, rfl⟩

theorem isFixedSize_run {fixed : Bool} (done : isFixedSize ctx node s = .ok fixed s') :
    ∃ sizes, s' = { s with sizes } := by
  unfold isFixedSize withSizes at done
  split at done
  · cases done
    exact ⟨_, rfl⟩
  · cases done

theorem enumeratorName_run {name : String} (done : enumeratorName ctx node s = .ok name s') :
    ∃ outside seen, Sighting ctx .declaration node s outside seen ∧
      (outside = false ∧ localName ctx node seen = .ok name s' ∨
        outside = true ∧ ∃ named, fullName ctx node seen = .ok name named ∧
          s' = { named with deps := named.deps.mention ⟨node, false⟩ }) := by
  unfold enumeratorName at done
  obtain ⟨outside, seen, decided, rest⟩ := bind_eq_ok.mp done
  refine ⟨outside, seen, isExternal_sighting decided, ?_⟩
  cases outside with
  | true =>
    obtain ⟨full, named, first, last⟩ := bind_eq_ok.mp rest
    cases last
    exact .inr ⟨rfl, named, first, rfl⟩
  | false => exact .inl ⟨rfl, rest⟩

theorem expectType_run (done : expectType ctx node s = .ok () s') :
    s' = s ∧ ctx.tree.hasKind Kind.isType node = true := by
  unfold expectType at done
  cases found : ctx.tree.kind? node with
  | none =>
    rw [kindOf_of_none found] at done
    cases done
  | some kind =>
    rw [kindOf_of_kind found, pure_bind] at done
    cases type : kind.isType with
    | false =>
      rw [type] at done
      cases done
    | true =>
      rw [type] at done
      cases done
      exact ⟨rfl, by simp [Tree.hasKind, found, type]⟩

theorem refer_run {resolve : Nat → Emit String} {name : String}
    (done : refer ctx a resolve node s = .ok name s') :
    ctx.tree.hasKind Kind.isType node = true ∧ ∃ outside seen, Sighting ctx a node s outside seen ∧
      (outside = true ∧ externalName ctx a node seen = .ok name s' ∨
        outside = false ∧ ∃ placed, place (produce ctx a resolve node) seen = .ok () placed ∧
          typeName ctx node false placed = .ok name s') := by
  unfold refer at done
  obtain ⟨_, start, typed, rest⟩ := bind_eq_ok.mp done
  obtain ⟨rfl, isType⟩ := expectType_run typed
  obtain ⟨outside, seen, decided, rest⟩ := bind_eq_ok.mp rest
  refine ⟨isType, outside, seen, isExternal_sighting decided, ?_⟩
  cases outside with
  | true => exact .inl ⟨rfl, rest⟩
  | false =>
    obtain ⟨_, placed, written, last⟩ := bind_eq_ok.mp rest
    exact .inr ⟨rfl, placed, written, last⟩

/-! ## Writing -/

/-- Whether a declaration of this kind is handed to the marshalling package. -/
def awaitsMarshalling (ctx : Context) (a : Aspect) (node : Nat) : Bool :=
  a = .declaration && ctx.tree.hasKind (fun kind => kind.isType && !kind.isPrimitive) node

theorem finish_run {kind : Kind} (found : ctx.tree.kind? node = some kind) :
    finish ctx a node s = .ok () { s with
      progress := a.markDone s.progress node,
      declared := s.declared ++ if awaitsMarshalling ctx a node then [node] else [] } := by
  unfold finish awaitsMarshalling Tree.hasKind
  rw [kindOf_of_kind found, pure_bind, found, Option.any_some, ← Bool.and_assoc]
  cases (decide (a = .declaration) && kind.isType && !kind.isPrimitive) with
  | true => rfl
  | false =>
    rw [if_neg Bool.false_ne_true, if_neg Bool.false_ne_true, List.append_nil]
    rfl

theorem item_of_none {resolve : Nat → Emit String} (absent : ctx.tree.kind? node = none) :
    a.item ctx resolve node s = .error (.dangling node) s := by
  unfold Aspect.item
  cases a with
  | declaration =>
    unfold declare
    rw [kindOf_of_none absent]
    rfl
  | marshalling =>
    unfold encode
    rw [kindOf_of_none absent]
    rfl

/-- Nothing is written twice: an aspect that is done or under way is left alone. -/
theorem produce_run (resolve : Nat → Emit String) : produce ctx a resolve node s =
    if a.isDone s.progress node || s.progress.isBusy node then .ok [] s
    else match a.item ctx resolve node { s with progress := s.progress.enter node } with
      | .ok items inner => .ok items { inner with
          progress := a.markDone (inner.progress.leave node) node,
          declared := inner.declared ++ if awaitsMarshalling ctx a node then [node] else [] }
      | .error fault inner => .error fault { inner with progress := inner.progress.leave node } := by
  unfold produce
  rw [bind_of_ok (get_apply s)]
  split
  · rfl
  · rw [bind_apply]
    unfold during
    cases found : ctx.tree.kind? node with
    | none => rw [item_of_none found]
    | some kind =>
      cases a.item ctx resolve node { s with progress := s.progress.enter node } with
      | error fault inner => rfl
      | ok items inner =>
        dsimp only
        rw [bind_of_ok (finish_run found)]
        rfl

theorem isBusy_eq_false {p : Progress} : p.isBusy node = false ↔ node ∉ p.busy := by
  simp [Progress.isBusy]

theorem produce_ok {resolve : Nat → Emit String} {items : List Item}
    (done : produce ctx a resolve node s = .ok items s') :
    (a.isDone s.progress node = true ∨ s.progress.isBusy node = true) ∧ items = [] ∧ s' = s ∨
      a.isDone s.progress node = false ∧ s.progress.isBusy node = false ∧ ∃ inner,
        a.item ctx resolve node { s with progress := s.progress.enter node } = .ok items inner ∧
        s' = { inner with
          progress := a.markDone (inner.progress.leave node) node,
          declared := inner.declared ++ if awaitsMarshalling ctx a node then [node] else [] } := by
  rw [produce_run] at done
  split at done
  · next early =>
    cases done
    exact .inl ⟨Bool.or_eq_true_iff.mp early, rfl, rfl⟩
  · next fresh =>
    simp only [Bool.or_eq_true, not_or, Bool.not_eq_true] at fresh
    split at done
    · next written inner run =>
      cases done
      exact .inr ⟨fresh.1, fresh.2, inner, run, rfl⟩
    · cases done

theorem place_ok {act : Emit (List Item)} (done : place act s = .ok () s') :
    ∃ items written, act s = .ok items written ∧
      s' = { written with hoisted := written.hoisted ++ items } := by
  unfold place at done
  obtain ⟨items, written, first, last⟩ := bind_eq_ok.mp done
  cases last
  exact ⟨items, written, first, rfl⟩

end Emit

end AdaStubs
