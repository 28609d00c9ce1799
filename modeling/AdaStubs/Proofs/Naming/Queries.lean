import Mathlib.Control.Monad.Basic
import AdaStubs.Proofs.Naming.Refinement

/-!
# What a table answers

A table is asked one thing after another, and keeps what it has found also where it has to refuse. Main
statements:

* `answer_independent_of_history`: no earlier question changes an answer.
* `localName_total_and_apart`: everything has a name but an anonymous type without an owner, and the names
  of one namespace are spelled apart.
-/

namespace AdaStubs

inductive NameQuery where
  | localName (id : Nat)
  | fullName (id : Nat)

def NameQuery.ask (ctx : Context) : NameQuery → NameTable.Lookup String
  | .localName id => NameTable.localName ctx id
  | .fullName id => NameTable.fullName ctx id

namespace NameTable

/-- The table that a new one becomes when it is asked the questions in order. -/
def after (ctx : Context) (history : List NameQuery) : NameTable :=
  history.foldl (fun table query => (query.ask ctx).final table) .empty

/-- What the table says to `query` after the questions of `history`. -/
def answer (ctx : Context) (history : List NameQuery) (query : NameQuery) : Except Fault String :=
  (query.ask ctx).outcome (after ctx history)

variable {ctx : Context}

/-- The answer as a function of the tree and the settings. -/
def result (ctx : Context) : NameQuery → Except Fault String
  | .localName id => localResult ctx id
  | .fullName id => fullResult ctx id

theorem ask_run (wf : ctx.tree.WellFormed) (query : NameQuery) :
    Answers ctx (query.ask ctx) (result ctx query) := by
  cases query with
  | localName id => exact localName_run wf id
  | fullName id => exact fullName_run wf id

theorem rests_after (wf : ctx.tree.WellFormed) (history : List NameQuery) : Rests ctx (after ctx history) := by
  have keeps : ∀ (history : List NameQuery) (table : NameTable), Rests ctx table →
      Rests ctx (history.foldl (fun table query => (query.ask ctx).final table) table) := by
    intro history
    induction history with
    | nil =>
      intro table rests
      exact rests
    | cons query history ih =>
      intro table rests
      obtain ⟨next, run, held⟩ := ask_run wf query rests
      apply ih
      show Rests ctx ((query.ask ctx).final table)
      rwa [Run.final_of_lift run]
  exact keeps history .empty (rests_empty ctx)

theorem answer_eq_result (wf : ctx.tree.WellFormed) (history : List NameQuery) (query : NameQuery) :
    answer ctx history query = result ctx query := by
  obtain ⟨next, run, -⟩ := ask_run wf query (rests_after wf history)
  exact Run.outcome_of_lift run

theorem answer_independent_of_history (script : List Step) (settings : Settings)
    (history : List NameQuery) (query : NameQuery) :
    let ctx : Context := ⟨.ofSteps script, settings⟩
    answer ctx history query = (query.ask ctx).outcome .empty := by
  have wf := Tree.ofSteps_wellFormed script
  intro ctx
  calc answer ctx history query
      = result ctx query := answer_eq_result wf history query
    _ = answer ctx [] query := (answer_eq_result wf [] query).symm

/-! ## Totality -/

section Totality

variable {id : Nat} {node : Node}

theorem Lives.placed (wf : ctx.tree.WellFormed) (lives : Lives ctx id node) :
    (node.kind.isAnonymous = false ∧ ∃ scope, id ∈ ctx.tree.members scope) ∨
      (node.kind.isAnonymous = true ∧ ∃ scope, id ∈ ctx.tree.anonymous scope) := by
  have free := lives.free
  unfold fixedName? at free
  cases wf.placed lives.found with
  | root first nameless top kind => simp [kind, first] at free
  | primitive inside kind => cases shape : node.kind <;> simp_all [Kind.isPrimitive]
  | member scope outer inside found held named listed =>
    refine .inl ⟨?_, scope, by rwa [Tree.members_eq found]⟩
    cases shape : node.kind <;> simp_all [Kind.mayHold, Kind.isAnonymous]
  | anonymous scope outer inside found held kind nameless listed =>
    exact .inr ⟨kind, scope, by rwa [Tree.anonymous_eq found]⟩

theorem localResult_of_declared (wf : ctx.tree.WellFormed) (lives : Lives ctx id node)
    (named : node.kind.isAnonymous = false) {name : String}
    (given : (Namespace.declared ctx.tree (ctx.tree.namespaceOf id)).name? id = some name) :
    localResult ctx id = .ok name := by
  rw [localResult_of_lives lives, Namespace.name?_assign_of_named wf lives.found named, given]

theorem localResult_of_named (wf : ctx.tree.WellFormed) (found : ctx.tree.node? id = some node)
    (named : node.kind.isAnonymous = false) : ∃ name, localResult ctx id = .ok name := by
  cases fixed : fixedName? ctx id node.kind with
  | some name => exact ⟨name, localResult_of_fixed found fixed⟩
  | none =>
    have lives : Lives ctx id node := ⟨found, fixed⟩
    rcases lives.placed wf with ⟨-, scope, listed⟩ | ⟨anonymous, -⟩
    · obtain ⟨name, given⟩ := Namespace.exists_name_of_served (wf.mem_served listed)
      exact ⟨name, localResult_of_declared wf lives named given⟩
    · exact absurd anonymous (by simp [named])

theorem localResult_of_anonymous (wf : ctx.tree.WellFormed) (found : ctx.tree.node? id = some node)
    (anonymous : node.kind.isAnonymous = true) :
    (∃ name, localResult ctx id = .ok name) ∨
      ctx.settings.placeholder = none ∧ localResult ctx id = .error (.error (.unowned id node.kind)) := by
  cases fixed : fixedName? ctx id node.kind with
  | some name => exact .inl ⟨name, localResult_of_fixed found fixed⟩
  | none =>
    have lives : Lives ctx id node := ⟨found, fixed⟩
    rcases lives.placed wf with ⟨named, -⟩ | ⟨-, scope, listed⟩
    · exact absurd anonymous (by simp [named])
    · obtain ⟨present, inline⟩ := wf.inline_of_listed listed
      cases found.symm.trans inline.found
      have settled : (assigned ctx (ctx.tree.packageOf scope)).Settled id :=
        Namespace.settled_of_servedAnonymous wf (wf.mem_servedAnonymous listed) found
          ((fixedName?_inline inline).symm.trans fixed)
      rw [localResult_of_lives lives, inline.namespaceOf wf]
      rcases settled with named | refused
      · obtain ⟨name, given⟩ := Option.isSome_iff_exists.mp named
        exact .inl ⟨name, by rw [given]⟩
      · cases bare : ctx.settings.placeholder with
        | some placeholder =>
          rw [assigned, bare, Namespace.unowned_assign_of_placeholder wf] at refused
          cases refused
        | none =>
          rw [List.contains_iff_mem.mpr refused]
          cases (assigned ctx (ctx.tree.packageOf scope)).name? id with
          | some name => exact .inl ⟨name, rfl⟩
          | none => exact .inr ⟨rfl, rfl⟩

theorem fullResult_of_named (wf : ctx.tree.WellFormed) (found : ctx.tree.node? id = some node)
    (named : node.kind.isAnonymous = false) : ∃ name, fullResult ctx id = .ok name := by
  induction id using Nat.strongRecOn generalizing node with
  | ind id ih =>
    obtain ⟨own, given⟩ := localResult_of_named wf found named
    by_cases alone : ctx.tree.standsAlone id node.kind
    · exact ⟨own, fullResult_of_alone found given alone⟩
    · have above := ctx.tree.enclosingUnit_lt (Tree.ne_root_of_qualified alone)
      obtain ⟨outerNode, outerFound, isUnit⟩ := Tree.exists_of_hasKind (wf.isUnit_enclosingUnit id)
      obtain ⟨outer, around⟩ := ih _ above outerFound (Kind.isAnonymous_eq_false_of_isUnit isUnit)
      refine ⟨outer ++ "." ++ own, ?_⟩
      rw [fullResult_of_qualified found given alone, around]
      rfl

theorem fullResult_of_unit (wf : ctx.tree.WellFormed) (isUnit : ctx.tree.hasKind Kind.isUnit id = true) :
    ∃ name, fullResult ctx id = .ok name := by
  obtain ⟨node, found, unit⟩ := Tree.exists_of_hasKind isUnit
  exact fullResult_of_named wf found (Kind.isAnonymous_eq_false_of_isUnit unit)

end Totality

/-! ## Names apart -/

/-- Nodes that share their namespace with others: all but the root, the primitive types and the unbounded
strings. -/
structure Shares (t : Tree) (id : Nat) (node : Node) : Prop where
  found : t.node? id = some node
  inner : id ≠ Tree.root
  composed : node.kind.isPrimitive = false
  bounded : node.kind.runtimeString? = none

theorem Shares.lives {id : Nat} {node : Node} (shares : Shares ctx.tree id node) : Lives ctx id node := by
  refine ⟨shares.found, ?_⟩
  have composed := shares.composed
  have bounded := shares.bounded
  have inner := shares.inner
  unfold fixedName?
  cases shape : node.kind <;> simp_all [Kind.isPrimitive]

theorem Lives.name?_of_result {id : Nat} {node : Node} (lives : Lives ctx id node) {name : String}
    (given : localResult ctx id = .ok name) :
    (assigned ctx (ctx.tree.namespaceOf id)).name? id = some name := by
  rw [localResult_of_lives lives] at given
  split at given
  · next kept => rwa [← Except.ok.inj given]
  · cases given

theorem localName_total_and_apart (script : List Step) (settings : Settings) (history : List NameQuery) :
    let ctx : Context := ⟨.ofSteps script, settings⟩
    let name (id : Nat) := answer ctx history (.localName id)
    (∀ id node, ctx.tree.node? id = some node → node.kind.isAnonymous = false → ∃ a, name id = .ok a) ∧
    (∀ id node, ctx.tree.node? id = some node → node.kind.isAnonymous = true →
      (∃ a, name id = .ok a) ∨
        settings.placeholder = none ∧ name id = .error (.error (.unowned id node.kind))) ∧
    (∀ id node other otherNode a b, Shares ctx.tree id node → Shares ctx.tree other otherNode → id ≠ other →
      ctx.tree.namespaceOf id = ctx.tree.namespaceOf other → name id = .ok a → name other = .ok b →
      Ada.fold a ≠ Ada.fold b) ∧
    (∀ id node a, Shares ctx.tree id node → name id = .ok a →
      ∀ seed ∈ ctx.tree.seeds (ctx.tree.namespaceOf id), Ada.fold a ≠ Ada.fold seed) := by
  intro ctx name
  have wf : ctx.tree.WellFormed := Tree.ofSteps_wellFormed script
  have name_eq : ∀ id, name id = localResult ctx id := fun id => answer_eq_result wf history (.localName id)
  simp only [name_eq]
  refine ⟨?_, ?_, ?_, ?_⟩
  · intro id node found named
    exact localResult_of_named wf found named
  · intro id node found anonymous
    exact localResult_of_anonymous wf found anonymous
  · intro id node other otherNode a b shares otherShares differ home given otherGiven
    have apart := Namespace.assign_apart wf settings.placeholder (ctx.tree.namespaceOf other)
    have kept := shares.lives.name?_of_result given
    rw [home] at kept
    exact apart.names_differ kept (otherShares.lives.name?_of_result otherGiven) differ
  · intro id node a shares given seed listed same
    have apart := Namespace.assign_apart wf settings.placeholder (ctx.tree.namespaceOf id)
    have kept := shares.lives.name?_of_result given
    exact apart.name_not_seed kept (same ▸ List.mem_map_of_mem listed)

/-- In an interface `Ref` is taken from the start. The sequence at the root has no owner. -/
theorem localName_apart_in_interface :
    let script : List Step := [.interface 0 "I" [], .struct 1 "Ref", .struct 1 "S", .sequence 0 2 none]
    let name (id : Nat) := answer ⟨.ofSteps script, {}⟩ [.fullName 4] (.localName id)
    name 2 = .ok "Ref_1" ∧ name 3 = .ok "S" ∧ Ada.fold "Ref_1" ≠ Ada.fold "S" ∧
      Ada.fold "Ref_1" ≠ Ada.fold "Ref" ∧ name 4 = .error (.error (.unowned 4 (.sequence 2 none))) := by
  intro script name
  have first : name 2 = .ok "Ref_1" := by decide +kernel
  have second : name 3 = .ok "S" := by decide +kernel
  obtain ⟨-, -, apart, unseeded⟩ := localName_total_and_apart script {} [.fullName 4]
  have shares : Shares (.ofSteps script) 2 ⟨"Ref", some 1, .struct, [], []⟩ := by
    constructor <;> decide +kernel
  have otherShares : Shares (.ofSteps script) 3 ⟨"S", some 1, .struct, [], []⟩ := by
    constructor <;> decide +kernel
  refine ⟨first, second, ?_, ?_, by decide +kernel⟩
  · exact apart 2 _ 3 _ _ _ shares otherShares (by decide) (by decide +kernel) first second
  · exact unseeded 2 _ _ shares first "Ref" (by decide +kernel)

end NameTable

end AdaStubs
