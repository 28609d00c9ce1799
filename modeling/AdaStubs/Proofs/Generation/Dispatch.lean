import Mathlib.Data.List.Nodup
import AdaStubs.Proofs.Generation.FileNames

/-!
# Dispatch

The dispatch procedure of an interface compares the name of a request with those that its attributes and operations
go by, one after the other, and answers for the first that is equal. An attribute is asked for by `get_` and `set_`
and its own name, which an operation may have too. Then the procedure compares with one name twice, and never
answers for the second of the two.

Main statement: `dispatch_unambiguous_iff`.
-/

namespace AdaStubs

open Ada Emit Run

theorem find?_of_nodup {α κ : Type} [DecidableEq κ] {key : α → κ} {l : List α} {a : α}
    (distinct : (l.map key).Nodup) (listed : a ∈ l) : l.find? (fun b => key b == key a) = some a := by
  obtain ⟨front, back, rfl⟩ := List.append_of_mem listed
  rw [List.map_append, List.map_cons, List.nodup_append] at distinct
  refine List.find?_eq_some_iff_append.mpr ⟨by simp, front, back, rfl, fun b early => ?_⟩
  have apart := distinct.2.2 (key b) (List.mem_map_of_mem early) (key a) List.mem_cons_self
  simpa using apart

/-! ## What a procedure compares with -/

/-- The names that an entry compares with, each with the declaration it answers for. -/
def Ada.Item.tests : Item → List (String × Nat)
  | .stub node (.dispatch names) => names.map (·, node)
  | _ => []

namespace Artifact

def tests (a : Artifact) : List (String × Nat) := a.items.flatMap Item.tests

/-- The declaration for which the procedure answers: an entry that finds its name is the last to be tried. -/
def answerer? (a : Artifact) (request : String) : Option Nat := (a.tests.find? (·.1 == request)).map (·.2)

end Artifact

namespace Tree

/-- The names by which an attribute or operation is asked for. -/
def requests (t : Tree) (node : Nat) : List String := ((t.kind? node).bind (t.wireNames? node)).getD []

/-- `m` is an operation that goes by the name of an accessor of the attribute `n`. -/
def Mimics (t : Tree) (m n : Nat) : Prop :=
  (∃ result oneway raises, t.kind? m = some (.operation result oneway raises)) ∧
    ∃ type readonly, t.kind? n = some (.attribute type readonly) ∧
      (t.name m = "get_" ++ t.name n ∨ readonly = false ∧ t.name m = "set_" ++ t.name n)

variable {t : Tree} {m n : Nat}

theorem requests_of_attribute {type : Nat} {readonly : Bool} (found : t.kind? m = some (.attribute type readonly)) :
    t.requests m = ("get_" ++ t.name m) :: if readonly then [] else ["set_" ++ t.name m] := by
  rw [requests, found]
  rfl

theorem requests_of_operation {result : Option Nat} {oneway : Bool} {raises : List Nat}
    (found : t.kind? m = some (.operation result oneway raises)) : t.requests m = [t.name m] := by
  rw [requests, found]
  rfl

theorem mem_requests_of_attribute {type : Nat} {readonly : Bool} {request : String}
    (found : t.kind? m = some (.attribute type readonly)) :
    request ∈ t.requests m ↔ request = "get_" ++ t.name m ∨ readonly = false ∧ request = "set_" ++ t.name m := by
  rw [requests_of_attribute found]
  cases readonly <;> simp

theorem get_ne_set (name other : String) : "get_" ++ name ≠ "set_" ++ other := by
  intro same
  have letters := congrArg String.toList same
  simp at letters

/-- An attribute or an operation. -/
def IsRequested (t : Tree) (m : Nat) : Prop :=
  (∃ type readonly, t.kind? m = some (.attribute type readonly)) ∨
    ∃ result oneway raises, t.kind? m = some (.operation result oneway raises)

theorem requests_nodup (requested : t.IsRequested m) : (t.requests m).Nodup := by
  rcases requested with ⟨type, readonly, found⟩ | ⟨result, oneway, raises, found⟩
  · rw [requests_of_attribute found]
    cases readonly
    · exact List.nodup_cons.mpr ⟨by simp, List.nodup_singleton _⟩
    · exact List.nodup_singleton _
  · rw [requests_of_operation found]
    exact List.nodup_singleton _

theorem Mimics.shared (mimics : t.Mimics m n) : t.name m ∈ t.requests m ∧ t.name m ∈ t.requests n := by
  obtain ⟨⟨result, oneway, raises, found⟩, type, readonly, foundToo, same⟩ := mimics
  rw [requests_of_operation found, mem_requests_of_attribute foundToo]
  exact ⟨List.mem_singleton_self _, same⟩

theorem Mimics.ne (mimics : t.Mimics m n) : m ≠ n := by
  obtain ⟨⟨result, oneway, raises, found⟩, type, readonly, foundToo, -⟩ := mimics
  rintro rfl
  cases found.symm.trans foundToo

theorem mimics_of_shared (requested : t.IsRequested m) (requestedToo : t.IsRequested n) (differ : t.name m ≠ t.name n)
    {request : String} (first : request ∈ t.requests m) (second : request ∈ t.requests n) :
    t.Mimics m n ∨ t.Mimics n m := by
  rcases requested with ⟨type, readonly, found⟩ | operation
  · rcases requestedToo with ⟨typeToo, readonlyToo, foundToo⟩ | operation
    · -- The accessors of two attributes differ in what they do or in the name.
      rw [mem_requests_of_attribute found] at first
      rw [mem_requests_of_attribute foundToo] at second
      exfalso
      rcases first with rfl | ⟨-, rfl⟩ <;> rcases second with same | ⟨-, same⟩
      · exact differ ((String.append_right_inj _).mp same)
      · exact get_ne_set _ _ same
      · exact get_ne_set _ _ same.symm
      · exact differ ((String.append_right_inj _).mp same)
    · obtain ⟨result, oneway, raises, foundToo⟩ := operation
      rw [requests_of_operation foundToo, List.mem_singleton] at second
      rw [mem_requests_of_attribute found, second] at first
      exact .inr ⟨⟨result, oneway, raises, foundToo⟩, type, readonly, found, first⟩
  · obtain ⟨result, oneway, raises, found⟩ := operation
    rw [requests_of_operation found, List.mem_singleton] at first
    rcases requestedToo with ⟨type, readonly, foundToo⟩ | ⟨_, _, _, foundToo⟩
    · rw [mem_requests_of_attribute foundToo, first] at second
      exact .inl ⟨⟨result, oneway, raises, found⟩, type, readonly, foundToo, second⟩
    · rw [requests_of_operation foundToo, List.mem_singleton, first] at second
      exact absurd second differ

end Tree

/-- No operation of the interface goes by the name of an accessor of one of its attributes. -/
def Context.AccessorsApart (ctx : Context) (unit : Nat) : Prop :=
  ∀ m ∈ operationsOf ctx unit, ∀ n ∈ operationsOf ctx unit, ¬ ctx.tree.Mimics m n

section Table

variable {ctx : Context} {unit m : Nat}

theorem isRequested_of_mem (listed : m ∈ operationsOf ctx unit) : ctx.tree.IsRequested m := by
  obtain ⟨node, found, kind⟩ := Tree.exists_of_hasKind (List.mem_filter.mp listed).2
  have known := Tree.kind?_eq found
  unfold Tree.IsRequested
  rw [known]
  cases shape : node.kind <;> simp_all

/-- The comparisons of the dispatch procedure of `unit`. -/
def Context.comparisons (ctx : Context) (unit : Nat) : List (String × Nat) :=
  (operationsOf ctx unit).flatMap fun m => (ctx.tree.requests m).map (·, m)

theorem mem_comparisons {request : String} :
    (request, m) ∈ ctx.comparisons unit ↔ m ∈ operationsOf ctx unit ∧ request ∈ ctx.tree.requests m := by
  simp only [Context.comparisons, List.mem_flatMap, List.mem_map, Prod.mk.injEq]
  constructor
  · rintro ⟨_, listed, _, asked, rfl, rfl⟩
    exact ⟨listed, asked⟩
  · rintro ⟨listed, asked⟩
    exact ⟨m, listed, request, asked, rfl, rfl⟩

theorem map_fst_comparisons (ctx : Context) (unit : Nat) :
    (ctx.comparisons unit).map (·.1) = (operationsOf ctx unit).flatMap ctx.tree.requests := by
  simp [Context.comparisons, List.map_flatMap, Function.comp_def]

theorem comparisons_nodup (distinct : ((operationsOf ctx unit).map ctx.tree.name).Nodup)
    (apart : ctx.AccessorsApart unit) : ((ctx.comparisons unit).map (·.1)).Nodup := by
  rw [map_fst_comparisons, List.nodup_flatMap]
  refine ⟨fun m listed => Tree.requests_nodup (isRequested_of_mem listed), ?_⟩
  rw [List.Nodup, List.pairwise_map] at distinct
  refine distinct.imp_of_mem fun {m n} listed listedToo differ request first second => ?_
  rcases Tree.mimics_of_shared (isRequested_of_mem listed) (isRequested_of_mem listedToo) differ first second with
    mimics | mimics
  · exact apart m listed n listedToo mimics
  · exact apart n listedToo m listed mimics

theorem answerer?_of_nodup {a : Artifact} (compares : a.tests = ctx.comparisons unit)
    (distinct : ((ctx.comparisons unit).map (·.1)).Nodup) :
    ∀ test ∈ ctx.comparisons unit, a.answerer? test.1 = some test.2 := by
  intro test listed
  rw [Artifact.answerer?, compares, find?_of_nodup distinct listed]
  rfl

theorem accessorsApart_of_answers {answerer? : String → Option Nat}
    (answered : ∀ test ∈ ctx.comparisons unit, answerer? test.1 = some test.2) : ctx.AccessorsApart unit := by
  intro m listed n listedToo mimics
  obtain ⟨own, other⟩ := mimics.shared
  have first := answered (ctx.tree.name m, m) (mem_comparisons.mpr ⟨listed, own⟩)
  have second := answered (ctx.tree.name m, n) (mem_comparisons.mpr ⟨listedToo, other⟩)
  exact mimics.ne (Option.some.inj (first.symm.trans second))

end Table

/-! ## The procedure of an interface -/

namespace Emit

variable {ctx : Context} {unit : Nat} {name : String} {s s' : Session}

/-- The entries of the dispatch procedure of `unit`. -/
def dispatchTable (ctx : Context) (unit : Nat) : List Item :=
  (operationsOf ctx unit).map fun m => .stub m (.dispatch (ctx.tree.requests m))

theorem dispatchEntries_eq {m : Nat} (listed : m ∈ operationsOf ctx unit) :
    dispatchEntries ctx m = pure [.stub m (.dispatch (ctx.tree.requests m))] := by
  unfold dispatchEntries wireNames
  rcases isRequested_of_mem listed with ⟨type, readonly, found⟩ | ⟨result, oneway, raises, found⟩
  all_goals
    rw [kindOf_of_kind found, Tree.requests, found]
    rfl

theorem mapM_dispatchEntries {nodes : List Nat} (listed : nodes ⊆ operationsOf ctx unit) :
    nodes.mapM (dispatchEntries ctx) = pure (nodes.map fun m => [.stub m (.dispatch (ctx.tree.requests m))]) := by
  induction nodes with
  | nil => rfl
  | cons m nodes ih =>
    obtain ⟨head, tail⟩ := List.cons_subset.mp listed
    rw [List.mapM_cons, dispatchEntries_eq head, ih tail]
    rfl

theorem skeleton_eq (enabled : ctx.settings.skeletons = true) (unit : Nat) (name : String) :
    skeleton ctx unit name = pure [⟨.skeleton, name, .dispatcher (dispatchTable ctx unit), .ofUnit unit⟩] := by
  have flattened : ((operationsOf ctx unit).map fun m => [Item.stub m (.dispatch (ctx.tree.requests m))]).flatten =
      dispatchTable ctx unit := by
    rw [← List.flatMap_def, ← List.map_eq_flatMap, dispatchTable]
  unfold skeleton
  rw [enabled, mapM_dispatchEntries (List.Subset.refl _), pure_bind, flattened]
  rfl

theorem generateUnit_skeleton (enabled : ctx.settings.skeletons = true) (interface : isInterface ctx unit = true)
    {output : UnitOutput} (done : generateUnit ctx unit s = .ok output s') :
    ⟨.skeleton, output.name, .dispatcher (dispatchTable ctx unit), .ofUnit unit⟩ ∈ output.artifacts := by
  obtain ⟨_, _, _, _, _, _, _, _, rest, -, -, -, -, made, -, all⟩ := generateUnit_ok done
  unfold children at made
  rw [if_pos interface] at made
  obtain ⟨_, _, _, _, dispatcher, -, -, last, rfl⟩ := interfaceChildren_ok made
  rw [skeleton_eq enabled] at last
  cases last
  rw [all]
  simp

end Emit

theorem dispatcher_tests {ctx : Context} {unit : Nat} {a : Artifact}
    (content : a.content = .dispatcher (dispatchTable ctx unit)) : a.tests = ctx.comparisons unit := by
  rw [Artifact.tests, Artifact.items, content, dispatchTable, List.flatMap_map]
  rfl

theorem dispatchTable_code (ctx : Context) (unit : Nat) (runtime : RuntimeNames) :
    (dispatchTable ctx unit).flatMap (·.code runtime) =
      (ctx.comparisons unit).flatMap fun test => dispatchEntry test.1 := by
  rw [dispatchTable, Context.comparisons, List.flatMap_map, List.flatMap_assoc]
  simp only [List.flatMap_map]
  rfl

theorem mem_outputs_of_interface {ctx : Context} (wf : ctx.tree.WellFormed) {outputs : List UnitOutput}
    (done : generate ctx = .ok outputs) (enabled : ctx.settings.skeletons = true) {unit : Nat}
    (interface : isInterface ctx unit = true) :
    ∃ output ∈ outputs, output.node = unit ∧
      ⟨.skeleton, output.name, .dispatcher (dispatchTable ctx unit), .ofUnit unit⟩ ∈ output.artifacts := by
  obtain ⟨all, last, each, rfl⟩ := generate_ok done
  have isUnit := (isInterface_iff.mp interface).1
  have among : unit ∈ all.map (·.node) := mapM_generateUnit_nodes each ▸ wf.mem_units isUnit
  obtain ⟨output, listed, rfl⟩ := List.mem_map.mp among
  obtain ⟨unit, -, s, s', made⟩ := Gives.mapM ⟨_, _, each⟩ output listed
  obtain ⟨_, _, _, _, _, _, _, _, _, -, -, -, -, -, rfl, -⟩ := generateUnit_ok made
  have dispatcher := generateUnit_skeleton enabled interface made
  refine ⟨output, List.mem_filter.mpr ⟨listed, ?_⟩, rfl, dispatcher⟩
  simpa using List.ne_nil_of_mem dispatcher

/-- Where the attributes and operations of an interface have different names, its dispatch procedure compares with
each name once, and answers for every accessor and every operation, exactly if no operation goes by the name of an
accessor. -/
theorem dispatch_unambiguous_iff (script : List Step) (settings : Settings) (outputs : List UnitOutput) (unit : Nat)
    (done : generate ⟨.ofSteps script, settings⟩ = .ok outputs) (enabled : settings.skeletons = true)
    (interface : isInterface ⟨.ofSteps script, settings⟩ unit = true)
    (distinct : ((operationsOf ⟨.ofSteps script, settings⟩ unit).map (Tree.ofSteps script).name).Nodup) :
    let ctx : Context := ⟨.ofSteps script, settings⟩
    ∃ output ∈ outputs, output.node = unit ∧ ∃ a entries, output.artifact? .skeleton = some a ∧
      a.content = .dispatcher entries ∧
      entries.flatMap (·.code settings.runtime) = a.tests.flatMap (fun test => dispatchEntry test.1) ∧
      (∀ request m, (request, m) ∈ a.tests ↔ m ∈ operationsOf ctx unit ∧ request ∈ ctx.tree.requests m) ∧
      ((a.tests.map (·.1)).Nodup ↔ ctx.AccessorsApart unit) ∧
      ((∀ test ∈ a.tests, a.answerer? test.1 = some test.2) ↔ ctx.AccessorsApart unit) := by
  intro ctx
  have wf : ctx.tree.WellFormed := Tree.ofSteps_wellFormed script
  obtain ⟨output, listed, node, made⟩ := mem_outputs_of_interface wf done enabled interface
  have kinds := ((generate_labels wf done).1 output listed).kinds
  let a : Artifact := ⟨.skeleton, output.name, .dispatcher (dispatchTable ctx unit), .ofUnit unit⟩
  have compares : a.tests = ctx.comparisons unit := dispatcher_tests rfl
  have answers := answerer?_of_nodup compares
  have once : ctx.AccessorsApart unit → ((ctx.comparisons unit).map (·.1)).Nodup := comparisons_nodup distinct
  refine ⟨output, listed, node, a, _, find?_of_nodup kinds made, rfl, ?_, fun request m => ?_, ?_, ?_⟩
  · rw [compares]
    exact dispatchTable_code ctx unit settings.runtime
  · rw [compares]
    exact mem_comparisons
  · rw [compares]
    exact ⟨fun nodup => accessorsApart_of_answers (answers nodup), once⟩
  · rw [compares]
    exact ⟨accessorsApart_of_answers, fun apart => answers (once apart)⟩

/-- An operation that is called what the writer of an attribute would be if it had one, and an attribute that is
called what the reader is. -/
def unmistakableRequests : List Step :=
  [.interface 0 "I" [], .primitive .long, .attribute 1 "x" 2 true, .operation 1 "set_x" none false [],
    .attribute 1 "get_x" 2 false]

theorem unmistakable_requests_answered :
    let ctx : Context := ⟨.ofSteps unmistakableRequests, {}⟩
    ctx.AccessorsApart 1 ∧ ∃ outputs, generate ctx = .ok outputs ∧ ∃ output ∈ outputs, output.node = 1 ∧
      ∃ a, output.artifact? .skeleton = some a ∧
        a.tests = [("get_x", 3), ("set_x", 4), ("get_get_x", 5), ("set_get_x", 5)] ∧
        ∀ test ∈ a.tests, a.answerer? test.1 = some test.2 := by
  intro ctx
  have made : ∃ outputs, generate ctx = .ok outputs ∧
      outputs.map (fun output => (output.artifact? .skeleton).map (·.tests)) =
        [some [("get_x", 3), ("set_x", 4), ("get_get_x", 5), ("set_get_x", 5)]] := by
    apply exists_outputs
    decide +kernel
  obtain ⟨outputs, done, tables⟩ := made
  obtain ⟨output, listed, node, a, _, found, -, -, -, once, answered⟩ :=
    dispatch_unambiguous_iff unmistakableRequests {} outputs 1 done rfl (by decide +kernel) (by decide +kernel)
  have table := tables ▸ List.mem_map_of_mem listed
  rw [found, Option.map_some, List.mem_singleton] at table
  have tests := Option.some.inj table
  have apart : ctx.AccessorsApart 1 := by
    rw [tests] at once
    exact once.mp (by decide)
  exact ⟨apart, outputs, done, output, listed, node, a, found, tests, answered.mpr apart⟩

/-- An attribute and an operation that is called what the attribute's reader is requested by. -/
def mimickedReader : List Step :=
  [.interface 0 "I" [], .primitive .long, .attribute 1 "x" 2 true, .operation 1 "get_x" none false []]

/-- The two have different names, but the procedure compares with one name twice and never answers for the
operation. -/
theorem reader_hides_operation :
    let ctx : Context := ⟨.ofSteps mimickedReader, {}⟩
    (operationsOf ctx 1).map ctx.tree.name = ["x", "get_x"] ∧ ∃ outputs, generate ctx = .ok outputs ∧
      outputs.map (fun output => (output.artifact? .skeleton).map fun a => (a.tests, a.answerer? "get_x")) =
        [some ([("get_x", 3), ("get_x", 4)], some 3)] := by
  refine ⟨by decide +kernel, ?_⟩
  apply exists_outputs
  decide +kernel

end AdaStubs
