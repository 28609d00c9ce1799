import Mathlib.Data.List.Lex
import Mathlib.Data.List.Nodup
import AdaStubs.Proofs.Emission.Sessions
import AdaStubs.Proofs.Generation.Turns
import AdaStubs.Proofs.Idl.Listings

/-!
# The order of units

A generation makes something of every unit but a root package that has nothing to declare, and in the order in
which the declarations are listed, each unit before those it holds.

Main statement: `units_in_preorder`.
-/

namespace AdaStubs

open Ada Run

namespace Tree

/-- Where a node stands: on the way to it from the root, the place of each declaration among the members of its
scope. -/
def address (t : Tree) (id : Nat) : List Nat :=
  match _found : t.nodes[id]? with
  | none => []
  | some node =>
    match _inside : node.scope with
    | none => []
    | some scope => t.address scope ++ [(t.members scope).idxOf id]
termination_by id
decreasing_by exact t.scope_lt _found _inside

/-- A scope comes before what stands in it, and all that stands in a member before the members that follow. -/
def Precedes (t : Tree) (a b : Nat) : Prop := List.Lex (· < ·) (t.address a) (t.address b)

variable {t : Tree} {id member unit : Nat}

theorem address_of_scope {scope : Nat} {node : Node} (found : t.node? id = some node)
    (inside : node.scope = some scope) : t.address id = t.address scope ++ [(t.members scope).idxOf id] := by
  rw [address]
  split
  · next absent => cases absent.symm.trans found
  · next other present =>
    cases present.symm.trans found
    split
    · next top => cases top.symm.trans inside
    · next outer within =>
      cases within.symm.trans inside
      rfl

namespace WellFormed

variable (wf : t.WellFormed)
include wf

theorem address_of_member (listed : member ∈ t.members id) :
    t.address member = t.address id ++ [(t.members id).idxOf member] := by
  obtain ⟨-, node, -, found, inside, -⟩ := wf.member_inside listed
  exact address_of_scope found inside

theorem address_extends (listed : unit ∈ t.units id) : t.address id <+: t.address unit := by
  induction id using t.members_induction with
  | step id ih =>
    rw [units_eq] at listed
    rcases List.mem_cons.mp listed with rfl | deeper
    · exact List.prefix_rfl
    · obtain ⟨member, among, within⟩ := List.mem_flatMap.mp deeper
      split at within
      · have further := ih member among within
        rw [wf.address_of_member among] at further
        exact (List.prefix_append _ _).trans further
      · cases within

/-- The units in a member stand at its place. -/
theorem address_within (listed : member ∈ t.members id)
    (within : unit ∈ if t.hasKind Kind.isUnit member then t.units member else []) :
    ∃ rest, t.address unit = t.address id ++ (t.members id).idxOf member :: rest := by
  split at within
  · obtain ⟨rest, extended⟩ := wf.address_extends within
    rw [wf.address_of_member listed, List.append_assoc] at extended
    exact ⟨rest, extended.symm⟩
  · cases within

theorem idxOf_members_pairwise (id : Nat) :
    (t.members id).Pairwise fun a b => (t.members id).idxOf a < (t.members id).idxOf b := by
  have distinct := wf.members_nodup id
  rw [List.pairwise_iff_getElem]
  intro i j first second before
  rwa [distinct.idxOf_getElem i first, distinct.idxOf_getElem j second]

theorem units_pairwise_precedes (id : Nat) : (t.units id).Pairwise t.Precedes := by
  induction id using t.members_induction with
  | step id ih =>
    rw [units_eq, List.pairwise_cons, List.pairwise_flatMap]
    refine ⟨fun unit deeper => ?_, fun member among => ?_, ?_⟩
    · obtain ⟨member, among, within⟩ := List.mem_flatMap.mp deeper
      obtain ⟨rest, stands⟩ := wf.address_within among within
      have below : List.Lex (· < ·) (t.address id ++ []) (t.address id ++ (t.members id).idxOf member :: rest) :=
        List.Lex.append_left _ .nil _
      rwa [List.append_nil, ← stands] at below
    · split
      · exact ih member among
      · exact .nil
    · refine (wf.idxOf_members_pairwise id).imp_of_mem fun {first second} among amongToo before => ?_
      intro a inFirst b inSecond
      obtain ⟨rest, stands⟩ := wf.address_within among inFirst
      obtain ⟨restToo, standsToo⟩ := wf.address_within amongToo inSecond
      unfold Precedes
      rw [stands, standsToo]
      exact List.Lex.append_left _ (.rel before) _

end WellFormed

end Tree

/-- The root package has something to declare: a declaration that is no unit and does not exist already. -/
def Context.DeclaresAtRoot (ctx : Context) : Prop :=
  ∃ m ∈ ctx.tree.members Tree.root, ctx.tree.hasKind Kind.isUnit m = false ∧ m ∉ ctx.settings.imports

namespace Emit

variable {ctx : Context} {unit : Nat} {name : String} {s s' : Session}

/-! ## Units that are left out -/

theorem specification_nil_iff {opened filled : Session} {members : List Nat} {artifacts : List Artifact}
    {declared : List Nat} (first : declareReferences ctx unit (opening ctx unit s) = .ok () opened)
    (listed : ownMembers ctx unit opened = .ok members opened)
    (written : placeAll (declaration ctx) (members.flatMap ctx.tree.innerFirst) opened = .ok ⟨⟩ filled)
    (done : specification ctx unit name s = .ok (artifacts, declared) s') :
    artifacts = [] ↔ unit = Tree.root ∧ filled.hoisted = [] := by
  unfold specification beginArtifact takeDeclared at done
  rw [bind_of_ok (modify_apply _ s), bind_of_ok first, bind_of_ok listed, bind_of_ok written] at done
  obtain ⟨types, taken, take, packing⟩ := bind_eq_ok.mp done
  cases take
  rw [bind_of_ok (get_apply _)] at packing
  split at packing
  · next empty =>
    cases packing
    simpa using empty
  · next filled =>
    obtain ⟨artifact, last, made, returned⟩ := bind_eq_ok.mp packing
    cases returned
    simpa using filled

theorem generateUnit_inner (inner : unit ≠ Tree.root) {output : UnitOutput}
    (done : generateUnit ctx unit s = .ok output s') : output.artifacts ≠ [] := by
  obtain ⟨_, specs, _, _, _, _, _, _, _, -, specified, -, -, -, -, all⟩ := generateUnit_ok done
  have made := specification_nonempty inner _ ⟨_, _, specified⟩
  simp [all, made]

theorem packageOfEach_nil (kind : ArtifactKind) (write : Nat → Emit (List Item)) (empty : s.hoisted = []) :
    packageOfEach ctx kind name write [] s = .ok [] s := by
  have nothing : placeAll write [] s = .ok ⟨⟩ s := rfl
  unfold packageOfEach
  rw [bind_of_ok nothing, bind_of_ok (get_apply s), empty]
  rfl

theorem packageBody_nil (module : isInterface ctx unit = false)
    (listed : ownMembers ctx unit (opening ctx unit s) = .ok [] (opening ctx unit s)) :
    packageBody ctx unit name s = .ok [] (opening ctx unit s) := by
  unfold packageBody beginArtifact
  rw [bind_of_ok (modify_apply _ s), bind_of_ok listed, module]
  exact packageOfEach_nil _ _ rfl

theorem marshalling_nil : marshalling ctx unit name [] s = .ok [] (opening ctx unit s) := by
  unfold marshalling beginArtifact
  rw [bind_of_ok (modify_apply _ s), bind_of_ok (packageOfEach_nil _ _ rfl), bind_of_ok (modify_apply _ _),
    bind_of_ok (packageOfEach_nil _ _ rfl)]
  rfl

variable (wf : ctx.tree.WellFormed)
include wf

theorem ownMembers_root {members : List Nat} (opened : s.deps = initialDeps ctx.settings Tree.root)
    (done : ownMembers ctx Tree.root s = .ok members s') : members = [] ↔ ¬ ctx.DeclaresAtRoot := by
  have packaged : ctx.Packaged Tree.root s.deps := opened ▸ opening_packaged Tree.root s
  rw [List.eq_nil_iff_forall_not_mem, ← not_exists, not_iff_not]
  constructor
  · rintro ⟨m, among⟩
    obtain ⟨-, own, rfl, decision⟩ := ownMembers_ok done
    obtain ⟨listed, chosen⟩ := List.mem_filter.mp among
    have inner := ((decision m listed).mp chosen).1
    exact ⟨m, listed, inner, (mem_ownMembers wf packaged wf.isUnit_root done listed inner).mp among⟩
  · rintro ⟨m, listed, inner, unknown⟩
    exact ⟨m, (mem_ownMembers wf packaged wf.isUnit_root done listed inner).mpr unknown⟩

theorem declareReferences_root : declareReferences ctx Tree.root s = .ok () s := by
  unfold declareReferences
  rw [isInterface_root wf]
  rfl

theorem generateUnit_root_nil (nothing : ¬ ctx.DeclaresAtRoot) (fresh : s.declared = []) {output : UnitOutput}
    (done : generateUnit ctx Tree.root s = .ok output s') : output.artifacts = [] := by
  obtain ⟨named, specs, declared, specified, bodies, bodied, codecs, coded, rest, first, second, third, fourth, fifth,
    -, all⟩ := generateUnit_ok done
  obtain ⟨names, rfl⟩ := withNames_run first
  obtain ⟨opened, members, filled, begun, listed, written, rfl, -⟩ := specification_ok second
  cases (declareReferences_root wf).symm.trans begun
  obtain rfl : members = [] := (ownMembers_root wf rfl listed).mpr nothing
  have noSpec := (specification_nil_iff begun listed written second).mpr
  cases written
  obtain ⟨members, _, listed, -⟩ := packageBody_ok third
  obtain rfl : members = [] := (ownMembers_root wf rfl listed).mpr nothing
  cases (packageBody_nil (isInterface_root wf) listed).symm.trans third
  rw [show (opening ctx Tree.root { s with names }).declared = [] from fresh] at fourth
  cases marshalling_nil.symm.trans fourth
  unfold children at fifth
  rw [isInterface_root wf] at fifth
  cases fifth
  rw [all, noSpec ⟨rfl, rfl⟩]
  rfl

/-! ## Units that are not -/

/-- What is declared first has not been declared before, and nothing that has been written is taken back. -/
theorem hoisted_ne_nil {n : Nat} {nodes : List Nat} (idle : s.progress.busy = [])
    (undone : s.progress.isDefined n = false) (isDeclared : ctx.tree.hasKind Kind.isDeclared n = true)
    (written : placeAll (declaration ctx) (n :: nodes) s = .ok ⟨⟩ s') : s'.hoisted ≠ [] := by
  obtain ⟨_, placed, first, rest⟩ := bind_eq_ok.mp written
  obtain ⟨items, produced, run, rfl⟩ := place_ok first
  have parts := (produce_attempts (a := .declaration) idle undone run).2 (owns_of_isDeclared isDeclared rfl).1
  have added : items ≠ [] := by
    rintro rfl
    cases parts
  have each : ∀ m ∈ nodes, (place (declaration ctx m)).Follows (advancing ctx) [] := fun m _ =>
    place_follows advancing_lawful hoist_advances (produce_advances wf fun r => nameWithin_advances wf .declaration _ r)
  obtain ⟨-, advanced, -⟩ := (Follows.forM advancing_lawful each).ok trivial rest
  have kept : produced.hoisted ++ items <+: s'.hoisted := advanced.hoisted
  intro empty
  rw [empty, List.prefix_nil, List.append_eq_nil_iff] at kept
  exact added kept.2

theorem generateUnit_root_ne_nil (declares : ctx.DeclaresAtRoot) (fresh : s.progress = .empty) {output : UnitOutput}
    (done : generateUnit ctx Tree.root s = .ok output s') : output.artifacts ≠ [] := by
  obtain ⟨named, specs, declared, _, _, _, _, _, _, first, second, -, -, -, -, all⟩ := generateUnit_ok done
  obtain ⟨names, rfl⟩ := withNames_run first
  obtain ⟨opened, members, filled, begun, listed, written, -⟩ := specification_ok second
  cases (declareReferences_root wf).symm.trans begun
  have walk : members.flatMap ctx.tree.innerFirst ≠ [] := by
    obtain ⟨m, others, rfl⟩ := List.exists_cons_of_ne_nil fun empty => (ownMembers_root wf rfl listed).mp empty declares
    rw [List.flatMap_cons, Tree.innerFirst_eq]
    simp
  obtain ⟨n, nodes, walked⟩ := List.exists_cons_of_ne_nil walk
  have among : n ∈ members.flatMap ctx.tree.innerFirst := walked ▸ List.mem_cons_self
  obtain ⟨m, own, nested⟩ := List.mem_flatMap.mp among
  have isDeclared := (declared_of_ownMembers wf wf.isUnit_root listed m own).1
  have inside := (wf.isDeclared_of_mem_innerFirst isDeclared nested).1
  rw [all]
  intro empty
  have noSpec : specs = [] := by
    simp only [List.append_eq_nil_iff] at empty
    exact empty.1.1.1
  have unwritten := ((specification_nil_iff begun listed written second).mp noSpec).2
  rw [walked] at written
  refine hoisted_ne_nil wf ?_ ?_ inside written unwritten
  · exact congrArg Progress.busy fresh
  · rw [show (opening ctx Tree.root { s with names }).progress = .empty from fresh]
    rfl

end Emit

open Emit

/-- The units of which something is generated are all modules and interfaces, each once, in the order of the lists
that they stand in and each before those it holds; the root package is among them only if it has something to
declare, and then it is the first. -/
theorem units_in_preorder (script : List Step) (settings : Settings) (outputs : List UnitOutput)
    (done : generate ⟨.ofSteps script, settings⟩ = .ok outputs) :
    let ctx : Context := ⟨.ofSteps script, settings⟩
    ∃ inner : List Nat, (ctx.DeclaresAtRoot → outputs.map (·.node) = Tree.root :: inner) ∧
      (¬ ctx.DeclaresAtRoot → outputs.map (·.node) = inner) ∧ inner.Nodup ∧ inner.Pairwise ctx.tree.Precedes ∧
      ∀ n, n ∈ inner ↔ n ≠ Tree.root ∧ ctx.tree.hasKind Kind.isUnit n = true := by
  intro ctx
  have wf : ctx.tree.WellFormed := Tree.ofSteps_wellFormed script
  obtain ⟨all, last, each, rfl⟩ := generate_ok done
  obtain ⟨inner, units⟩ : ∃ inner, ctx.tree.units Tree.root = Tree.root :: inner := ⟨_, Tree.units_eq⟩
  have distinct := wf.units_nodup Tree.root
  have ordered := wf.units_pairwise_precedes Tree.root
  have complete (n : Nat) : n ∈ ctx.tree.units Tree.root ↔ ctx.tree.hasKind Kind.isUnit n = true :=
    ⟨Tree.isUnit_of_mem_units wf.isUnit_root, wf.mem_units⟩
  rw [units] at each distinct ordered complete
  obtain ⟨absent, once⟩ := List.nodup_cons.mp distinct
  rw [List.mapM_cons] at each
  obtain ⟨first, middle, atRoot, rest⟩ := bind_eq_ok.mp each
  obtain ⟨others, final, later, returned⟩ := bind_eq_ok.mp rest
  cases returned
  have nodes : others.map (·.node) = inner := mapM_generateUnit_nodes later
  have kept : others.filter (!·.artifacts.isEmpty) = others := by
    have step : ∀ unit ∈ inner, ∀ {s output s'}, True → generateUnit ctx unit s = .ok output s' →
        output.artifacts ≠ [] ∧ True := by
      intro unit listed s output s' _ made
      refine ⟨generateUnit_inner ?_ made, trivial⟩
      rintro rfl
      exact absent listed
    refine List.filter_eq_self.mpr fun output listed => ?_
    obtain ⟨_, -, filled⟩ := (mapM_run step trivial later).1 output listed
    simpa using filled
  have root : first.node = Tree.root := by
    obtain ⟨_, _, _, _, _, _, _, _, _, -, -, -, -, -, node, -⟩ := generateUnit_ok atRoot
    exact node
  refine ⟨inner, fun declares => ?_, fun nothing => ?_, once, (List.pairwise_cons.mp ordered).2, fun n => ?_⟩
  · have filled := generateUnit_root_ne_nil wf declares rfl atRoot
    rw [List.filter_cons_of_pos (by simpa using filled), kept, List.map_cons, root, nodes]
  · have empty := generateUnit_root_nil wf nothing rfl atRoot
    rw [List.filter_cons_of_neg (by simp [empty]), kept, nodes]
  · rw [← complete, List.mem_cons]
    refine ⟨fun listed => ⟨?_, .inr listed⟩, fun ⟨inside, among⟩ => among.resolve_left inside⟩
    rintro rfl
    exact absent listed

/-- Two modules one in the other, with an interface after each, and an enumeration at the root beside a structure
that exists already. -/
def scatteredUnits : List Step :=
  [.module 0 "Outer", .struct 0 "Known", .interface 0 "Last" [], .module 1 "Inner", .enum 0 "Colour" ["red"],
    .interface 1 "Beside" [], .interface 4 "Deep" []]

/-- The root package comes first, or not at all if the enumeration exists already too. -/
theorem scattered_units_in_preorder :
    let ctx : Context := ⟨.ofSteps scatteredUnits, { imports := [2] }⟩
    let bare : Context := ⟨.ofSteps scatteredUnits, { imports := [2, 5] }⟩
    ctx.DeclaresAtRoot ∧ ¬ bare.DeclaresAtRoot ∧ [1, 4, 8, 7, 3].Pairwise ctx.tree.Precedes ∧
      ∃ outputs others, generate ctx = .ok outputs ∧ generate bare = .ok others ∧
        outputs.map (·.node) = 0 :: others.map (·.node) ∧ others.map (·.node) = [1, 4, 8, 7, 3] := by
  intro ctx bare
  have declares : ctx.DeclaresAtRoot := ⟨5, by decide +kernel, by decide +kernel, by decide⟩
  have nothing : ¬ bare.DeclaresAtRoot := by
    unfold Context.DeclaresAtRoot
    decide +kernel
  have made : ∃ outputs, generate ctx = .ok outputs ∧ outputs.map (·.node) = [0, 1, 4, 8, 7, 3] := by
    apply exists_outputs
    decide +kernel
  have madeBare : ∃ others, generate bare = .ok others ∧ others.map (·.node) = [1, 4, 8, 7, 3] := by
    apply exists_outputs
    decide +kernel
  obtain ⟨outputs, done, nodes⟩ := made
  obtain ⟨others, doneBare, nodesBare⟩ := madeBare
  obtain ⟨inner, rooted, -, -, ordered, -⟩ := units_in_preorder scatteredUnits { imports := [2] } outputs done
  obtain ⟨same, -, bared, -⟩ := units_in_preorder scatteredUnits { imports := [2, 5] } others doneBare
  obtain rfl : inner = [1, 4, 8, 7, 3] := (List.cons.inj ((rooted declares).symm.trans nodes)).2
  obtain rfl : same = [1, 4, 8, 7, 3] := (bared nothing).symm.trans nodesBare
  refine ⟨declares, nothing, ordered, outputs, others, done, doneBare, ?_, bared nothing⟩
  rw [rooted declares, bared nothing]
  rfl

end AdaStubs
