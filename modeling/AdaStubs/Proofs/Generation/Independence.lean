import AdaStubs.Proofs.Emission.Agreement
import AdaStubs.Proofs.Generation.SpecificationOnly

/-!
# Units do not depend on each other

All units share the names, the sizes and the marks of one session. Still a unit comes out as it would by itself:
it asks only for names and sizes, which do not hang on what was asked before, and for the marks on what belongs in
its own package, which no other unit sets. Types that wait to be marshalled would be carried over to the next unit,
but none do unless an operation is configured to exist already.

Main statement: `units_generated_independently`.
-/

namespace AdaStubs

open Ada Run

namespace Emit

open Session

variable {ctx : Context} {own : Nat → Prop} {base : Aspect → Nat → Bool} {unit : Nat} {s t s' : Session}

/-! ## The phases of a unit -/

section

variable (home : ∀ n, ctx.tree.packageOf n = unit → own n)
include home

theorem beginArtifact_agrees : (beginArtifact ctx unit).Agrees (Alike ctx own base) :=
  .modify fun {s _} alike => { alike with
    deps_eq := rfl
    hoisted_eq := rfl
    covers := fun n package => home n (package.trans (opening_packaged unit s).unit_eq) }

end

section

variable (wf : ctx.tree.WellFormed)
include wf

theorem packageName_agrees (node : Nat) : (packageName ctx node).Agrees (Alike ctx own base) :=
  .bind (kindOf_agrees node) fun _ => fullName_agrees wf _

theorem contextClauses_agrees (name artifact : String) :
    (contextClauses ctx name artifact).Agrees (Alike ctx own base) := by
  unfold contextClauses
  refine .reads (fun alike => by rw [alike.deps_eq]) fun _ => ?_
  refine .bind (.foldlM fun _ node _ => .bind (packageName_agrees wf node) fun _ => .pure _) fun types => ?_
  exact .bind (.foldlM fun _ node _ => .bind (packageName_agrees wf node) fun _ => .pure _) fun _ => .pure _

theorem package_agrees (kind : ArtifactKind) (name : String) (items hidden : List Item) :
    (package ctx kind name items hidden).Agrees (Alike ctx own base) := by
  unfold package
  refine .bind (contextClauses_agrees wf _ _) fun clauses => ?_
  exact .reads (fun alike => by rw [alike.deps_eq]) fun _ => .pure _

omit wf in
theorem placeAll_agrees {write : Nat → Emit (List Item)} {nodes : List Nat}
    (each : ∀ n ∈ nodes, (write n).Agrees (Alike ctx own base)) : (placeAll write nodes).Agrees (Alike ctx own base) :=
  .forM fun n listed => place_agrees (each n listed)

theorem packageOfEach_agrees (kind : ArtifactKind) (name : String) {write : Nat → Emit (List Item)} {nodes : List Nat}
    (each : ∀ n ∈ nodes, (write n).Agrees (Alike ctx own base)) :
    (packageOfEach ctx kind name write nodes).Agrees (Alike ctx own base) := by
  unfold packageOfEach
  refine .bind (placeAll_agrees each) fun _ => .reads (fun alike => by rw [alike.hoisted_eq]) fun _ => ?_
  dsimp only
  split
  · exact .pure _
  · exact .bind (package_agrees wf kind name _ _) fun _ => .pure _

omit wf in
theorem ownMembers_agrees : (ownMembers ctx unit).Agrees (Alike ctx own base) := by
  unfold ownMembers
  refine .reads (fun alike => by rw [alike.deps_eq]) fun _ => .filterM fun m _ => ?_
  split
  · exact .pure _
  · exact .bind (.liftFault _) fun _ => .pure _

omit wf in
theorem takeDeclared_agrees : takeDeclared.Agrees (Alike ctx own base) := by
  intro s t alike
  refine .inl ⟨s.declared, { s with declared := [] }, { t with declared := [] }, rfl, ?_, ?_⟩
  · rw [alike.declared_eq]
    rfl
  · exact { alike with declared_eq := rfl, awaited := nofun }

section

variable (isUnit : ctx.tree.hasKind Kind.isUnit unit = true) (home : ∀ n, ctx.tree.packageOf n = unit → own n)
include isUnit home

theorem declareReferences_agrees : (declareReferences ctx unit).Agrees (Alike ctx own base) := by
  unfold declareReferences
  split
  · exact place_agrees (declaration_agrees wf (home unit (wf.packageOf_unit isUnit)))
  · exact .pure _

theorem declarations_agree {members : List Nat} (listed : ownMembers ctx unit s = .ok members s') :
    (placeAll (declaration ctx) (members.flatMap ctx.tree.innerFirst)).Agrees (Alike ctx own base) := by
  refine placeAll_agrees fun n walked => ?_
  obtain ⟨m, among, within⟩ := List.mem_flatMap.mp walked
  obtain ⟨declared, package⟩ := declared_of_ownMembers wf isUnit listed m among
  exact declaration_agrees wf (home n ((wf.isDeclared_of_mem_innerFirst declared within).2.trans package))

theorem specification_agrees (name : String) : (specification ctx unit name).Agrees (Alike ctx own base) := by
  unfold specification
  refine .bind (beginArtifact_agrees home) fun _ => .bind (declareReferences_agrees wf isUnit home) fun _ => ?_
  refine .bindRun ownMembers_agrees fun _ listed => .bind (declarations_agree wf isUnit home listed) fun _ => ?_
  refine .bind takeDeclared_agrees fun declared => .reads (fun alike => by rw [alike.hoisted_eq]) fun _ => ?_
  dsimp only
  split
  · exact .pure _
  · exact .bind (package_agrees wf _ _ _ _) fun _ => .pure _

/-- What a specification hands over is its own. -/
theorem own_of_specification {name : String} {artifacts : List Artifact} {declared : List Nat}
    (alike : Alike ctx own base s t) (done : specification ctx unit name s = .ok (artifacts, declared) s') :
    ∀ n ∈ declared, own n := by
  obtain ⟨opened, members, filled, first, listed, written, rfl, -⟩ := specification_ok done
  obtain ⟨begun, -, start⟩ := (beginArtifact_agrees home).ok alike rfl
  obtain ⟨opened', -, middle⟩ := (declareReferences_agrees wf isUnit home).ok start first
  obtain ⟨filled', -, last⟩ := (declarations_agree wf isUnit home listed).ok middle written
  exact last.awaited

omit isUnit in
theorem packageBody_agrees (name : String) : (packageBody ctx unit name).Agrees (Alike ctx own base) :=
  .bind (beginArtifact_agrees home) fun _ => .bind ownMembers_agrees fun _ =>
    packageOfEach_agrees wf _ _ fun n _ => body_agrees wf n

omit isUnit in
theorem marshalling_agrees (name : String) {declared : List Nat} (among : ∀ n ∈ declared, own n) :
    (marshalling ctx unit name declared).Agrees (Alike ctx own base) := by
  unfold marshalling
  refine .bind (beginArtifact_agrees home) fun _ => ?_
  refine .bind (packageOfEach_agrees wf _ _ fun n _ => marshalProfiles_agrees wf n) fun _ => ?_
  refine .bind (beginArtifact_agrees home) fun _ => ?_
  exact .bind (packageOfEach_agrees wf _ _ fun n listed => marshalBody_agrees wf (among n listed)) fun _ => .pure _

omit wf isUnit home in
theorem itemsOfAll_agrees {write : Nat → Emit (List Item)} {nodes : List Nat}
    (each : ∀ n ∈ nodes, (write n).Agrees (Alike ctx own base)) :
    (itemsOfAll write nodes).Agrees (Alike ctx own base) :=
  .bind (.mapM each) fun _ => .reads (fun alike => by rw [alike.hoisted_eq]) fun _ => .pure _

omit isUnit in
theorem proxies_agrees (name : String) : (proxies ctx unit name).Agrees (Alike ctx own base) := by
  unfold proxies
  dsimp only
  split
  · exact .pure _
  · refine .bind (beginArtifact_agrees home) fun _ => .bind (.mapM fun n _ => descriptors_agrees wf n) fun _ => ?_
    refine .reads (fun alike => by rw [alike.hoisted_eq]) fun _ => .bind (package_agrees wf _ _ _ _) fun _ => ?_
    refine .bind (beginArtifact_agrees home) fun _ => ?_
    refine .bind (itemsOfAll_agrees fun n _ => descriptorBodies_agrees wf n) fun _ => ?_
    exact .bind (package_agrees wf _ _ _ _) fun _ => .pure _

omit isUnit in
theorem implementation_agrees (name : String) : (implementation ctx unit name).Agrees (Alike ctx own base) := by
  unfold implementation
  split
  · exact .pure _
  · refine .bind (beginArtifact_agrees home) fun _ => .bind (servantParent_agrees wf unit) fun _ => ?_
    refine .bind (.mapM fun n _ => servants_agrees wf n) fun _ => ?_
    refine .reads (fun alike => by rw [alike.hoisted_eq]) fun _ => .bind (package_agrees wf _ _ _ _) fun _ => ?_
    split
    · exact .pure _
    · refine .bind (beginArtifact_agrees home) fun _ => ?_
      refine .bind (itemsOfAll_agrees fun n _ => servantBodies_agrees wf n) fun _ => ?_
      exact .bind (package_agrees wf _ _ _ _) fun _ => .pure _

omit isUnit in
theorem children_agrees (name : String) : (children ctx unit name).Agrees (Alike ctx own base) := by
  have dispatcher : (skeleton ctx unit name).Agrees (Alike ctx own base) := by
    unfold skeleton
    split
    · exact .pure _
    · exact .bind (.mapM fun n _ => dispatchEntries_agrees n) fun _ => .pure _
  unfold children
  split
  · exact .bind (proxies_agrees wf home name) fun _ => .bind (implementation_agrees wf home name) fun _ =>
      .bind dispatcher fun _ => .pure _
  · exact .pure _

theorem unitWith_agrees {others : String → Emit (List Artifact)}
    (more : ∀ name, (others name).Agrees (Alike ctx own base)) :
    (unitWith ctx unit others).Agrees (Alike ctx own base) := by
  unfold unitWith
  refine .bind (fullName_agrees wf unit) fun name => ?_
  refine .bindRun (specification_agrees wf isUnit home name) fun {s t specified s'} alike done => ?_
  obtain ⟨artifacts, declared⟩ := specified
  have among := own_of_specification wf isUnit home alike done
  refine .bind (packageBody_agrees wf home name) fun _ => .bind (marshalling_agrees wf home name among) fun _ => ?_
  exact .bind (more name) fun _ => .pure _

theorem generateUnit_agrees : (generateUnit ctx unit).Agrees (Alike ctx own base) :=
  unitWith_agrees wf isUnit home (children_agrees wf home)

end

end

/-! ## Units -/

theorem outcome_generateUnit_opening (unit : Nat) (s : Session) :
    (generateUnit ctx unit).outcome (opening ctx unit s) = (generateUnit ctx unit).outcome s := by
  have same : (opening ctx unit s).names = s.names := rfl
  unfold generateUnit fullName
  cases named : NameTable.fullName ctx unit s.names with
  | ok name names =>
    have first : withNames (NameTable.fullName ctx unit) s = .ok name { s with names } := by rw [withNames, named]
    rw [outcome_bind_of_ok first, outcome_bind_of_ok (withNames_turnTo _ first)]
    rfl
  | error fault names =>
    have fails {s : Session} (refused : NameTable.fullName ctx unit s.names = .error fault names) :
        withNames (NameTable.fullName ctx unit) s = .error fault { s with names } := by rw [withNames, refused]
    rw [outcome_of_error (bind_of_error (fails named) _), outcome_of_error (bind_of_error (fails (same ▸ named)) _)]

/-- Nothing that belongs to the units `pending` has been written, nothing is under way, and no type waits to be
marshalled. -/
structure Between (ctx : Context) (pending : List Nat) (s : Session) : Prop where
  names : NameTable.Rests ctx s.names
  sizes : s.sizes.Sound ctx.tree ∧ s.sizes.busy = []
  idle : s.progress.busy = []
  taken : s.declared = []
  unwritten : ∀ (a : Aspect) (n : Nat), ctx.tree.packageOf n ∈ pending → a.isDone s.progress n = false

theorem between_start (ctx : Context) (pending : List Nat) : Between ctx pending .start where
  names := NameTable.rests_empty ctx
  sizes := ⟨nofun, rfl⟩
  idle := rfl
  taken := rfl
  unwritten := fun a n _ => by cases a <;> rfl

/-- What generating a unit alone gives. -/
def generateAlone (ctx : Context) (unit : Nat) : Except Fault UnitOutput := (generateUnit ctx unit).outcome .start

namespace Between

/-- Two such sessions go on alike on the first artifact of a unit. -/
theorem opened {pending later : List Nat} (between : Between ctx pending s) (other : Between ctx later t)
    (home : ∀ n, ctx.tree.packageOf n = unit → own n)
    (done_eq : ∀ (a : Aspect) (n : Nat), own n → a.isDone s.progress n = a.isDone t.progress n)
    (frame : ∀ (a : Aspect) (n : Nat), ¬ own n → a.isDone s.progress n = base a n) :
    Alike ctx own base (opening ctx unit s) (opening ctx unit t) where
  names := ⟨between.names, other.names⟩
  sizes := ⟨between.sizes, other.sizes⟩
  deps_eq := rfl
  hoisted_eq := rfl
  declared_eq := between.taken.trans other.taken.symm
  busy_eq := between.idle.trans other.idle.symm
  done_eq := done_eq
  frame := frame
  awaited n listed := by
    have waits : n ∈ s.declared := listed
    rw [between.taken] at waits
    cases waits
  covers n package := home n (package.trans (opening_packaged unit s).unit_eq)

variable {pending : List Nat} (between : Between ctx (unit :: pending) s)
  (isUnit : ctx.tree.hasKind Kind.isUnit unit = true)
include between isUnit

theorem outcome_eq (wf : ctx.tree.WellFormed) : (generateUnit ctx unit).outcome s = generateAlone ctx unit := by
  have first := between_start ctx [unit]
  have alike : Alike ctx (ctx.tree.packageOf · = unit) (fun a n => a.isDone s.progress n)
      (opening ctx unit s) (opening ctx unit .start) := by
    refine between.opened first (fun _ home => home) (fun a n home => ?_) fun _ _ _ => rfl
    rw [between.unwritten a n (home ▸ List.mem_cons_self), first.unwritten a n (home ▸ List.mem_cons_self)]
  have agreed := (generateUnit_agrees wf isUnit fun _ home => home).outcome_eq alike
  rwa [outcome_generateUnit_opening, outcome_generateUnit_opening] at agreed

theorem next (inherits : Inherits ctx) (apart : unit ∉ pending)
    (operations : ∀ o ∈ ctx.settings.imports, ctx.tree.hasKind Kind.isOperation o = false) {output : UnitOutput}
    (done : generateUnit ctx unit s = .ok output s') : Between ctx pending s' := by
  have home (n : Nat) (package : ctx.tree.packageOf n = unit) : ctx.tree.packageOf n ∉ pending := package ▸ apart
  -- The session is compared with itself, for what the unit leaves alone: all that belongs to the pending units.
  have alike : Alike ctx (ctx.tree.packageOf · ∉ pending) (fun _ _ => false)
      (opening ctx unit s) (opening ctx unit s) := by
    refine between.opened between home (fun _ _ _ => rfl) fun a n other => ?_
    exact between.unwritten a n (List.mem_cons_of_mem _ (not_not.mp other))
  obtain ⟨_, -, kept⟩ :=
    (generateUnit_agrees inherits.wellFormed isUnit home).ok alike (generateUnit_opening done)
  have turn : Turn ctx s [] [] output s s' := by
    obtain ⟨-, -, -, -, -, -, -, -, -, -, -, -, -, -, node, -⟩ := generateUnit_ok done
    subst node
    refine ⟨rfl, done, isUnit, between.idle, fun n defined home => ?_⟩
    have fresh := between.unwritten .declaration n (home ▸ List.mem_cons_self)
    simp [(isDone_iff (a := .declaration)).mpr defined] at fresh
  have supplied : ctx.Supplied output := by
    intro o listed imported
    have isOperation : ctx.tree.hasKind Kind.isOperation o = true := (List.mem_filter.mp listed).2
    rw [operations o imported] at isOperation
    cases isOperation
  exact
    { names := kept.names.1
      sizes := kept.sizes.1
      idle := (generateUnit_confined inherits isUnit done).1.trans between.idle
      taken := (turn.supplied_iff inherits).2.mpr supplied
      unwritten := fun a n home => kept.frame a n (not_not.mpr home) }

end Between

/-- Units made one after another are made as they are alone, to the first that fails. -/
theorem outcome_mapM_generateUnit (inherits : Inherits ctx)
    (operations : ∀ o ∈ ctx.settings.imports, ctx.tree.hasKind Kind.isOperation o = false) {units : List Nat}
    (distinct : units.Nodup) (areUnits : ∀ u ∈ units, ctx.tree.hasKind Kind.isUnit u = true)
    (between : Between ctx units s) :
    (units.mapM (generateUnit ctx)).outcome s = units.mapM (generateAlone ctx) := by
  induction units generalizing s with
  | nil => rfl
  | cons unit units ih =>
    obtain ⟨apart, others⟩ := List.nodup_cons.mp distinct
    have isUnit := areUnits unit List.mem_cons_self
    rw [List.mapM_cons, List.mapM_cons, ← between.outcome_eq isUnit inherits.wellFormed]
    cases done : generateUnit ctx unit s with
    | error fault s' =>
      rw [outcome_of_error (bind_of_error done _), outcome_of_error done]
      rfl
    | ok output s' =>
      have rest := ih others (fun u listed => areUnits u (List.mem_cons_of_mem _ listed))
        (between.next isUnit inherits apart operations done)
      rw [outcome_bind_of_ok done, outcome_of_ok done, bind_pure_comp, outcome_map, rest, ← bind_pure_comp]
      rfl

end Emit

open Emit

theorem generate_eq_outcome {ctx : Context} (known : ctx.unknownImport? = none) :
    generate ctx = (generateUnits ctx (ctx.tree.units Tree.root)).outcome .start := by
  unfold generate outcome
  rw [known]
  cases generateUnits ctx (ctx.tree.units Tree.root) .start <;> rfl

/-- Distinct units made one after another, in whatever order, are made as each of them is alone, to the first that
fails. So is a generation, which leaves out the units without artifacts. -/
theorem units_generated_independently (script : List Step) (settings : Settings)
    (bases : ∀ id ∈ (Tree.ofSteps script).ids, ∀ kind ∈ (Tree.ofSteps script).kind? id,
      ∀ base ∈ kind.firstBase?, isInterface ⟨.ofSteps script, settings⟩ base = true)
    (imports : ∀ node ∈ settings.imports, node ∈ (Tree.ofSteps script).ids)
    (operations : ∀ node ∈ settings.imports, (Tree.ofSteps script).hasKind Kind.isOperation node = false) :
    let ctx : Context := ⟨.ofSteps script, settings⟩
    (∀ units : List Nat, units.Nodup → (∀ unit ∈ units, ctx.tree.hasKind Kind.isUnit unit = true) →
        (units.mapM (generateUnit ctx)).outcome .start = units.mapM (generateAlone ctx)) ∧
      generate ctx = (·.filter (!·.artifacts.isEmpty)) <$> (ctx.tree.units Tree.root).mapM (generateAlone ctx) := by
  intro ctx
  have wf : ctx.tree.WellFormed := Tree.ofSteps_wellFormed script
  have inherits : Inherits ctx :=
    ⟨wf, fun {node base others} found => bases node (Tree.mem_ids_of_kind? found) _ found base rfl⟩
  have sequence (units : List Nat) (distinct : units.Nodup)
      (areUnits : ∀ unit ∈ units, ctx.tree.hasKind Kind.isUnit unit = true) :=
    outcome_mapM_generateUnit inherits operations distinct areUnits (between_start ctx units)
  refine ⟨sequence, ?_⟩
  have known : ctx.unknownImport? = none := by
    refine List.find?_eq_none.mpr fun e listed => ?_
    obtain ⟨kind, found⟩ := Tree.exists_of_mem_ids (imports e listed)
    obtain ⟨node, lookup, -⟩ := Option.map_eq_some_iff.mp found
    simp [ctx, lookup]
  rw [generate_eq_outcome known, generateUnits, bind_pure_comp, outcome_map, sequence _ (wf.units_nodup Tree.root)
    fun u listed => Tree.isUnit_of_mem_units wf.isUnit_root listed]

/-- Two modules with structures of each other, one of them through a sequence, an array in one of them of the other's
structure, and an interface in a module whose operation refers to both. -/
def neighbours : List Step :=
  [.module 0 "A", .module 0 "B", .struct 1 "S", .struct 2 "T", .field 3 "peer" 4, .sequence 4 3 (some (.long 4)),
    .field 4 "peers" 6, .array 1 [.long 3] 4, .typedef 1 "Row" 8, .interface 2 "I" [],
    .operation 10 "op" (some 9) false [], .argument 11 "x" .input 3]

theorem neighbours_generated_alone :
    let ctx : Context := ⟨.ofSteps neighbours, { imports := [9] }⟩
    ∃ outputs, generate ctx = .ok outputs ∧ outputs.map (·.node) = [1, 2, 10] ∧
      (·.filter (!·.artifacts.isEmpty)) <$> [0, 1, 2, 10].mapM (generateAlone ctx) = .ok outputs ∧
      ([10, 2, 1].mapM (generateUnit ctx)).outcome .start = [10, 2, 1].mapM (generateAlone ctx) := by
  intro ctx
  have made : ∃ outputs, generate ctx = .ok outputs ∧ outputs.map (·.node) = [1, 2, 10] := by
    apply exists_outputs
    decide +kernel
  obtain ⟨outputs, done, nodes⟩ := made
  obtain ⟨sequence, whole⟩ := units_generated_independently neighbours { imports := [9] } (by decide +kernel)
    (by decide +kernel) (by decide +kernel)
  have units : ctx.tree.units Tree.root = [0, 1, 2, 10] := by decide +kernel
  rw [units] at whole
  exact ⟨outputs, done, nodes, whole.symm.trans done, sequence _ (by decide) (by decide +kernel)⟩

end AdaStubs
