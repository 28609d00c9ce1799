import AdaStubs.Proofs.Emission.Options
import AdaStubs.Proofs.Generation.FileNames
import AdaStubs.Proofs.Generation.Independence
import AdaStubs.Proofs.Generation.Servants

/-!
# Optional artifacts

Servants and dispatchers are made in the middle of a generation, with the session that all that follows goes on
from. Whether they are made is still seen nowhere else: they do not fail, and between two generations, one with and
one without them, there is no difference that the next artifact could notice.

Main statement: `optional_artifacts_unnoticed`.
-/

namespace AdaStubs

open Ada Run

/-- Artifacts that are made only where the settings ask for them. -/
def ArtifactKind.isOptional : ArtifactKind → Bool
  | implSpec | implBody | skeleton => true
  | _ => false

/-- The unit without its optional artifacts. -/
def UnitOutput.essential (u : UnitOutput) : UnitOutput :=
  { u with artifacts := u.artifacts.filter (!·.kind.isOptional) }

theorem UnitOutput.essential_append {kept : UnitOutput} {more : List Artifact}
    (plain : ∀ a ∈ kept.artifacts, a.kind.isOptional = false) (optional : ∀ a ∈ more, a.kind.isOptional = true) :
    ({ kept with artifacts := kept.artifacts ++ more } : UnitOutput).essential = kept := by
  have all : kept.artifacts.filter (!·.kind.isOptional) = kept.artifacts :=
    List.filter_eq_self.mpr fun a listed => by simp [plain a listed]
  have none : more.filter (!·.kind.isOptional) = [] :=
    List.filter_eq_nil_iff.mpr fun a listed => by simp [optional a listed]
  simp [essential, all, none]

namespace Emit

section

variable (ctx : Context) (unit : Nat)

def proxiesIfAny (name : String) : Emit (List Artifact) :=
  if isInterface ctx unit then proxies ctx unit name else pure []

/-- What is generated for a unit in any case. -/
def generateEssentials : Emit UnitOutput := unitWith ctx unit (proxiesIfAny ctx unit)

/-- What is generated for a unit as the settings ask for it. -/
def generateOptions (name : String) : Emit (List Artifact) :=
  if isInterface ctx unit then do
    let servants ← implementation ctx unit name
    return servants ++ (← skeleton ctx unit name)
  else pure []

theorem generateEssentials_withOptions (i k : Bool) :
    generateEssentials (ctx.withOptions i k) unit = generateEssentials ctx unit := by
  unfold generateEssentials unitWith proxiesIfAny
  rw [fullName_withOptions, specification_withOptions, packageBody_withOptions, marshalling_withOptions,
    proxies_withOptions]
  rfl

theorem generateUnit_eq : generateUnit ctx unit = do
    let output ← generateEssentials ctx unit
    let more ← generateOptions ctx unit output.name
    return { output with artifacts := output.artifacts ++ more } := by
  rw [generateUnit_eq_unitWith]
  unfold generateEssentials unitWith children interfaceChildren generateOptions proxiesIfAny
  cases isInterface ctx unit <;> simp [bind_assoc]

theorem generateUnit_without : generateUnit (ctx.withOptions false false) unit = generateEssentials ctx unit := by
  have none (name : String) : generateOptions (ctx.withOptions false false) unit name = pure [] := by
    unfold generateOptions implementation skeleton
    split <;> rfl
  simp [generateUnit_eq, generateEssentials_withOptions, none]

end

variable {ctx : Context} {unit : Nat} {s s' t : Session} {output : UnitOutput}

theorem generateEssentials_kinds (done : generateEssentials ctx unit s = .ok output s') :
    ∀ a ∈ output.artifacts, a.kind.isOptional = false := by
  have proxies {name : String} {s s' : Session} {artifacts : List Artifact}
      (made : proxiesIfAny ctx unit name s = .ok artifacts s') :
      Labelled name [.proxiesSpec, .proxiesBody] artifacts := by
    unfold proxiesIfAny at made
    split at made
    · exact proxies_labelled made
    · cases made
      exact .nil _ _
  intro a listed
  have among := (unitWith_labelled proxies done).kinds.subset (List.mem_map_of_mem listed)
  have plain : ∀ kind ∈ [ArtifactKind.spec, .body, .marshalSpec, .marshalBody] ++ [.proxiesSpec, .proxiesBody],
      kind.isOptional = false := by decide
  exact plain _ among

section

variable (wf : ctx.tree.WellFormed)
include wf

theorem ne_root_of_isInterface (interface : isInterface ctx unit = true) : unit ≠ Tree.root := by
  rintro rfl
  cases (isInterface_root wf).symm.trans interface

theorem generateEssentials_nonempty (interface : isInterface ctx unit = true)
    (done : generateEssentials ctx unit s = .ok output s') : output.artifacts ≠ [] := by
  obtain ⟨_, specs, _, _, _, _, _, _, _, -, specified, -, -, -, -, together⟩ := unitWith_ok done
  have made := specification_nonempty (ne_root_of_isInterface wf interface) _ ⟨_, _, specified⟩
  simp [together, made]

variable (isUnit : ctx.tree.hasKind Kind.isUnit unit = true)
include isUnit

/-- The first artifact of the unit may as well have been turned to before. -/
theorem generateEssentials_opening (rests : NameTable.Rests ctx s.names) :
    generateEssentials ctx unit (opening ctx unit s) = generateEssentials ctx unit s := by
  obtain ⟨name, given⟩ := NameTable.fullResult_of_unit wf isUnit
  obtain ⟨names, -, run⟩ := withNames_lift (NameTable.fullName_run wf unit) rests
  rw [given] at run
  have named : fullName ctx unit s = .ok name { s with names } := run
  unfold generateEssentials unitWith
  rw [bind_of_ok named, fullName, bind_of_ok (withNames_turnTo _ named)]
  rfl

theorem generateEssentials_agrees {own : Nat → Prop} {base : Aspect → Nat → Bool}
    (home : ∀ n, ctx.tree.packageOf n = unit → own n) :
    (generateEssentials ctx unit).Agrees (Session.Alike ctx own base) := by
  apply unitWith_agrees wf isUnit home
  intro name
  unfold proxiesIfAny
  split
  · exact proxies_agrees wf home name
  · exact .pure _

theorem generateEssentials_proceeds (done : generateEssentials ctx unit s = .ok output s') :
    s.progress.Extends s'.progress := by
  have carries : Carries ctx unit proceeding := proceeding_carries wf
  have follows : (generateEssentials ctx unit).Follows proceeding [] := by
    apply unitWith_follows carries isUnit
    intro name
    unfold proxiesIfAny
    split
    · exact proxies_follows carries name
    · exact .pure carries.lawful _
  exact (follows.ok trivial done).2.1

omit isUnit in
/-- With its essentials generated, all that the servants of an interface need is there. -/
theorem generateEssentials_equips (interface : isInterface ctx unit = true) (rests : NameTable.Rests ctx s.names)
    (idle : s.progress.busy = []) (undone : s.progress.isDefined unit = false)
    (done : generateEssentials ctx unit s = .ok output s') : Equipped ctx unit s' := by
  have carries : Carries ctx unit proceeding := proceeding_carries wf
  have isUnit := (isInterface_iff.mp interface).1
  obtain ⟨named, specs, declared, specified, bodies, bodied, codecs, coded, stubs, naming, first, second, third, fourth,
    -⟩ := unitWith_ok done
  rw [proxiesIfAny, if_pos interface] at fourth
  obtain ⟨-, names, restsNamed, rfl⟩ := withNames_answers (NameTable.fullName_run wf unit) rests naming
  obtain ⟨-, restsSpecified⟩ := specification_assembled wf restsNamed first
  obtain ⟨-, restsBodied⟩ := packageBody_assembled wf restsSpecified second
  obtain ⟨-, restsCoded⟩ := marshalling_assembled wf restsBodied third
  obtain ⟨-, restsLast⟩ := proxies_assembled wf restsCoded fourth
  obtain ⟨defined, base⟩ :=
    specification_declares_references (s := { s with names }) wf interface restsNamed idle undone first
  have throughBody : specified.progress.Extends bodied.progress :=
    ((packageBody_follows carries isUnit _).ok trivial second).2.1
  have throughCodecs : bodied.progress.Extends coded.progress :=
    ((marshalling_follows carries _ fun _ _ => .inr fun _ => trivial).ok trivial third).2.1
  have still : coded.progress.isDefined unit = true :=
    (throughBody.trans throughCodecs).done (a := .declaration) defined
  exact
    { rests := restsLast
      idle := (generateEssentials_proceeds wf isUnit done).busy_eq.trans idle
      base := base
      types := proxies_ready wf interface restsCoded still fourth }

omit isUnit in
theorem generateOptions_succeeds (imports : ∀ e ∈ ctx.settings.imports, e ∈ ctx.tree.ids)
    (rests : NameTable.Rests ctx s.names) (equipped : isInterface ctx unit = true → Equipped ctx unit s)
    (name : String) :
    ∃ more s', generateOptions ctx unit name s = .ok more s' ∧ Unmoved ctx s s' ∧
      (∀ a ∈ more, a.kind.isOptional = true) ∧ (isInterface ctx unit = false → more = []) := by
  cases interface : isInterface ctx unit with
  | false => exact ⟨[], s, by rw [generateOptions, interface]; rfl, .refl rests, by simp, fun _ => rfl⟩
  | true =>
    obtain ⟨servants, served, first, unmoved⟩ :=
      implementation_succeeds wf interface imports (equipped interface) name
    obtain ⟨dispatcher, second⟩ := skeleton_succeeds ctx unit name served
    refine ⟨servants ++ dispatcher, served, ?_, unmoved, ?_, by simp⟩
    · rw [generateOptions, if_pos interface, bind_of_ok first, bind_of_ok second]
      rfl
    · intro a listed
      have labelled := (implementation_labelled first).append (skeleton_labelled second)
      have optional : ∀ kind ∈ [ArtifactKind.implSpec, .implBody] ++ [.skeleton], kind.isOptional = true := by decide
      exact optional _ (labelled.kinds.subset (List.mem_map_of_mem listed))

end

/-! ## With and without -/

/-- Both sessions have come the same way, but for artifacts that the one has made and the other has not. Nothing that
belongs to the units `pending` has been written, and nothing is under way. -/
structure InStep (ctx : Context) (pending : List Nat) (s t : Session) : Prop where
  names : NameTable.Rests ctx s.names ∧ NameTable.Rests ctx t.names
  sizes : (s.sizes.Sound ctx.tree ∧ s.sizes.busy = []) ∧ t.sizes.Sound ctx.tree ∧ t.sizes.busy = []
  declared_eq : s.declared = t.declared
  idle : s.progress.busy = [] ∧ t.progress.busy = []
  done_eq : ∀ (a : Aspect) (n : Nat), a.isDone s.progress n = a.isDone t.progress n
  unwritten : ∀ (a : Aspect) (n : Nat), ctx.tree.packageOf n ∈ pending → a.isDone s.progress n = false
  awaited : ∀ n ∈ s.declared, ctx.tree.packageOf n ∉ pending

theorem inStep_start (ctx : Context) (pending : List Nat) : InStep ctx pending .start .start where
  names := ⟨NameTable.rests_empty ctx, NameTable.rests_empty ctx⟩
  sizes := ⟨⟨nofun, rfl⟩, nofun, rfl⟩
  declared_eq := rfl
  idle := ⟨rfl, rfl⟩
  done_eq _ _ := rfl
  unwritten a n _ := by cases a <;> rfl
  awaited := nofun

namespace InStep

variable {pending : List Nat}

/-- On the first artifact of a unit, the sessions are alike in all that has been written. -/
theorem opened (inStep : InStep ctx pending s t) (unit : Nat) :
    Session.Alike ctx (fun _ => True) (fun _ _ => false) (opening ctx unit s) (opening ctx unit t) where
  names := inStep.names
  sizes := inStep.sizes
  deps_eq := rfl
  hoisted_eq := rfl
  declared_eq := inStep.declared_eq
  busy_eq := inStep.idle.1.trans inStep.idle.2.symm
  done_eq a n _ := inStep.done_eq a n
  frame _ _ other := absurd trivial other
  awaited _ _ := trivial
  covers _ _ := trivial

/-- The one session is like itself even if what belongs to the pending units does not count, which none of its actions
therefore touch. -/
theorem confined (inStep : InStep ctx (unit :: pending) s t) (apart : unit ∉ pending) :
    Session.Alike ctx (ctx.tree.packageOf · ∉ pending) (fun _ _ => false)
      (opening ctx unit s) (opening ctx unit s) where
  names := ⟨inStep.names.1, inStep.names.1⟩
  sizes := ⟨inStep.sizes.1, inStep.sizes.1⟩
  deps_eq := rfl
  hoisted_eq := rfl
  declared_eq := rfl
  busy_eq := rfl
  done_eq _ _ _ := rfl
  frame a n other := inStep.unwritten a n (List.mem_cons_of_mem _ (not_not.mp other))
  awaited n listed among := inStep.awaited n listed (List.mem_cons_of_mem _ among)
  covers n package := by rwa [package.trans (opening_packaged unit s).unit_eq]

theorem essentials (inStep : InStep ctx (unit :: pending) s t) (wf : ctx.tree.WellFormed)
    (isUnit : ctx.tree.hasKind Kind.isUnit unit = true) (apart : unit ∉ pending) :
    (∃ output s' t', generateEssentials ctx unit s = .ok output s' ∧ generateEssentials ctx unit t = .ok output t' ∧
      InStep ctx pending s' t') ∨
    ∃ fault s' t', generateEssentials ctx unit s = .error fault s' ∧
      generateEssentials ctx unit t = .error fault t' := by
  have agreed := generateEssentials_agrees wf isUnit (fun _ _ => trivial) _ _ (inStep.opened unit)
  rw [generateEssentials_opening wf isUnit inStep.names.1,
    generateEssentials_opening wf isUnit inStep.names.2] at agreed
  refine agreed.imp_left fun ⟨output, s', t', run, run', alike⟩ => ⟨output, s', t', run, run', ?_⟩
  have home (n : Nat) (package : ctx.tree.packageOf n = unit) : ctx.tree.packageOf n ∉ pending := package ▸ apart
  obtain ⟨_, -, kept⟩ := (generateEssentials_agrees wf isUnit home).ok (inStep.confined apart)
    ((generateEssentials_opening wf isUnit inStep.names.1).trans run)
  exact
    { names := alike.names
      sizes := alike.sizes
      declared_eq := alike.declared_eq
      idle := ⟨(generateEssentials_proceeds wf isUnit run).busy_eq.trans inStep.idle.1,
        (generateEssentials_proceeds wf isUnit run').busy_eq.trans inStep.idle.2⟩
      done_eq := fun a n => alike.done_eq a n trivial
      unwritten := fun a n among => kept.frame a n (not_not.mpr among)
      awaited := kept.awaited }

/-- Whatever leaves the one session unmoved may come in between. -/
theorem unmoved (inStep : InStep ctx pending s t) (unmoved : Unmoved ctx s s') : InStep ctx pending s' t := by
  have declared_eq : s'.declared = s.declared := congrArg Trace.declared unmoved.trace_eq
  have busy_eq : s'.progress.busy = s.progress.busy := congrArg Trace.busy unmoved.trace_eq
  exact
    { names := ⟨unmoved.rests, inStep.names.2⟩
      sizes := ⟨unmoved.sizes_eq ▸ inStep.sizes.1, inStep.sizes.2⟩
      declared_eq := declared_eq.trans inStep.declared_eq
      idle := ⟨busy_eq.trans inStep.idle.1, inStep.idle.2⟩
      done_eq := fun a n => (unmoved.isDone_eq a n).trans (inStep.done_eq a n)
      unwritten := fun a n among => (unmoved.isDone_eq a n).trans (inStep.unwritten a n among)
      awaited := fun n listed => inStep.awaited n (declared_eq ▸ listed) }

/-- The step: the options of the unit are made on the one side only. -/
theorem step (inStep : InStep ctx (unit :: pending) s t) (wf : ctx.tree.WellFormed)
    (imports : ∀ e ∈ ctx.settings.imports, e ∈ ctx.tree.ids) (isUnit : ctx.tree.hasKind Kind.isUnit unit = true)
    (apart : unit ∉ pending) :
    (∃ output s' t', generateUnit ctx unit s = .ok output s' ∧ generateEssentials ctx unit t = .ok output.essential t' ∧
      output.essential.artifacts.isEmpty = output.artifacts.isEmpty ∧ InStep ctx pending s' t') ∨
    ∃ fault s' t', generateUnit ctx unit s = .error fault s' ∧ generateEssentials ctx unit t = .error fault t' := by
  rw [generateUnit_eq]
  rcases inStep.essentials wf isUnit apart with ⟨kept, s', t', run, run', after⟩ | ⟨fault, s', t', run, run'⟩
  · have equipped (interface : isInterface ctx unit = true) : Equipped ctx unit s' := by
      have undone : s.progress.isDefined unit = false :=
        inStep.unwritten .declaration unit (by simp [wf.packageOf_unit isUnit])
      exact generateEssentials_equips wf interface inStep.names.1 inStep.idle.1 undone run
    obtain ⟨more, last, made, unmoved, optional, absent⟩ :=
      generateOptions_succeeds wf imports after.names.1 equipped kept.name
    have essential : ({ kept with artifacts := kept.artifacts ++ more } : UnitOutput).essential = kept :=
      UnitOutput.essential_append (generateEssentials_kinds run) optional
    refine .inl ⟨_, last, t', ?_, essential.symm ▸ run', ?_, after.unmoved unmoved⟩
    · rw [bind_of_ok run, bind_of_ok made]
      rfl
    · rw [essential]
      cases interface : isInterface ctx unit with
      | false => simp [absent interface]
      | true =>
        have nonempty : kept.artifacts ≠ [] := generateEssentials_nonempty wf interface run
        simp [List.isEmpty_eq_false_iff.mpr nonempty, nonempty]
  · exact .inr ⟨fault, s', t', bind_of_error run _, run'⟩

theorem run (inStep : InStep ctx pending s t) (wf : ctx.tree.WellFormed)
    (imports : ∀ e ∈ ctx.settings.imports, e ∈ ctx.tree.ids) (distinct : pending.Nodup)
    (areUnits : ∀ u ∈ pending, ctx.tree.hasKind Kind.isUnit u = true) :
    (∃ all s' t', pending.mapM (generateUnit ctx) s = .ok all s' ∧
      pending.mapM (generateEssentials ctx) t = .ok (all.map UnitOutput.essential) t' ∧
      ∀ u ∈ all, u.essential.artifacts.isEmpty = u.artifacts.isEmpty) ∨
    ∃ fault s' t', pending.mapM (generateUnit ctx) s = .error fault s' ∧
      pending.mapM (generateEssentials ctx) t = .error fault t' := by
  induction pending generalizing s t with
  | nil => exact .inl ⟨[], s, t, rfl, rfl, by simp⟩
  | cons unit pending ih =>
    obtain ⟨apart, others⟩ := List.nodup_cons.mp distinct
    rw [List.mapM_cons, List.mapM_cons]
    rcases inStep.step wf imports (areUnits unit List.mem_cons_self) apart with
      ⟨output, s', t', made, kept, same, after⟩ | ⟨fault, s', t', failed, failed'⟩
    · rw [bind_of_ok made, bind_of_ok kept]
      rcases ih after others fun u listed => areUnits u (List.mem_cons_of_mem _ listed) with
        ⟨all, last, last', rest, rest', nonempty⟩ | ⟨fault, last, last', rest, rest'⟩
      · rw [bind_of_ok rest, bind_of_ok rest']
        exact .inl ⟨output :: all, last, last', rfl, rfl, List.forall_mem_cons.mpr ⟨same, nonempty⟩⟩
      · rw [bind_of_error rest, bind_of_error rest']
        exact .inr ⟨fault, last, last', rfl, rfl⟩
    · rw [bind_of_error failed, bind_of_error failed']
      exact .inr ⟨fault, s', t', rfl, rfl⟩

end InStep

end Emit

open Emit

/-- What is left of a generation without the optional artifacts is what it makes where none are asked for. -/
theorem generate_essential {ctx : Context} (wf : ctx.tree.WellFormed) :
    (·.map UnitOutput.essential) <$> generate ctx = generate (ctx.withOptions false false) := by
  have same : (ctx.withOptions false false).unknownImport? = ctx.unknownImport? := rfl
  cases known : ctx.unknownImport? with
  | some node =>
    unfold generate
    rw [same, known]
    rfl
  | none =>
    rw [generate_eq_outcome known, generate_eq_outcome (same.trans known), generateUnits, generateUnits, bind_pure_comp,
      bind_pure_comp, outcome_map, outcome_map, funext (generateUnit_without ctx)]
    rcases (inStep_start ctx (ctx.tree.units Tree.root)).run wf (mem_ids_of_imports known) (wf.units_nodup Tree.root)
      fun u listed => Tree.isUnit_of_mem_units wf.isUnit_root listed with
      ⟨all, _, _, made, kept, nonempty⟩ | ⟨fault, _, _, failed, failed'⟩
    · rw [withOptions_tree, outcome_of_ok made, outcome_of_ok kept]
      have filtered : all.filter (!·.essential.artifacts.isEmpty) = all.filter (!·.artifacts.isEmpty) :=
        List.filter_congr fun u listed => by rw [nonempty u listed]
      change Except.ok ((all.filter _).map _) = Except.ok ((all.map _).filter _)
      rw [List.filter_map, ← filtered]
      rfl
    · rw [withOptions_tree, outcome_of_error failed, outcome_of_error failed']
      rfl

/-- Two generations that differ only in whether servants and dispatchers are made both fail, with the same fault, or
make the same units in the same order, with the same artifacts and the same texts but for the optional ones. -/
theorem optional_artifacts_unnoticed (script : List Step) (settings : Settings) (i k i' k' : Bool) :
    let given (i k : Bool) : Settings := { settings with implementation := i, skeletons := k }
    let seen (i k : Bool) : Except Fault (List (UnitOutput × List String)) :=
      (·.map fun u => (u.essential, u.essential.artifacts.map (·.text (given i k)))) <$>
        generate ⟨.ofSteps script, given i k⟩
    seen i k = seen i' k' := by
  intro given seen
  let ctx : Context := ⟨.ofSteps script, settings⟩
  have either (i k : Bool) : seen i k =
      (·.map fun u => (u, u.artifacts.map (·.text settings))) <$> generate (ctx.withOptions false false) := by
    have wf : (ctx.withOptions i k).tree.WellFormed := Tree.ofSteps_wellFormed script
    have text (a : Artifact) : a.text (given i k) = a.text settings := rfl
    have none : (ctx.withOptions i k).withOptions false false = ctx.withOptions false false := rfl
    rw [← none, ← generate_essential wf, ← comp_map]
    simp only [seen, text]
    congr 1
    funext outputs
    simp
  rw [either i k, either i' k']

-- The settings do make a difference in what is left out.
example :
    let kinds (i k : Bool) := (·.map fun u => u.artifacts.map (·.kind)) <$>
      generate ⟨.ofSteps [.interface 0 "I" [], .operation 1 "op" none false []],
        { implementation := i, skeletons := k }⟩
    let plain : List ArtifactKind := [.spec, .body, .marshalSpec, .marshalBody, .proxiesSpec, .proxiesBody]
    (kinds false false).toOption = some [plain] ∧
      (kinds true true).toOption = some [plain ++ [.implSpec, .implBody, .skeleton]] := by
  decide +kernel

end AdaStubs
