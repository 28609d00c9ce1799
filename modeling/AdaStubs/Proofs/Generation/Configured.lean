import AdaStubs.Proofs.Generation.Allowance
import AdaStubs.Proofs.Generation.DeclarationOrder

/-!
# What is configured to exist already

A declaration that is configured to exist already is left out where its unit lists it, together with all that is
nested in it. Only members of a unit are left out: a nested type goes with the declaration around it, the contents
of a unit are generated whatever is said of the unit, and so is an interface. Anonymous types are written only
where they are referred to, so that any scope of theirs leaves them out.

Main statement: `emitted_iff_not_withheld`.
-/

namespace AdaStubs

open Ada Run

/-- On the way from `node` to its package there is a declaration configured to exist already, which the package
lists itself unless `node` is anonymous. -/
def Context.Withholds (ctx : Context) (node : Nat) : Prop :=
  ∃ scope ∈ ctx.tree.pathTo (ctx.tree.packageOf node) node, scope ∈ ctx.settings.imports ∧
    (scope ∈ ctx.tree.members (ctx.tree.packageOf node) ∨ ctx.tree.hasKind Kind.isAnonymous node = true)

instance (ctx : Context) (node : Nat) : Decidable (ctx.Withholds node) :=
  inferInstanceAs (Decidable (∃ scope ∈ _, _))

theorem Artifact.Within.standing {allowed : Part → Nat → Prop} {unit : Nat} {artifacts : List Artifact}
    (within : ∀ a ∈ artifacts, a.Within allowed) {part : Part} {node : Nat} (withheld : ¬ allowed part node) :
    AdaStubs.standing unit artifacts (part, node) = [] := by
  unfold AdaStubs.standing
  refine List.flatMap_eq_nil_iff.mpr fun a listed => List.map_eq_nil_iff.mpr (List.filter_eq_nil_iff.mpr ?_)
  intro item among same
  exact withheld (within a listed (part, node) (List.mem_filterMap.mpr ⟨item, among, beq_iff_eq.mp same⟩))

namespace Emit

open Dependencies

variable {ctx : Context} {unit : Nat} {name : String} {s s' : Session} (wf : ctx.tree.WellFormed)
include wf

/-! ## What is withheld -/

omit wf in
theorem not_withholds_of_isLocal {node : Nat} (isLocal : ctx.isLocal unit node = true) : ¬ ctx.Withholds node := by
  obtain ⟨home, unknown⟩ := Tree.isOutside_eq_false.mp (Tree.isLocal_iff.mp isLocal).2
  rintro ⟨scope, onPath, listed, -⟩
  rw [home] at onPath
  exact unknown scope onPath listed

theorem not_withholds_unit (isUnit : ctx.tree.hasKind Kind.isUnit unit = true) : ¬ ctx.Withholds unit := by
  rintro ⟨scope, onPath, -⟩
  rw [wf.packageOf_unit isUnit, Tree.pathTo_self] at onPath
  cases onPath

omit wf in
theorem isAnonymous_eq_false {node : Nat} (declared : ctx.tree.hasKind Kind.isDeclared node = true) :
    ctx.tree.hasKind Kind.isAnonymous node = false := by
  obtain ⟨present, found, kind⟩ := Tree.exists_of_hasKind declared
  rw [Tree.hasKind_eq found]
  cases shape : present.kind <;> simp_all [Kind.isDeclared, Kind.isAnonymous]

theorem withholds_iff (isUnit : ctx.tree.hasKind Kind.isUnit unit = true) {m n : Nat}
    (listed : m ∈ ctx.tree.members unit) (inner : ctx.tree.hasKind Kind.isUnit m = false)
    (within : n ∈ ctx.tree.innerFirst m) : ctx.Withholds n ↔ m ∈ ctx.settings.imports := by
  obtain ⟨declared, home⟩ := wf.declared_in_unit isUnit listed inner
  obtain ⟨nested, package⟩ := wf.isDeclared_of_mem_innerFirst declared within
  have onPath (scope : Nat) : scope ∈ ctx.tree.pathTo unit n ∧ scope ∈ ctx.tree.members unit ↔ scope = m :=
    wf.member_on_path_iff isUnit listed inner within
  unfold Context.Withholds
  rw [package, home, isAnonymous_eq_false nested]
  simp only [Bool.false_eq_true, or_false]
  constructor
  · rintro ⟨scope, above, known, direct⟩
    rwa [← (onPath scope).mp ⟨above, direct⟩]
  · intro known
    obtain ⟨above, direct⟩ := (onPath m).mpr rfl
    exact ⟨m, above, known, direct⟩

/-! ## Nothing withheld is written -/

def spared (ctx : Context) (_ : Part) (node : Nat) : Prop := ¬ ctx.Withholds node

/-- Nothing withheld has been written since the start. -/
abbrev Spares (ctx : Context) (unit : Nat) (s : Session) : Prop :=
  Within ctx unit (spared ctx) Session.start.trace s

theorem not_withholds_of_ownMembers (isUnit : ctx.tree.hasKind Kind.isUnit unit = true)
    (within : Spares ctx unit s) {members : List Nat}
    (done : ownMembers ctx unit s = .ok members s') :
    ∀ n ∈ members.flatMap ctx.tree.innerFirst, ¬ ctx.Withholds n := by
  intro n walked
  obtain ⟨m, among, nested⟩ := List.mem_flatMap.mp walked
  obtain ⟨-, own, rfl, decision⟩ := ownMembers_ok done
  obtain ⟨listed, chosen⟩ := List.mem_filter.mp among
  obtain ⟨inner, unreached⟩ := (decision m listed).mp chosen
  rw [withholds_iff wf isUnit listed inner nested]
  intro known
  rw [within.unit_eq] at unreached
  have home := (wf.declared_in_unit isUnit listed inner).2
  have onPath : m ∈ outerPath ctx.tree unit m := by
    rw [wf.outerPath_eq home, wf.pathTo_of_unit isUnit listed inner]
    exact List.mem_cons_self
  exact unreached (.inr ⟨m, onPath, within.told (a := .declaration) known⟩)

theorem specification_spares {artifacts : List Artifact} {declared : List Nat}
    (isUnit : ctx.tree.hasKind Kind.isUnit unit = true)
    (within : Spares ctx unit (opening ctx unit s))
    (done : specification ctx unit name s = .ok (artifacts, declared) s') :
    (∀ a ∈ artifacts, a.Within (spared ctx)) ∧ (∀ n ∈ declared, ¬ ctx.Withholds n) ∧
      Spares ctx unit s' := by
  have types : ∀ r, (nameType ctx r).Follows (.keeping (Spares ctx unit)) [r] :=
    fun r => nameWithin_within wf (fun _ => not_withholds_of_isLocal) _ r
  have each {n : Nat} (free : ¬ ctx.Withholds n) :
      (place (declaration ctx n)).Follows (.keeping (Spares ctx unit)) [] :=
    place_produce_within wf free fun r _ => types r
  obtain ⟨opened, members, filled, first, listed, written, rfl, packed⟩ := specification_ok done
  have openedWithin : Spares ctx unit opened := by
    unfold declareReferences at first
    split at first
    · exact ((each (not_withholds_unit wf isUnit)).ok within first).1
    · cases first
      exact within
  have filledWithin : Spares ctx unit filled := by
    refine ((placeAll_within fun n walked => each ?_).ok openedWithin written).1
    exact not_withholds_of_ownMembers wf isUnit openedWithin listed n walked
  have taken : Spares ctx unit { filled with declared := [] } :=
    { filledWithin with declared := nofun, keptDeclared := nofun }
  obtain ⟨inside, kept⟩ := packed.within wf taken
  exact ⟨inside, fun n listed => (filledWithin.declared n listed).resolve_left List.not_mem_nil, kept⟩

theorem generateUnit_spares (isUnit : ctx.tree.hasKind Kind.isUnit unit = true)
    (within : Spares ctx unit (opening ctx unit s)) {output : UnitOutput}
    (done : generateUnit ctx unit s = .ok output s') :
    (∀ a ∈ output.artifacts, a.Within (spared ctx)) ∧ Spares ctx unit s' := by
  have permits : ∀ n, ctx.isLocal unit n = true → ¬ ctx.Withholds n := fun _ => not_withholds_of_isLocal
  have types (n : Nat) : NamesWithin ctx unit (spared ctx) Session.start.trace n :=
    fun r _ => nameWithin_within wf permits _ r
  obtain ⟨named, specs, declared, specified, bodies, bodied, codecs, coded, rest, first, second, third, fourth,
    fifth, -, all⟩ := generateUnit_ok done
  obtain ⟨names, rfl⟩ := withNames_run first
  have named : Spares ctx unit (opening ctx unit { s with names }) := within.still ⟨rfl, id⟩ rfl
  obtain ⟨specsWithin, free, specifiedWithin⟩ := specification_spares wf isUnit named second
  obtain ⟨bodiesWithin, bodiedWithin⟩ := packageBody_within wf specifiedWithin.opening (fun _ n _ => types n) third
  obtain ⟨codecsWithin, codedWithin⟩ := marshalling_within wf bodiedWithin free free permits fourth
  obtain ⟨restWithin, lastWithin⟩ := children_within wf (fun n _ => types n) codedWithin permits fifth
  refine ⟨fun a listed => ?_, lastWithin⟩
  rw [all] at listed
  simp only [List.mem_append] at listed
  rcases listed with ((spec | body) | codec) | other
  · exact specsWithin a spec
  · exact bodiesWithin a body
  · exact codecsWithin a codec
  · exact restWithin a other

theorem mapM_generateUnit_spares {units : List Nat}
    (areUnits : ∀ u ∈ units, ctx.tree.hasKind Kind.isUnit u = true)
    (within : ∀ u, Spares ctx u (opening ctx u s)) {outputs : List UnitOutput}
    (done : units.mapM (generateUnit ctx) s = .ok outputs s') :
    ∀ output ∈ outputs, ∀ a ∈ output.artifacts, a.Within (spared ctx) := by
  -- The invariant is said of whatever unit comes next, as the dependencies are its own.
  induction units generalizing s outputs with
  | nil =>
    rw [List.mapM_nil] at done
    cases done
    simp
  | cons unit units ih =>
    rw [List.mapM_cons] at done
    obtain ⟨output, middle, first, rest⟩ := bind_eq_ok.mp done
    obtain ⟨others, last, later, returned⟩ := bind_eq_ok.mp rest
    cases returned
    obtain ⟨inside, kept⟩ := generateUnit_spares wf (areUnits unit List.mem_cons_self) (within unit) first
    intro given among
    rcases List.mem_cons.mp among with rfl | further
    · exact inside
    · exact ih (fun u listed => areUnits u (List.mem_cons_of_mem _ listed)) (fun _ => kept.opening) later given further

/-! ## All else is written -/

omit wf

theorem specification_declares (inherits : Inherits ctx) (isUnit : ctx.tree.hasKind Kind.isUnit unit = true)
    (idle : s.trace.busy = []) {artifacts : List Artifact} {declared : List Nat}
    (done : specification ctx unit name s = .ok (artifacts, declared) s') {n : Nat}
    (isDeclared : ctx.tree.hasKind Kind.isDeclared n = true) (home : ctx.tree.packageOf n = unit)
    (free : ¬ ctx.Withholds n) (fresh : n ∉ s.trace.defined) :
    standing unit artifacts (.declaration, n) ≠ [] := by
  have wf := inherits.wellFormed
  obtain ⟨opened, members, filled, new, packagedOpened, listed, packagedFilled, written, settled, rfl, packed⟩ :=
    specification_writes inherits isUnit done
  have walked : n ∈ (if isInterface ctx unit then [unit] else []) ++ members.flatMap ctx.tree.innerFirst := by
    refine mem_walk wf isDeclared home fun m among inner nested => ?_
    rw [mem_ownMembers wf packagedOpened isUnit listed among inner, ← withholds_iff wf isUnit among inner nested]
    exact free
  have defined : n ∈ Aspect.declaration.done filled.trace := by
    refine (settled n walked).resolve_right fun busy => ?_
    rw [written.busy_eq, show s.trace.cleared.busy = [] from idle] at busy
    cases busy
  have isNew : n ∈ new := (written.mem_done.mp defined).resolve_right fresh
  have taken : ctx.Packaged unit ({ filled with declared := [] } : Session).deps := packagedFilled
  have parts : filled.trace.parts = new.map fun n => (Part.declaration, n) := written.parts_eq
  rw [(packed.standing inherits taken).2, ← List.length_pos_iff, List.length_replicate, List.count_pos_iff]
  change _ ∈ filled.trace.parts
  rw [parts]
  exact List.mem_map_of_mem isNew

theorem generateUnit_declares (inherits : Inherits ctx) (isUnit : ctx.tree.hasKind Kind.isUnit unit = true)
    (idle : s.trace.busy = []) {output : UnitOutput} (done : generateUnit ctx unit s = .ok output s') {n : Nat}
    (isDeclared : ctx.tree.hasKind Kind.isDeclared n = true) (home : ctx.tree.packageOf n = unit)
    (free : ¬ ctx.Withholds n) (fresh : n ∉ s.trace.defined) :
    standing output.node output.artifacts (.declaration, n) ≠ [] := by
  obtain ⟨named, specs, declared, _, bodies, _, codecs, _, rest, first, second, -, -, -, node, all⟩ :=
    generateUnit_ok done
  obtain ⟨names, rfl⟩ := withNames_run first
  have stands := specification_declares (s := { s with names }) inherits isUnit idle second isDeclared home free fresh
  rw [node, all, List.append_assoc, List.append_assoc, standing_append]
  exact fun none => stands (List.append_eq_nil_iff.mp none).1

theorem mapM_generateUnit_declares (inherits : Inherits ctx) {units : List Nat} (distinct : units.Nodup)
    (areUnits : ∀ u ∈ units, ctx.tree.hasKind Kind.isUnit u = true) {n : Nat}
    (isDeclared : ctx.tree.hasKind Kind.isDeclared n = true) (among : ctx.tree.packageOf n ∈ units)
    (free : ¬ ctx.Withholds n) {outputs : List UnitOutput}
    (done : units.mapM (generateUnit ctx) .start = .ok outputs s') : sites outputs .declaration n ≠ [] := by
  obtain ⟨earlier, later, split⟩ := List.append_of_mem among
  obtain ⟨made, output, rest, middle, after, rfl, node, turn⟩ :=
    exists_turn inherits distinct areUnits rfl (fun m listed => absurd listed List.not_mem_nil) done split
  have stands := generateUnit_declares inherits turn.isUnit turn.idle turn.generated isDeclared node.symm free
    fun early => turn.fresh n early node.symm
  rw [sites, List.flatMap_append, List.flatMap_cons]
  intro none
  exact stands (List.append_eq_nil_iff.mp (List.append_eq_nil_iff.mp none).2).1

end Emit

open Emit

/-- Nothing is written of what is withheld, in no artifact. Where inheritance is from interfaces, all else that is
to be declared is declared. -/
theorem emitted_iff_not_withheld (script : List Step) (settings : Settings) (outputs : List UnitOutput)
    (done : generate ⟨.ofSteps script, settings⟩ = .ok outputs) :
    let ctx : Context := ⟨.ofSteps script, settings⟩
    ∀ n, (ctx.Withholds n → ∀ part, sites outputs part n = []) ∧
      ((∀ id ∈ ctx.tree.ids, ∀ kind ∈ ctx.tree.kind? id, ∀ base ∈ kind.firstBase?, isInterface ctx base = true) →
        ctx.tree.hasKind Kind.isDeclared n = true → (sites outputs .declaration n ≠ [] ↔ ¬ ctx.Withholds n)) := by
  intro ctx n
  have wf : ctx.tree.WellFormed := Tree.ofSteps_wellFormed script
  obtain ⟨all, last, each, rfl⟩ := generate_ok done
  have areUnits : ∀ u ∈ ctx.tree.units Tree.root, ctx.tree.hasKind Kind.isUnit u = true :=
    fun u listed => Tree.isUnit_of_mem_units wf.isUnit_root listed
  have silent : ctx.Withholds n → ∀ part, sites all part n = [] := by
    intro withheld part
    have start (u : Nat) : Spares ctx u (opening ctx u .start) := .since (opening_packaged u .start) nofun
    have inside := mapM_generateUnit_spares wf areUnits start each
    exact List.flatMap_eq_nil_iff.mpr fun output listed =>
      Artifact.Within.standing (inside output listed) fun free => free withheld
  refine ⟨fun withheld part => (sites_filter all part n).trans (silent withheld part), fun bases isDeclared => ?_⟩
  rw [sites_filter]
  refine ⟨fun stands withheld => stands (silent withheld .declaration), fun free => ?_⟩
  have inherits : Inherits ctx :=
    ⟨wf, fun {node base others} found => bases node (Tree.mem_ids_of_kind? found) _ found base rfl⟩
  exact mapM_generateUnit_declares inherits (wf.units_nodup Tree.root) areUnits isDeclared
    (wf.mem_units (wf.isUnit_packageOf n)) free each

/-- A structure that exists already, with a structure nested in it, and another one with a nested structure that
exists already. -/
def knownStructures : List Step :=
  [.module 0 "M", .struct 1 "Known", .struct 2 "Part", .struct 1 "Outer", .struct 4 "Inner", .field 4 "inner" 5,
    .field 4 "part" 3]

/-- The first goes with what is nested in it; the nested one does not go. -/
theorem known_structure_withheld :
    ∃ outputs, generate ⟨.ofSteps knownStructures, { imports := [2, 5] }⟩ = .ok outputs ∧
      (∀ part, sites outputs part 2 = [] ∧ sites outputs part 3 = []) ∧ sites outputs .declaration 5 ≠ [] := by
  have made : ∃ outputs, generate ⟨.ofSteps knownStructures, { imports := [2, 5] }⟩ = .ok outputs ∧
      outputs ≠ [] := by
    apply exists_outputs
    decide +kernel
  obtain ⟨outputs, done, -⟩ := made
  have emitted := emitted_iff_not_withheld knownStructures { imports := [2, 5] } outputs done
  refine ⟨outputs, done, fun part => ⟨?_, ?_⟩, ?_⟩
  · exact (emitted 2).1 (by decide +kernel) part
  · exact (emitted 3).1 (by decide +kernel) part
  · exact ((emitted 5).2 (by decide +kernel) (by decide +kernel)).mpr (by decide +kernel)

/-- A nested structure is declared and marshalled although it is configured to exist already. -/
theorem known_nested_structure_emitted :
    let settings : Settings := { imports := [2, 5] }
    5 ∈ settings.imports ∧ ∃ outputs, generate ⟨.ofSteps knownStructures, settings⟩ = .ok outputs ∧
      sites outputs .declaration 5 = [(1, .spec)] ∧ sites outputs .profiles 5 = [(1, .marshalSpec)] ∧
      sites outputs .codec 5 = [(1, .marshalBody)] := by
  intro settings
  refine ⟨by decide, ?_⟩
  apply exists_outputs
  decide +kernel

end AdaStubs
