import AdaStubs.Proofs.Generation.Allowance
import AdaStubs.Proofs.Generation.DeclarationOrder

/-!
# Declarations outside specifications

The phases after the specification of a unit name types again. They declare none, unless an operation of the unit
is configured to exist already: the specification leaves it out, and the children of the interface do not. A type
that only such an operation refers to is then declared among the proxies, and waits for the marshalling package of
the next unit.

Main statement: `declared_in_specifications_iff_supplied`.
-/

namespace AdaStubs

open Ada Run

def UnitOutput.Specifies (output : UnitOutput) (node : Nat) : Prop :=
  ∃ a ∈ output.artifacts, a.kind = .spec ∧ node ∈ a.declares

/-- The specification of a unit declares what the operations refer to that are configured to exist already, as far
as it is to be declared in the unit at all. -/
def Context.Supplied (ctx : Context) (output : UnitOutput) : Prop :=
  ∀ o ∈ Emit.operationsOf ctx output.node, o ∈ ctx.settings.imports →
    ∀ r ∈ ctx.tree.declarationRefs o, ctx.isLocal output.node r = true → output.Specifies r

instance (output : UnitOutput) (node : Nat) : Decidable (output.Specifies node) :=
  inferInstanceAs (Decidable (∃ a ∈ _, _))

instance (ctx : Context) (output : UnitOutput) : Decidable (ctx.Supplied output) :=
  inferInstanceAs (Decidable (∀ o ∈ _, _ → ∀ r ∈ _, _ → _))

theorem Artifact.mem_declares {a : Artifact} {node : Nat} :
    node ∈ a.declares ↔ (Part.declaration, node) ∈ a.items.filterMap Item.part? := by
  rw [Artifact.declares, filterMap_declares, List.mem_filterMap]
  simp

def undeclaring (part : Part) (_ : Nat) : Prop := part ≠ .declaration

theorem Artifact.Within.declares_eq {a : Artifact} (within : a.Within undeclaring) : a.declares = [] :=
  List.eq_nil_iff_forall_not_mem.mpr fun _ listed => within _ (Artifact.mem_declares.mp listed) rfl

namespace Emit

open Dependencies

variable {ctx : Context} {unit : Nat} {name : String} {s s' : Session} {artifacts : List Artifact}

theorem Packed.declares_iff {kind : ArtifactKind} {filled : Session}
    (packed : Packed ctx kind name filled artifacts s') {node : Nat} :
    (∃ a ∈ artifacts, node ∈ a.declares) ↔ (Part.declaration, node) ∈ filled.trace.parts := by
  rcases packed with ⟨rfl, empty, rfl⟩ | ⟨artifact, rfl, made⟩
  · simp [Session.trace, empty]
  · obtain ⟨clauses, -, rfl⟩ := package_ok made
    simp [Artifact.mem_declares, Artifact.items, Session.trace]

theorem awaitsMarshalling_of_isLocal {r : Nat} (isLocal : ctx.isLocal unit r = true) :
    awaitsMarshalling ctx .declaration r = true := by
  obtain ⟨present, found, kind⟩ := Tree.exists_of_hasKind (Tree.isLocal_iff.mp isLocal).1
  rw [awaitsMarshalling, Tree.hasKind_eq found]
  cases shape : present.kind <;> simp_all [Kind.isRuntime, Kind.isPrimitive]

/-! ## After the specification -/

/-- What holds once `new` has been declared in the specification of `unit`. -/
structure Specified (ctx : Context) (unit : Nat) (specs : List Artifact) (new : List Nat) (s : Session) : Prop where
  packaged : ctx.Packaged unit s.deps
  idle : s.trace.busy = []
  taken : s.trace.declared = []
  declares : ∀ {r}, (∃ a ∈ specs, r ∈ a.declares) ↔ r ∈ new
  defined : ∀ {r}, ctx.tree.packageOf r = unit → (r ∈ s.trace.defined ↔ r ∈ new)
  closed : ∀ n ∈ new, ∀ r ∈ ctx.tree.declarationRefs n, ctx.isLocal unit r = true → r ∈ s.trace.defined
  members : ∀ m ∈ ctx.tree.members unit, ctx.tree.hasKind Kind.isUnit m = false → m ∉ ctx.settings.imports → m ∈ new

theorem specification_specified (inherits : Inherits ctx) (isUnit : ctx.tree.hasKind Kind.isUnit unit = true)
    (packaged : ctx.Packaged unit s.deps) (idle : s.trace.busy = [])
    (fresh : ∀ n ∈ s.trace.defined, ctx.tree.packageOf n ≠ unit) {declared : List Nat}
    (done : specification ctx unit name s = .ok (artifacts, declared) s') :
    ∃ new, Specified ctx unit artifacts new s' := by
  have wf := inherits.wellFormed
  have packagedLast := ((specification_follows (confined_carries inherits) isUnit name).ok packaged done).1
  obtain ⟨opened, members, filled, new, packagedOpened, listed, packagedFilled, written, settled, rfl, packed⟩ :=
    specification_writes inherits isUnit done
  have taken : ctx.Packaged unit ({ filled with declared := [] } : Session).deps := packagedFilled
  have same := (packed.standing inherits taken).1
  have still : filled.trace.busy = [] := written.busy_eq.trans idle
  have defined {r : Nat} (home : ctx.tree.packageOf r = unit) : r ∈ filled.trace.defined ↔ r ∈ new := by
    refine (written.mem_done (n := r)).trans (or_iff_left fun early => ?_)
    exact fresh r early home
  refine ⟨new, packagedLast, by rw [same]; exact still, by rw [same]; rfl, ?_, ?_, ?_, ?_⟩
  · intro r
    have parts : filled.trace.parts = new.map fun n => (Part.declaration, n) := written.parts_eq
    rw [packed.declares_iff]
    change _ ∈ filled.trace.parts ↔ _
    simp [parts]
  · intro r home
    rw [same]
    exact defined home
  · intro n among r refers isLocal
    rw [same]
    have settledRef := written.closed n among r refers isLocal
    rw [still] at settledRef
    exact settledRef.resolve_right List.not_mem_nil
  · intro m among inner unknown
    have own := (mem_ownMembers wf packagedOpened isUnit listed among inner).mpr unknown
    have walked : m ∈ members.flatMap ctx.tree.innerFirst :=
      List.mem_flatMap.mpr ⟨m, own, Tree.mem_innerFirst.mpr (.inl rfl)⟩
    have settledMember := settled m (List.mem_append_right _ walked)
    rw [still] at settledMember
    exact (defined (wf.declared_in_unit isUnit among inner).2).mp (settledMember.resolve_right List.not_mem_nil)

theorem declarationRefs_of_interface (interface : isInterface ctx unit = true) :
    ctx.tree.declarationRefs unit = [] := by
  obtain ⟨present, found, kind⟩ := Tree.exists_of_hasKind interface
  unfold Tree.declarationRefs
  rw [Tree.kind?_eq found]
  cases shape : present.kind <;> simp_all

namespace Specified

variable {specs : List Artifact} {new : List Nat} (specified : Specified ctx unit specs new s)
  (inherits : Inherits ctx) (isUnit : ctx.tree.hasKind Kind.isUnit unit = true)
include specified inherits isUnit

/-- What the body of the package names is what the specification was made of. -/
theorem body_names {members : List Nat}
    (listed : ownMembers ctx unit (opening ctx unit s) = .ok members (opening ctx unit s)) :
    ∀ n ∈ if isInterface ctx unit then unit :: members else members,
      NamesWithin ctx unit undeclaring s.trace.cleared n := by
  have wf := inherits.wellFormed
  have ofMember : ∀ n ∈ members, NamesWithin ctx unit undeclaring s.trace.cleared n := by
    intro n own r refers
    have among : n ∈ ctx.tree.members unit ∧ ctx.tree.hasKind Kind.isUnit n = false := by
      obtain ⟨-, chosen, rfl, decision⟩ := ownMembers_ok listed
      obtain ⟨member, holds⟩ := List.mem_filter.mp own
      exact ⟨member, ((decision n member).mp holds).1⟩
    have unknown := (mem_ownMembers wf (opening_packaged unit s) isUnit listed among.1 among.2).mp own
    exact nameType_within wf (specified.closed n (specified.members n among.1 among.2 unknown) r refers)
  intro n among
  split at among
  · next interface =>
    rcases List.mem_cons.mp among with rfl | member
    · intro r refers
      rw [declarationRefs_of_interface interface] at refers
      cases refers
    · exact ofMember n member
  · exact ofMember n among

theorem until_children {declared : List Nat} {bodies codecs : List Artifact} {bodied : Session}
    (first : packageBody ctx unit name s = .ok bodies bodied)
    (second : marshalling ctx unit name declared bodied = .ok codecs s') :
    (∀ a ∈ bodies ++ codecs, a.Within undeclaring) ∧ Within ctx unit undeclaring s.trace.cleared s' ∧
      s'.trace.busy = [] := by
  have wf := inherits.wellFormed
  have carries : Carries ctx unit (confined ctx unit) := confined_carries inherits
  obtain ⟨bodiesWithin, bodiedWithin⟩ := packageBody_within wf (.since (opening_packaged unit s) nofun)
    (specified.body_names inherits isUnit) first
  obtain ⟨codecsWithin, codedWithin⟩ := marshalling_within wf bodiedWithin (fun _ _ => nofun) (fun _ _ => nofun)
    (fun _ _ => nofun) second
  obtain ⟨packagedBodied, ⟨idleBodied, -⟩, -⟩ :=
    (packageBody_follows carries isUnit name).ok specified.packaged first
  obtain ⟨-, ⟨idleCoded, -⟩, -⟩ :=
    (marshalling_follows carries name fun n _ => confined_tolerates.fits).ok packagedBodied second
  refine ⟨fun a listed => ?_, codedWithin, idleCoded.trans (idleBodied.trans specified.idle)⟩
  exact (List.mem_append.mp listed).elim (bodiesWithin a) (codecsWithin a)

end Specified

/-! ## The children of an interface -/

theorem interface_of_operation (wf : ctx.tree.WellFormed) {o : Nat} (listed : o ∈ operationsOf ctx unit) :
    isInterface ctx unit = true := by
  obtain ⟨member, kind⟩ := List.mem_filter.mp listed
  obtain ⟨outer, node, around, found, -, held⟩ := wf.member_inside member
  rw [isInterface, Tree.hasKind_eq around]
  rw [Tree.hasKind_eq found] at kind
  cases inner : node.kind <;> cases shape : outer.kind <;> simp_all [Kind.mayHold]

def anything (_ : Part) (_ : Nat) : Prop := True

/-- What an operation refers to is declared among the proxies if it is not declared yet, and waits from then on. -/
theorem proxies_declare (inherits : Inherits ctx) (idle : s.trace.busy = []) {o r : Nat}
    (listed : o ∈ operationsOf ctx unit) (refers : r ∈ ctx.tree.declarationRefs o)
    (isLocal : ctx.isLocal unit r = true) (missing : r ∉ s.trace.defined)
    (done : proxies ctx unit name s = .ok artifacts s') :
    (∃ a ∈ artifacts, r ∈ a.declares) ∧ ∃ before, r ∈ before.declared ∧ Within ctx unit anything before s' := by
  have wf := inherits.wellFormed
  rcases proxies_ok done with ⟨none, -⟩ | ⟨parts, described, spec, between, bodies, written, body, first, made,
    second, madeBody, rfl⟩
  · rw [none] at listed
    cases listed
  have allows (allowed : Nat → Prop) : Allows ctx (writing ctx .declaration unit allowed) :=
    writing_tolerates.inherits inherits
  have each : ∀ n ∈ operationsOf ctx unit, (descriptors ctx n).Follows
      (writing ctx .declaration unit fun _ => True) (ctx.tree.declarationRefs n) := fun n _ =>
    descriptors_settle (allows _) writing_tolerates.fits fun r _ =>
      nameWithin_writes wf allows (fun _ _ _ _ _ => trivial) _ r fun _ => trivial
  obtain ⟨packaged, ⟨new, writes⟩, settled⟩ :=
    (Follows.mapM writing_lawful each).ok (opening_packaged unit s) first
  have isNew : r ∈ new := by
    have settledRef := settled r (List.mem_flatMap.mpr ⟨o, listed, refers⟩) (ctx.expects_of_isLocal _ isLocal)
    rw [writes.mem_done, writes.busy_eq] at settledRef
    rcases settledRef with (now | early) | busy
    · exact now
    · exact absurd early missing
    · rw [show (opening ctx unit s).trace.busy = [] from idle] at busy
      cases busy
  have waits : r ∈ described.trace.declared := by
    rw [writes.declared_eq]
    exact List.mem_append_right _ (List.mem_filter.mpr ⟨isNew, awaitsMarshalling_of_isLocal isLocal⟩)
  have stands : (Part.declaration, r) ∈ described.trace.parts := by
    rw [writes.parts_eq]
    exact List.mem_append_right _ (List.mem_map_of_mem isNew)
  have types : ∀ n ∈ operationsOf ctx unit, NamesWithin ctx unit anything described.trace n :=
    fun _ _ r _ => nameWithin_within wf (fun _ _ => trivial) _ r
  have describedWithin : Within ctx unit anything described.trace described := .since packaged fun _ _ => trivial
  have betweenWithin := (package_within wf describedWithin (fun _ _ => trivial) made).2
  have lastWithin := (proxiesBody_within wf types betweenWithin (fun _ _ => trivial) second madeBody).2
  refine ⟨⟨spec, List.mem_cons_self, ?_⟩, described.trace, waits, lastWithin⟩
  obtain ⟨clauses, -, rfl⟩ := package_ok made
  rw [Artifact.mem_declares, Artifact.items, List.filterMap_append, List.filterMap_append]
  exact List.mem_append_left _ (List.mem_append_left _ stands)

theorem children_declare (inherits : Inherits ctx) (idle : s.trace.busy = []) {o r : Nat}
    (listed : o ∈ operationsOf ctx unit) (refers : r ∈ ctx.tree.declarationRefs o)
    (isLocal : ctx.isLocal unit r = true) (missing : r ∉ s.trace.defined)
    (done : children ctx unit name s = .ok artifacts s') :
    (∃ a ∈ artifacts, r ∈ a.declares) ∧ r ∈ s'.trace.declared := by
  have wf := inherits.wellFormed
  rw [children, if_pos (interface_of_operation wf listed)] at done
  obtain ⟨stubs, stubbed, servants, served, dispatcher, first, second, third, rfl⟩ := interfaceChildren_ok done
  obtain ⟨⟨a, among, declares⟩, before, waits, stubbedWithin⟩ :=
    proxies_declare inherits idle listed refers isLocal missing first
  have types : ∀ n ∈ operationsOf ctx unit, NamesWithin ctx unit anything before n :=
    fun _ _ r _ => nameWithin_within wf (fun _ _ => trivial) _ r
  have servedWithin := (implementation_within wf types stubbedWithin second).2
  have lastWithin := (skeleton_within servedWithin third).2
  refine ⟨⟨a, ?_, declares⟩, lastWithin.keptDeclared r waits⟩
  exact List.mem_append_left _ (List.mem_append_left _ among)

/-! ## Units -/

/-- A unit before the children of its interface are written: `known` has been declared, as far as it is of the
unit in the specification, and nothing since. -/
structure Halfway (ctx : Context) (output : UnitOutput) (known : Trace) (coded : Session) (rest : List Artifact)
    (after : Session) : Prop where
  idle : coded.trace.busy = []
  taken : known.declared = []
  within : Within ctx output.node undeclaring known coded
  specifies : ∀ r, ctx.isLocal output.node r = true → (output.Specifies r ↔ r ∈ known.defined)
  operations : ∀ o ∈ operationsOf ctx output.node, o ∉ ctx.settings.imports → ∀ r ∈ ctx.tree.declarationRefs o,
    ctx.isLocal output.node r = true → r ∈ known.defined
  run : children ctx output.node output.name coded = .ok rest after
  others : ∀ a ∈ output.artifacts, a.kind ≠ .spec → a ∈ rest ∨ a.Within undeclaring
  children : ∀ a ∈ rest, a ∈ output.artifacts ∧ a.kind ≠ .spec

theorem Turn.halfway {middle after : Session} {earlier : List Nat} {made : List UnitOutput} {output : UnitOutput}
    (inherits : Inherits ctx) (turn : Turn ctx s earlier made output middle after) :
    ∃ known coded rest, Halfway ctx output known coded rest after := by
  obtain ⟨named, specs, declared, specifiedAt, bodies, bodied, codecs, coded, rest, first, second, third, fourth,
    fifth, -, all⟩ := generateUnit_ok (generateUnit_opening turn.generated)
  obtain ⟨names, rfl⟩ := withNames_run first
  obtain ⟨new, specified⟩ := specification_specified (s := { opening ctx output.node middle with names }) inherits
    turn.isUnit (opening_packaged output.node middle) turn.idle turn.fresh second
  obtain ⟨silent, codedWithin, idle⟩ := specified.until_children inherits turn.isUnit third fourth
  have isSpec : ∀ a ∈ specs, a.kind = .spec := by
    obtain ⟨_, _, _, -, -, -, -, packed⟩ := specification_ok second
    exact packed.kind_eq
  have place : ∀ a ∈ output.artifacts, a ∈ specs ∨ (a ∈ bodies ++ codecs ∨ a ∈ rest) ∧ a.kind ≠ .spec := by
    intro a listed
    rw [all] at listed
    simp only [List.mem_append] at listed ⊢
    rcases listed with ((spec | body) | codec) | other
    · exact .inl spec
    · exact .inr ⟨.inl (.inl body), packageBody_kind_ne third a body⟩
    · exact .inr ⟨.inl (.inr codec), marshalling_kind_ne fourth a codec⟩
    · exact .inr ⟨.inr other, children_kind_ne fifth a other⟩
  refine ⟨specifiedAt.trace.cleared, coded, rest, idle, specified.taken, codedWithin, ?_, ?_, fifth, ?_, ?_⟩
  · intro r isLocal
    refine Iff.trans ?_ (specified.declares.trans (specified.defined (Tree.packageOf_of_isLocal isLocal)).symm)
    constructor
    · rintro ⟨a, listed, kind, declares⟩
      exact ⟨a, (place a listed).resolve_right fun later => later.2 kind, declares⟩
    · rintro ⟨a, spec, declares⟩
      exact ⟨a, by simp [all, spec], isSpec a spec, declares⟩
  · intro o listed unknown r refers isLocal
    obtain ⟨member, inner⟩ := member_of_operation listed
    exact specified.closed o (specified.members o member inner unknown) r refers isLocal
  · intro a listed kind
    rcases place a listed with spec | ⟨early | other, -⟩
    · exact absurd (isSpec a spec) kind
    · exact .inr (silent a early)
    · exact .inl other
  · intro a other
    exact ⟨by simp [all, other], children_kind_ne fifth a other⟩

namespace Halfway

variable {output : UnitOutput} {known : Trace} {coded after : Session} {rest : List Artifact}
  (halfway : Halfway ctx output known coded rest after) (inherits : Inherits ctx)
include halfway

theorem supplied_iff : ctx.Supplied output ↔ ∀ o ∈ operationsOf ctx output.node, ∀ r ∈ ctx.tree.declarationRefs o,
    ctx.isLocal output.node r = true → r ∈ known.defined := by
  refine forall₂_congr fun o listed => ⟨fun supplied r refers isLocal => ?_, fun defined _ r refers isLocal => ?_⟩
  -- The operations that the specification does not leave out are supplied by it anyway.
  · by_cases imported : o ∈ ctx.settings.imports
    · exact (halfway.specifies r isLocal).mp (supplied imported r refers isLocal)
    · exact halfway.operations o listed imported r refers isLocal
  · exact (halfway.specifies r isLocal).mpr (defined r refers isLocal)

include inherits

theorem silent (supplied : ctx.Supplied output) :
    (∀ a ∈ output.artifacts, a.kind ≠ .spec → a.declares = []) ∧ after.declared = [] := by
  have wf := inherits.wellFormed
  have types : ∀ n ∈ operationsOf ctx output.node, NamesWithin ctx output.node undeclaring known n :=
    fun o listed r refers => nameType_within wf (halfway.supplied_iff.mp supplied o listed r refers)
  obtain ⟨restWithin, lastWithin⟩ := children_within wf types halfway.within (fun _ _ => nofun) halfway.run
  constructor
  · intro a listed kind
    exact ((halfway.others a listed kind).elim (restWithin a) id).declares_eq
  · refine List.eq_nil_iff_forall_not_mem.mpr fun n listed => ?_
    rcases lastWithin.declared n listed with early | allowed
    · rw [halfway.taken] at early
      cases early
    · exact allowed rfl

theorem leaks (unsupplied : ¬ ctx.Supplied output) :
    (∃ a ∈ output.artifacts, a.kind ≠ .spec ∧ a.declares ≠ []) ∧ after.declared ≠ [] := by
  obtain ⟨o, listed, r, refers, isLocal, missing⟩ : ∃ o ∈ operationsOf ctx output.node,
      ∃ r ∈ ctx.tree.declarationRefs o, ctx.isLocal output.node r = true ∧ r ∉ known.defined := by
    simpa using mt halfway.supplied_iff.mpr unsupplied
  have undeclared : r ∉ coded.trace.defined := fun defined =>
    (halfway.within.defined r defined).elim missing fun allowed => allowed rfl
  obtain ⟨⟨a, other, declares⟩, waits⟩ :=
    children_declare inherits halfway.idle listed refers isLocal undeclared halfway.run
  obtain ⟨among, kind⟩ := halfway.children a other
  exact ⟨⟨a, among, kind, List.ne_nil_of_mem declares⟩, List.ne_nil_of_mem waits⟩

end Halfway

theorem Turn.supplied_iff {middle after : Session} {earlier : List Nat} {made : List UnitOutput}
    {output : UnitOutput} (inherits : Inherits ctx) (turn : Turn ctx s earlier made output middle after) :
    ((∀ a ∈ output.artifacts, a.kind ≠ .spec → a.declares = []) ↔ ctx.Supplied output) ∧
      (after.declared = [] ↔ ctx.Supplied output) := by
  obtain ⟨known, coded, rest, halfway⟩ := turn.halfway inherits
  by_cases supplied : ctx.Supplied output
  · obtain ⟨silent, none⟩ := halfway.silent inherits supplied
    exact ⟨iff_of_true silent supplied, iff_of_true none supplied⟩
  · obtain ⟨⟨a, among, kind, declares⟩, waits⟩ := halfway.leaks inherits supplied
    exact ⟨iff_of_false (fun silent => declares (silent a among kind)) supplied, iff_of_false waits supplied⟩

end Emit

open Emit

/-- Declarations stand in the specification of a unit only, exactly if the specification supplies the operations
that are configured to exist already. No type waits for a later unit after any of the units, exactly if that is so
for all of them. -/
theorem declared_in_specifications_iff_supplied (script : List Step) (settings : Settings)
    (outputs : List UnitOutput)
    (bases : ∀ id ∈ (Tree.ofSteps script).ids, ∀ kind ∈ (Tree.ofSteps script).kind? id,
      ∀ base ∈ kind.firstBase?, isInterface ⟨.ofSteps script, settings⟩ base = true)
    (done : generate ⟨.ofSteps script, settings⟩ = .ok outputs) :
    let ctx : Context := ⟨.ofSteps script, settings⟩
    (∀ output ∈ outputs, (∀ a ∈ output.artifacts, a.kind ≠ .spec → a.declares = []) ↔ ctx.Supplied output) ∧
      ((∀ earlier later, ctx.tree.units Tree.root = earlier ++ later →
          ∃ made s, earlier.mapM (generateUnit ctx) Session.start = .ok made s ∧ s.declared = []) ↔
        ∀ output ∈ outputs, ctx.Supplied output) := by
  intro ctx
  have wf : ctx.tree.WellFormed := Tree.ofSteps_wellFormed script
  have inherits : Inherits ctx :=
    ⟨wf, fun {node base others} found => bases node (Tree.mem_ids_of_kind? found) _ found base rfl⟩
  have areUnits : ∀ u ∈ ctx.tree.units Tree.root, ctx.tree.hasKind Kind.isUnit u = true :=
    fun u listed => Tree.isUnit_of_mem_units wf.isUnit_root listed
  have distinct := wf.units_nodup Tree.root
  have fresh : ∀ n ∈ Session.start.trace.defined, ctx.tree.packageOf n ∉ ctx.tree.units Tree.root := nofun
  obtain ⟨all, last, each, rfl⟩ := generate_ok done
  refine ⟨fun output listed => ?_, fun empty output listed => ?_, fun supplied earlier later split => ?_⟩
  · obtain ⟨_, _, _, _, _, -, turn⟩ :=
      exists_turn_of_mem inherits distinct areUnits rfl fresh each (List.mem_filter.mp listed).1
    exact (turn.supplied_iff inherits).1
  · obtain ⟨earlier, later, made, middle, after, split, turn⟩ :=
      exists_turn_of_mem inherits distinct areUnits rfl fresh each (List.mem_filter.mp listed).1
    obtain ⟨_, s, run, none⟩ := empty (earlier ++ [output.node]) later (by simpa using split)
    cases turn.through.symm.trans run
    exact (turn.supplied_iff inherits).2.mp none
  · rcases List.eq_nil_or_concat' earlier with rfl | ⟨front, unit, rfl⟩
    · exact ⟨[], .start, rfl, rfl⟩
    · rw [List.append_assoc] at split
      obtain ⟨made, output, rest, middle, after, rfl, rfl, turn⟩ :=
        exists_turn inherits distinct areUnits rfl fresh each split
      refine ⟨_, after, turn.through, (turn.supplied_iff inherits).2.mpr ?_⟩
      -- A unit without artifacts is left out of the outputs, and has no declaration anywhere.
      cases shape : output.artifacts with
      | nil => exact (turn.supplied_iff inherits).1.mp (by simp [shape])
      | cons a artifacts => exact supplied output (by simp [shape])

/-- An interface with two operations that return the same sequence, and a module with a structure. -/
def sharedResult : List Step :=
  [.interface 0 "I" [], .primitive .long, .sequence 1 2 none, .operation 1 "first" (some 3) false [],
    .operation 1 "second" (some 3) false [], .module 0 "M", .struct 6 "S"]

/-- One of the operations is enough to have the sequence declared where it belongs. -/
theorem shared_result_declared_in_specification :
    let ctx : Context := ⟨.ofSteps sharedResult, { imports := [4] }⟩
    ∃ outputs, generate ctx = .ok outputs ∧
      (∀ output ∈ outputs, ∀ a ∈ output.artifacts, a.kind ≠ .spec → a.declares = []) ∧
      ∀ earlier later, ctx.tree.units Tree.root = earlier ++ later →
        ∃ made s, earlier.mapM (generateUnit ctx) Session.start = .ok made s ∧ s.declared = [] := by
  intro ctx
  have made : ∃ outputs, generate ctx = .ok outputs ∧ ∀ output ∈ outputs, ctx.Supplied output := by
    apply exists_outputs
    decide +kernel
  obtain ⟨outputs, done, supplied⟩ := made
  obtain ⟨each, whole⟩ :=
    declared_in_specifications_iff_supplied sharedResult { imports := [4] } outputs (by decide +kernel) done
  exact ⟨outputs, done, fun output listed => (each output listed).mpr (supplied output listed), whole.mpr supplied⟩

/-- If both operations exist already, the sequence is declared among the proxies, and marshalled with the module. -/
theorem known_result_declared_among_proxies :
    ∃ outputs, generate ⟨.ofSteps sharedResult, { imports := [4, 5] }⟩ = .ok outputs ∧
      sites outputs .declaration 3 = [(1, .proxiesSpec)] ∧ sites outputs .profiles 3 = [(6, .marshalSpec)] := by
  apply exists_outputs
  decide +kernel

end AdaStubs
