import AdaStubs.Proofs.Generation.Standing

/-!
# What may be written

An invariant for the artifacts of a unit: only what is allowed has been written so far, part by part. It rests
on nothing that is recorded on the way but what the unit was told to exist, and holds for any inheritance.
-/

namespace AdaStubs

open Ada Run

namespace Dependencies

/-- What was recorded is recorded still. -/
structure Grows (d d' : Dependencies) : Prop where
  unit_eq : d'.unit = d.unit
  recorded : ∀ {a : Aspect} {e}, e ∈ a.recorded d → e ∈ a.recorded d'

variable {d d' d'' : Dependencies}

theorem Grows.of_same (unit_eq : d'.unit = d.unit) (same : ∀ a : Aspect, a.recorded d' = a.recorded d) :
    Grows d d' :=
  ⟨unit_eq, fun {a} _ listed => (same a).symm ▸ listed⟩

theorem Grows.record (d : Dependencies) (package : Nat) : Grows d (d.record package) :=
  ⟨rfl, fun listed => mem_recorded_record.mpr (.inl listed)⟩

theorem Grows.recordPackage (d : Dependencies) (a : Aspect) (package : Nat) :
    Grows d (a.recordPackage d package) := by
  cases a with
  | declaration => exact .record d package
  | marshalling =>
    refine ⟨rfl, fun listed => mem_recorded_recordMarshal.mpr (.inl ?_)⟩
    exact (Grows.record d package).recorded listed

theorem Grows.setRuntime (d : Dependencies) (packages : List RuntimeImport) :
    Grows d { d with runtime := packages } :=
  .of_same rfl fun a => by cases a <;> rfl

theorem Grows.mention (grows : Grows d d') (m : Mention) : Grows d (d'.mention m) :=
  ⟨grows.unit_eq, fun {a} _ listed => by cases a <;> exact grows.recorded listed⟩

end Dependencies

namespace Emit

open Dependencies

variable {ctx : Context} {a : Aspect} {unit node : Nat} {name : String} {s s' : Session} {outside : Bool}

theorem Sighting.grows (sighting : Sighting ctx a node s outside s') : Grows s.deps s'.deps := by
  cases sighting with
  | runtime found isRuntime packages => exact .setRuntime s.deps packages
  | reached | own => exact ⟨rfl, id⟩
  | recorded => exact .recordPackage s.deps a _

/-- Only parts that are allowed stand in the artifact under way, and to the declarations made `before` only ones
that are allowed have been added. -/
structure Within (ctx : Context) (unit : Nat) (allowed : Part → Nat → Prop) (before : Trace) (s : Session) :
    Prop where
  unit_eq : s.deps.unit = unit
  told : ∀ {a : Aspect} {e}, e ∈ ctx.settings.imports → e ∈ a.recorded s.deps
  parts : ∀ p ∈ s.trace.parts, allowed p.1 p.2
  declared : ∀ n ∈ s.trace.declared, n ∈ before.declared ∨ allowed .declaration n
  defined : ∀ n ∈ s.trace.defined, n ∈ before.defined ∨ allowed .declaration n
  keptDeclared : ∀ n ∈ before.declared, n ∈ s.trace.declared
  keptDefined : ∀ n ∈ before.defined, n ∈ s.trace.defined

variable {allowed : Part → Nat → Prop} {before : Trace}

theorem Within.still (within : Within ctx unit allowed before s) (grows : Grows s.deps s'.deps)
    (same : s'.trace = s.trace) : Within ctx unit allowed before s' := by
  refine ⟨grows.unit_eq.trans within.unit_eq, fun listed => grows.recorded (within.told listed), ?_, ?_, ?_, ?_, ?_⟩ <;>
    rw [same]
  · exact within.parts
  · exact within.declared
  · exact within.defined
  · exact within.keptDeclared
  · exact within.keptDefined

theorem Within.since (packaged : ctx.Packaged unit s.deps) (parts : ∀ p ∈ s.trace.parts, allowed p.1 p.2) :
    Within ctx unit allowed s.trace s where
  unit_eq := packaged.unit_eq
  told := packaged.told
  parts := parts
  declared _ := .inl
  defined _ := .inl
  keptDeclared _ := id
  keptDefined _ := id

theorem Within.opening {other : Nat} (within : Within ctx other allowed before s) :
    Within ctx unit allowed before (opening ctx unit s) where
  unit_eq := (opening_packaged unit s).unit_eq
  told := (opening_packaged unit s).told
  parts := fun _ listed => absurd listed List.not_mem_nil
  declared := within.declared
  defined := within.defined
  keptDeclared := within.keptDeclared
  keptDefined := within.keptDefined

theorem within_follows {α : Type} {act : Emit α} (step : ∀ {s r s'}, act s = .ok r s' →
    Grows s.deps s'.deps ∧ s'.trace = s.trace) :
    act.Follows (.keeping (Within ctx unit allowed before)) [] := by
  apply Follows.keeping
  intro s r s' within done
  obtain ⟨grows, same⟩ := step done
  exact within.still grows same

theorem within_names (act : NameTable.Lookup String) :
    (withNames act).Follows (.keeping (Within ctx unit allowed before)) [] := by
  apply within_follows
  intro s r s' done
  obtain ⟨names, rfl⟩ := withNames_run done
  exact ⟨⟨rfl, id⟩, rfl⟩

theorem within_runtime (package : String) (isUsed : Bool) :
    (updateDeps fun d => { d with runtime := addRuntime package isUsed d.runtime }).Follows
      (.keeping (Within ctx unit allowed before)) [] := by
  apply within_follows
  intro s _ s' done
  cases done
  exact ⟨.setRuntime _ _, rfl⟩

theorem within_allows (wf : ctx.tree.WellFormed) : Allows ctx (.keeping (Within ctx unit allowed before)) := by
  constructor
  case lawful => exact Conduct.keeping_lawful _
  case wellFormed => exact wf
  case localNames => exact fun _ => within_names _
  case fullNames => exact fun _ => within_names _
  case requires => exact fun package => within_runtime package false
  case uses => exact fun package => within_runtime package true
  case bounds => exact fun _ _ => trivial
  case sizes =>
    intro node dims element found
    apply within_follows
    intro s fixed s' done
    obtain ⟨sizes, rfl⟩ := isFixedSize_run done
    exact ⟨⟨rfl, id⟩, rfl⟩
  case enumerators =>
    intro node kind e found listed
    apply within_follows
    intro s name s' done
    obtain ⟨outside, seen, sighting, rest⟩ := enumeratorName_run done
    rcases rest with ⟨-, short⟩ | ⟨-, named, full, rfl⟩
    · obtain ⟨names, rfl⟩ := withNames_run short
      exact ⟨sighting.grows, sighting.trace⟩
    · obtain ⟨names, rfl⟩ := withNames_run full
      exact ⟨sighting.grows.mention _, sighting.trace⟩
  case bases =>
    intro node kind base _ found first
    refine ⟨?_, within_names _⟩
    apply within_follows
    intro s _ s' done
    cases done
    exact ⟨.record _ _, rfl⟩

/-! ## References -/

theorem item_part {resolve : Nat → Emit String} :
    (a.item ctx resolve node).Returns fun items => ∀ p ∈ items.filterMap Item.part?, p = (a.part, node) := by
  unfold Aspect.item
  cases a with
  | declaration =>
    refine Returns.bind fun declared => Returns.pure ?_
    cases declared <;> simp [Item.part?, Aspect.part]
  | marshalling =>
    refine Returns.bind fun codec => Returns.pure ?_
    cases codec <;> simp [Item.part?, Aspect.part]

theorem marshalProfiles_part (node : Nat) : (marshalProfiles ctx node).Returns fun items =>
    ∀ p ∈ items.filterMap Item.part?, p = (.profiles, node) := by
  unfold marshalProfiles
  refine Returns.bind fun kind => ?_
  cases kind with
  | branch | enumerator | argument | field => exact Returns.throw
  | module | constant | «attribute» | operation | primitive => exact Returns.pure (by simp)
  | _ =>
    repeat refine Returns.bind fun _ => ?_
    exact Returns.pure (by simp [Item.part?])

theorem Within.hoist (within : Within ctx unit allowed before s) {items : List Item}
    (parts : ∀ p ∈ items.filterMap Item.part?, allowed p.1 p.2) :
    Within ctx unit allowed before { s with hoisted := s.hoisted ++ items } := by
  refine { within with parts := ?_ }
  intro p listed
  rw [Session.trace, List.filterMap_append] at listed
  rcases List.mem_append.mp listed with earlier | added
  · exact within.parts p earlier
  · exact parts p added

theorem place_within {act : Emit (List Item)} {nodes : List Nat}
    (follows : act.Follows (.keeping (Within ctx unit allowed before)) nodes)
    (parts : act.Returns fun items => ∀ p ∈ items.filterMap Item.part?, allowed p.1 p.2) :
    (place act).Follows (.keeping (Within ctx unit allowed before)) [] := by
  apply Follows.keeping
  intro s _ s' within done
  obtain ⟨items, written, run, rfl⟩ := place_ok done
  exact (follows.ok within run).1.hoist (parts items ⟨_, _, run⟩)

theorem Within.finish (within : Within ctx unit allowed before s) (permitted : allowed a.part node) :
    Within ctx unit allowed before { s with
      progress := a.markDone (s.progress.leave node) node,
      declared := s.declared ++ if awaitsMarshalling ctx a node then [node] else [] } := by
  refine ⟨within.unit_eq, within.told, within.parts, ?_, ?_, ?_, ?_⟩
  · intro n listed
    rcases List.mem_append.mp listed with earlier | added
    · exact within.declared n earlier
    · split at added
      · next awaits =>
        simp only [awaitsMarshalling, Bool.and_eq_true, decide_eq_true_eq] at awaits
        rw [awaits.1] at permitted
        rw [List.mem_singleton.mp added]
        exact .inr permitted
      · cases added
  · intro n listed
    cases a with
    | declaration =>
      rcases List.mem_insert_iff.mp listed with rfl | earlier
      · exact .inr permitted
      · exact within.defined n earlier
    | marshalling => exact within.defined n listed
  · exact fun n listed => List.mem_append_left _ (within.keptDeclared n listed)
  · intro n listed
    cases a with
    | declaration => exact List.mem_insert_of_mem (within.keptDefined n listed)
    | marshalling => exact within.keptDefined n listed

theorem place_produce_within (wf : ctx.tree.WellFormed) {resolve : Nat → Emit String}
    (permitted : allowed a.part node)
    (refs : ∀ r ∈ a.refs ctx.tree node, (resolve r).Follows (.keeping (Within ctx unit allowed before)) [r]) :
    (place (produce ctx a resolve node)).Follows (.keeping (Within ctx unit allowed before)) [] := by
  have item := item_follows (within_allows wf) fits_keeping trivial refs
  apply Follows.keeping
  intro s _ s' within done
  obtain ⟨items, written, run, rfl⟩ := place_ok done
  rcases produce_ok run with ⟨-, rfl, rfl⟩ | ⟨-, -, inner, inside, rfl⟩
  · exact within.hoist (by simp)
  · have entered : Within ctx unit allowed before { s with progress := s.progress.enter node } :=
      { within with }
    refine ((item.ok entered inside).1.finish permitted).hoist fun p listed => ?_
    rw [item_part items ⟨_, _, inside⟩ p listed]
    exact permitted

/-- Nothing that the unit was told of is on the way to what it finds to be its own. -/
theorem Within.isLocal (within : Within ctx unit allowed before s) (wf : ctx.tree.WellFormed)
    (isType : ctx.tree.hasKind Kind.isType node = true) (sighting : Sighting ctx a node s false s') :
    s' = s ∧ ctx.isLocal unit node = true := by
  cases sighting with
  | own found ordinary unreached home =>
    rw [within.unit_eq] at unreached home
    obtain ⟨present, lookup, typed⟩ := Tree.exists_of_hasKind isType
    cases found.symm.trans (Tree.kind?_eq lookup)
    refine ⟨rfl, Tree.isLocal_iff.mpr ⟨?_, Tree.isOutside_eq_false.mpr ⟨home, ?_⟩⟩⟩
    · rw [Tree.hasKind_eq lookup, typed, ordinary]
      rfl
    · intro scope onPath listed
      rw [← wf.outerPath_eq home] at onPath
      exact unreached (.inr ⟨scope, onPath, within.told listed⟩)

theorem nameWithin_within (wf : ctx.tree.WellFormed)
    (permits : ∀ n, ctx.isLocal unit n = true → allowed a.part n) (depth node : Nat) :
    (nameWithin ctx a depth node).Follows (.keeping (Within ctx unit allowed before)) [node] := by
  induction depth generalizing node with
  | zero => exact .throw (Conduct.keeping_lawful _) trivial
  | succ depth ih =>
    apply Follows.keeping
    intro s name s' within done
    obtain ⟨isType, outside, seen, sighting, rest⟩ := refer_run done
    rcases rest with ⟨rfl, named⟩ | ⟨rfl, placed, written, named⟩
    · obtain ⟨names, rfl⟩ := externalName_run named
      refine within.still (sighting.grows.mention _) ?_
      rw [← sighting.trace]
      cases a <;> rfl
    · obtain ⟨rfl, isLocal⟩ := within.isLocal wf isType sighting
      have kept := ((place_produce_within wf (permits node isLocal) fun r _ => ih r).ok within written).1
      obtain ⟨names, rfl⟩ := typeName_run named
      exact kept.still ⟨rfl, id⟩ rfl

theorem nameType_within (wf : ctx.tree.WellFormed) (settled : ctx.isLocal unit node = true → node ∈ before.defined) :
    (nameType ctx node).Follows (.keeping (Within ctx unit allowed before)) [node] := by
  apply Follows.keeping
  intro s name s' within done
  obtain ⟨isType, outside, seen, sighting, rest⟩ := refer_run done
  rcases rest with ⟨rfl, named⟩ | ⟨rfl, placed, written, named⟩
  · obtain ⟨names, rfl⟩ := externalName_run named
    exact within.still (sighting.grows.mention _) sighting.trace
  · obtain ⟨rfl, isLocal⟩ := within.isLocal wf isType sighting
    have known := within.keptDefined node (settled isLocal)
    obtain ⟨names, rfl⟩ := typeName_run named
    obtain ⟨items, after, run, rfl⟩ := place_ok written
    rcases produce_ok run with ⟨-, rfl, rfl⟩ | ⟨fresh, -⟩
    · exact (within.hoist (by simp)).still ⟨rfl, id⟩ rfl
    · have isDone : Aspect.declaration.isDone seen.progress node = true := isDone_iff.mpr known
      simp [fresh] at isDone

end Emit

/-! ## Artifacts -/

def Artifact.Within (allowed : Part → Nat → Prop) (a : Artifact) : Prop :=
  ∀ p ∈ a.items.filterMap Item.part?, allowed p.1 p.2

namespace Emit

open Dependencies

variable {ctx : Context} {unit : Nat} {name : String} {s s' : Session} {allowed : Part → Nat → Prop}
  {before : Trace} {artifacts : List Artifact} (wf : ctx.tree.WellFormed)
include wf

theorem package_within {kind : ArtifactKind} {items hidden : List Item} {artifact : Artifact}
    (within : Within ctx unit allowed before s)
    (parts : ∀ p ∈ (items ++ hidden).filterMap Item.part?, allowed p.1 p.2)
    (done : package ctx kind name items hidden s = .ok artifact s') :
    artifact.Within allowed ∧ Within ctx unit allowed before s' := by
  obtain ⟨clauses, made, rfl⟩ := package_ok done
  have allows : Allows ctx (.keeping (Within ctx unit allowed before)) := within_allows wf
  have follows := contextClauses_follows allows.lawful allows.wellFormed allows.unitNames name (kind.unitName name) fun _ _ _ _ => fits_keeping
  exact ⟨parts, (follows.ok within made).1⟩

theorem Packed.within {kind : ArtifactKind} {filled : Session} (within : Within ctx unit allowed before filled)
    (packed : Packed ctx kind name filled artifacts s') :
    (∀ a ∈ artifacts, a.Within allowed) ∧ Within ctx unit allowed before s' := by
  rcases packed with ⟨rfl, -, rfl⟩ | ⟨artifact, rfl, made⟩
  · exact ⟨by simp, within⟩
  · have parts : ∀ p ∈ (filled.hoisted ++ []).filterMap Item.part?, allowed p.1 p.2 := by
      rw [List.append_nil]
      exact within.parts
    obtain ⟨inside, kept⟩ := package_within wf within parts made
    exact ⟨by simpa using inside, kept⟩

theorem package_stubs_within {kind : ArtifactKind} {items hidden : List Item} {artifact : Artifact}
    (within : Within ctx unit allowed before s) (stubs : items.filterMap Item.part? = [])
    (hiddenStubs : hidden.filterMap Item.part? = [])
    (done : package ctx kind name (s.hoisted ++ items) hidden s = .ok artifact s') :
    artifact.Within allowed ∧ Within ctx unit allowed before s' := by
  refine package_within wf within ?_ done
  rw [List.filterMap_append, List.filterMap_append, stubs, hiddenStubs, List.append_nil, List.append_nil]
  exact within.parts

omit wf in
theorem placeAll_within {write : Nat → Emit (List Item)} {nodes : List Nat}
    (each : ∀ n ∈ nodes, (place (write n)).Follows (.keeping (Within ctx unit allowed before)) []) :
    (placeAll write nodes).Follows (.keeping (Within ctx unit allowed before)) [] :=
  (Follows.forM (Conduct.keeping_lawful _) each).weaken (by simp)

omit wf in
theorem mapM_within {α : Type} {write : Nat → Emit α} {nodes : List Nat}
    (each : ∀ n ∈ nodes, (write n).Follows (.keeping (Within ctx unit allowed before)) []) :
    (nodes.mapM write).Follows (.keeping (Within ctx unit allowed before)) [] :=
  (Follows.mapM (Conduct.keeping_lawful _) each).weaken (by simp)

/-- The types that a declaration refers to are named without anything being written that is not allowed. -/
def NamesWithin (ctx : Context) (unit : Nat) (allowed : Part → Nat → Prop) (before : Trace) (n : Nat) : Prop :=
  ∀ r ∈ ctx.tree.declarationRefs n, (nameType ctx r).Follows (.keeping (Within ctx unit allowed before)) [r]

theorem packageBody_within (within : Within ctx unit allowed before (opening ctx unit s))
    (types : ∀ {members}, ownMembers ctx unit (opening ctx unit s) = .ok members (opening ctx unit s) →
      ∀ n ∈ if isInterface ctx unit then unit :: members else members, NamesWithin ctx unit allowed before n)
    (done : packageBody ctx unit name s = .ok artifacts s') :
    (∀ a ∈ artifacts, a.Within allowed) ∧ Within ctx unit allowed before s' := by
  obtain ⟨members, filled, listed, written, packed⟩ := packageBody_ok done
  refine packed.within wf (((placeAll_within fun n among => ?_).ok within written).1)
  refine place_within (body_follows (within_allows wf) fits_keeping (types listed n among)) fun items given => ?_
  simp [body_parts n items given]

theorem marshalling_within {declared : List Nat} (within : Within ctx unit allowed before s)
    (profiles : ∀ n ∈ declared, allowed .profiles n) (codecs : ∀ n ∈ declared, allowed .codec n)
    (permits : ∀ n, ctx.isLocal unit n = true → allowed .codec n)
    (done : marshalling ctx unit name declared s = .ok artifacts s') :
    (∀ a ∈ artifacts, a.Within allowed) ∧ Within ctx unit allowed before s' := by
  obtain ⟨profiled, specs, between, coded, bodies, written, packed, encoded, packedBodies, rfl⟩ :=
    marshalling_ok done
  have profiledWithin : Within ctx unit allowed before profiled := by
    refine ((placeAll_within fun n listed => ?_).ok within.opening written).1
    refine place_within (marshalProfiles_follows (within_allows wf) fits_keeping) fun items given p among => ?_
    rw [marshalProfiles_part n items given p among]
    exact profiles n listed
  obtain ⟨specsWithin, betweenWithin⟩ := packed.within wf profiledWithin
  have codedWithin : Within ctx unit allowed before coded := by
    refine ((placeAll_within fun n listed => ?_).ok betweenWithin.opening encoded).1
    exact place_produce_within wf (codecs n listed) fun r _ => nameWithin_within wf permits _ r
  obtain ⟨bodiesWithin, lastWithin⟩ := packedBodies.within wf codedWithin
  refine ⟨fun a listed => ?_, lastWithin⟩
  rcases List.mem_append.mp listed with spec | body
  · exact specsWithin a spec
  · exact bodiesWithin a body

section Children

variable (types : ∀ n ∈ operationsOf ctx unit, NamesWithin ctx unit allowed before n)
include types

theorem proxiesBody_within (within : Within ctx unit allowed before s)
    (permits : ∀ n, ctx.isLocal unit n = true → allowed .codec n) {bodies : List (List Item)} {written : Session}
    {body : Artifact}
    (first : (operationsOf ctx unit).mapM (descriptorBodies ctx) (opening ctx unit s) = .ok bodies written)
    (made : package ctx .proxiesBody name (written.hoisted ++ bodies.flatten) [] written = .ok body s') :
    body.Within allowed ∧ Within ctx unit allowed before s' := by
  have allows : Allows ctx (.keeping (Within ctx unit allowed before)) := within_allows wf
  have codecs : ∀ n r, r ∈ ctx.tree.declarationRefs n →
      (nameCodec ctx r).Follows (.keeping (Within ctx unit allowed before)) [r] :=
    fun _ r _ => nameWithin_within wf permits _ r
  have writtenWithin := ((mapM_within fun n listed =>
    descriptorBodies_follows allows fits_keeping (types n listed) (codecs n)).ok within.opening first).1
  exact package_stubs_within wf writtenWithin (mapM_flatten_parts descriptorBodies_parts first) rfl made

theorem proxies_within (within : Within ctx unit allowed before s)
    (permits : ∀ n, ctx.isLocal unit n = true → allowed .codec n)
    (done : proxies ctx unit name s = .ok artifacts s') :
    (∀ a ∈ artifacts, a.Within allowed) ∧ Within ctx unit allowed before s' := by
  have allows : Allows ctx (.keeping (Within ctx unit allowed before)) := within_allows wf
  rcases proxies_ok done with ⟨-, rfl, rfl⟩ | ⟨parts, described, spec, between, bodies, written, body, first, made,
    second, madeBody, rfl⟩
  · exact ⟨by simp, within⟩
  have describedWithin := ((mapM_within fun n listed =>
    descriptors_follows allows fits_keeping (types n listed)).ok within.opening first).1
  obtain ⟨specWithin, betweenWithin⟩ := package_stubs_within wf describedWithin
    (mapM_parts Prod.fst (fun n parts given => (descriptors_parts n parts given).1) first)
    (mapM_parts Prod.snd (fun n parts given => (descriptors_parts n parts given).2) first) made
  obtain ⟨bodyWithin, lastWithin⟩ := proxiesBody_within wf types betweenWithin permits second madeBody
  exact ⟨by simpa using ⟨specWithin, bodyWithin⟩, lastWithin⟩

theorem implementation_within (within : Within ctx unit allowed before s)
    (done : implementation ctx unit name s = .ok artifacts s') :
    (∀ a ∈ artifacts, a.Within allowed) ∧ Within ctx unit allowed before s' := by
  have allows : Allows ctx (.keeping (Within ctx unit allowed before)) := within_allows wf
  rcases implementation_ok done with ⟨rfl, rfl⟩ | ⟨parent, extended, declarations, served, spec, between,
    first, second, made, rest⟩
  · exact ⟨by simp, within⟩
  have extendedWithin := ((servantParent_follows allows fits_keeping trivial).ok within.opening first).1
  have servedWithin := ((mapM_within fun n listed =>
    servants_follows allows fits_keeping (types n listed)).ok extendedWithin second).1
  have specStubs : (.stub unit (.servantType parent) :: declarations.flatten).filterMap Item.part? = [] := by
    rw [List.filterMap_cons, mapM_flatten_parts servants_parts second]
    rfl
  obtain ⟨specWithin, betweenWithin⟩ := package_stubs_within wf servedWithin specStubs rfl made
  rcases rest with ⟨rfl, rfl⟩ | ⟨bodies, written, body, third, madeBody, rfl⟩
  · exact ⟨by simpa using specWithin, betweenWithin⟩
  have writtenWithin := ((mapM_within fun n listed =>
    servantBodies_follows allows fits_keeping (types n listed)).ok betweenWithin.opening third).1
  obtain ⟨bodyWithin, lastWithin⟩ := package_stubs_within wf writtenWithin
    (mapM_flatten_parts servantBodies_parts third) rfl madeBody
  exact ⟨by simpa using ⟨specWithin, bodyWithin⟩, lastWithin⟩

omit wf types in
theorem skeleton_within (within : Within ctx unit allowed before s)
    (done : skeleton ctx unit name s = .ok artifacts s') :
    (∀ a ∈ artifacts, a.Within allowed) ∧ Within ctx unit allowed before s' := by
  rcases skeleton_ok done with ⟨rfl, rfl⟩ | ⟨entries, written, rfl⟩
  · exact ⟨by simp, within⟩
  have lawful := Conduct.keeping_lawful (Within ctx unit allowed before)
  have kept := ((mapM_within fun n _ => dispatchEntries_follows lawful fits_keeping).ok within written).1
  have stubs := mapM_flatten_parts dispatchEntries_parts written
  refine ⟨fun a listed p among => ?_, kept⟩
  rw [List.mem_singleton.mp listed, Artifact.items, stubs] at among
  cases among

theorem children_within (within : Within ctx unit allowed before s)
    (permits : ∀ n, ctx.isLocal unit n = true → allowed .codec n)
    (done : children ctx unit name s = .ok artifacts s') :
    (∀ a ∈ artifacts, a.Within allowed) ∧ Within ctx unit allowed before s' := by
  unfold children at done
  split at done
  · obtain ⟨stubs, stubbed, servants, served, dispatcher, first, second, third, rfl⟩ := interfaceChildren_ok done
    obtain ⟨stubsWithin, stubbedWithin⟩ := proxies_within wf types within permits first
    obtain ⟨servantsWithin, servedWithin⟩ := implementation_within wf types stubbedWithin second
    obtain ⟨dispatcherWithin, lastWithin⟩ := skeleton_within servedWithin third
    refine ⟨fun a listed => ?_, lastWithin⟩
    simp only [List.mem_append] at listed
    rcases listed with (stub | servant) | entry
    · exact stubsWithin a stub
    · exact servantsWithin a servant
    · exact dispatcherWithin a entry
  · cases done
    exact ⟨by simp, within⟩

end Children

end Emit

end AdaStubs
