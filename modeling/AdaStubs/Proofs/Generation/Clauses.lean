import AdaStubs.Proofs.Emission.Backing
import AdaStubs.Proofs.Generation.Phases

/-!
# Context clauses

Which clauses an artifact has, and when one that is needed is missing. Main statements:

* `contextClauses_ok`: the clauses are the first ones that name each package, among those that the
  dependencies call for.
* `missing_clause_iff_shadowed`: a package whose declarations are named in full has no clause exactly if a
  scope around it was recorded in its place and nothing else calls for it.
-/

namespace AdaStubs

open Ada Run

/-- The name of the package of `node`, as a new table has it. -/
def Context.packageName? (ctx : Context) (node : Nat) : Option String :=
  (NameTable.answer ctx [] (.fullName (ctx.tree.packageOf node))).toOption

namespace Emit

/-! ## Adding clauses -/

namespace Clauses

def addAll (c : Clauses) (called : List Clause) : Clauses :=
  called.foldl (fun c clause => c.add clause.package clause.isUsed) c

theorem addAll_append (c : Clauses) (first second : List Clause) :
    c.addAll (first ++ second) = (c.addAll first).addAll second := List.foldl_append

/-- Of the clauses called for, the first one for each package is kept. -/
theorem mem_addAll {c : Clauses} {called : List Clause} {clause : Clause} :
    clause ∈ (c.addAll called).clauses ↔ clause ∈ c.clauses ∨
      clause.package ∉ c.seen ∧ called.find? (·.package == clause.package) = some clause := by
  induction called generalizing c with
  | nil => simp [addAll]
  | cons first rest ih =>
    show clause ∈ ((c.add first.package first.isUsed).addAll rest).clauses ↔ _
    rw [ih]
    by_cases known : first.package ∈ c.seen
    · have kept : c.add first.package first.isUsed = c := by simp [add, known]
      rw [kept]
      by_cases same : first.package = clause.package
      · rw [same] at known
        simp [known]
      · simp [beq_false_of_ne same]
    · have grown : c.add first.package first.isUsed =
          ⟨first.package :: c.seen, c.clauses ++ [first]⟩ := by simp [add, known]
      rw [grown]
      by_cases same : first.package = clause.package
      · have unseen : clause.package ∉ c.seen := same ▸ known
        simp [same, unseen, eq_comm]
      · have other : clause ≠ first := fun equal => same (equal ▸ rfl)
        have apart : clause.package ≠ first.package := Ne.symm same
        simp [beq_false_of_ne same, other, apart]

theorem named_addAll {seen : List String} {called : List Clause} {package : String} :
    (∃ clause ∈ (addAll ⟨seen, []⟩ called).clauses, clause.package = package) ↔
      package ∉ seen ∧ ∃ clause ∈ called, clause.package = package := by
  constructor
  · rintro ⟨clause, listed, rfl⟩
    rcases mem_addAll.mp listed with before | ⟨unseen, found⟩
    · cases before
    · exact ⟨unseen, clause, List.mem_of_find?_eq_some found, rfl⟩
  · rintro ⟨unseen, clause, listed, same⟩
    have exists_first : (called.find? (·.package == package)).isSome = true := by
      rw [List.find?_isSome]
      exact ⟨clause, listed, by simp [same]⟩
    obtain ⟨first, found⟩ := Option.isSome_iff_exists.mp exists_first
    have named : first.package = package := by simpa using List.find?_some found
    subst named
    exact ⟨first, mem_addAll.mpr (.inr ⟨unseen, found⟩), rfl⟩

end Clauses

end Emit

namespace Dependencies

/-- The clause for the package of a declaration. -/
def typeCall (ctx : Context) (entry : Nat) : List Clause :=
  match ctx.packageName? entry with
  | some name => [⟨name, false⟩]
  | none => []

/-- The clause for the marshalling of a declaration, unless it is that of the unit called `unit`. -/
def codecCall (ctx : Context) (unit : String) (entry : Nat) : List Clause :=
  match ctx.packageName? entry with
  | some owner => if owner = unit then [] else [⟨owner ++ ".Marshal", true⟩]
  | none => []

/-- The clauses that dependencies call for, in order and with repetitions. -/
def calls (ctx : Context) (unit : String) (d : Dependencies) : List Clause :=
  d.runtime.map (fun r => ⟨r.package, r.isUsed⟩) ++ d.imports.flatMap (typeCall ctx)
    ++ d.marshalImports.flatMap (codecCall ctx unit)

end Dependencies

namespace Emit

variable {ctx : Context} {s s' : Session}

/-! ## The clauses of an artifact -/

/-- The session went on asking for names, and nothing else. -/
def AskedNames (ctx : Context) (s s' : Session) : Prop :=
  ∃ names, NameTable.Rests ctx names ∧ s' = { s with names }

theorem packageName_ok (wf : ctx.tree.WellFormed) (rests : NameTable.Rests ctx s.names) {node : Nat}
    {name : String} (done : packageName ctx node s = .ok name s') :
    ctx.packageName? node = some name ∧ AskedNames ctx s s' := by
  unfold packageName at done
  obtain ⟨kind, same, known, rest⟩ := bind_eq_ok.mp done
  have unmoved : same = s := by
    cases found : ctx.tree.kind? node with
    | none =>
      rw [kindOf_of_none found] at known
      cases known
    | some kind =>
      rw [kindOf_of_kind found] at known
      cases known
      rfl
  rw [unmoved] at rest
  obtain ⟨given, asked⟩ := withNames_answers (NameTable.fullName_run wf _) rests rest
  refine ⟨?_, asked⟩
  rw [Context.packageName?, NameTable.answer_eq_result wf]
  show (NameTable.fullResult ctx _).toOption = _
  rw [given]
  rfl

theorem foldlM_addAll {step : Clauses → Nat → Emit Clauses} (called : Nat → List Clause)
    (adds : ∀ {c c' e s s'}, NameTable.Rests ctx s.names → step c e s = .ok c' s' →
      c' = c.addAll (called e) ∧ AskedNames ctx s s')
    {entries : List Nat} {c c' : Clauses} (rests : NameTable.Rests ctx s.names)
    (done : entries.foldlM step c s = .ok c' s') :
    c' = c.addAll (entries.flatMap called) ∧ AskedNames ctx s s' := by
  induction entries generalizing c s with
  | nil =>
    cases done
    exact ⟨rfl, _, rests, rfl⟩
  | cons e entries ih =>
    rw [List.foldlM_cons] at done
    obtain ⟨added, middle, first, rest⟩ := bind_eq_ok.mp done
    obtain ⟨rfl, names, kept, rfl⟩ := adds rests first
    obtain ⟨rfl, further, keptLater, rfl⟩ := ih kept rest
    exact ⟨by rw [List.flatMap_cons, Clauses.addAll_append], further, keptLater, rfl⟩

theorem contextClauses_ok (wf : ctx.tree.WellFormed) (rests : NameTable.Rests ctx s.names)
    {unit artifact : String} {clauses : List Clause}
    (done : contextClauses ctx unit artifact s = .ok clauses s') :
    clauses = (Clauses.addAll ⟨[unit, artifact], []⟩ (s.deps.calls ctx unit)).clauses ∧
      AskedNames ctx s s' := by
  have typeClause : ∀ {c c' : Clauses} {e : Nat} {s s' : Session}, NameTable.Rests ctx s.names →
      (do return c.add (← packageName ctx e) false : Emit Clauses) s = .ok c' s' →
        c' = c.addAll (Dependencies.typeCall ctx e) ∧ AskedNames ctx s s' := by
    intro c c' e s s' rests done
    obtain ⟨name, middle, first, last⟩ := bind_eq_ok.mp done
    obtain ⟨named, asked⟩ := packageName_ok wf rests first
    cases last
    exact ⟨by simp [Dependencies.typeCall, named, Clauses.addAll], asked⟩
  have codecClause : ∀ {c c' : Clauses} {e : Nat} {s s' : Session}, NameTable.Rests ctx s.names →
      marshalClause ctx unit c e s = .ok c' s' →
        c' = c.addAll (Dependencies.codecCall ctx unit e) ∧ AskedNames ctx s s' := by
    intro c c' e s s' rests done
    unfold marshalClause at done
    obtain ⟨owner, middle, first, last⟩ := bind_eq_ok.mp done
    obtain ⟨named, asked⟩ := packageName_ok wf rests first
    cases last
    refine ⟨?_, asked⟩
    by_cases own : owner = unit
    · simp [Dependencies.codecCall, named, own, Clauses.addAll]
    · simp [Dependencies.codecCall, named, own, Clauses.addAll]
  unfold contextClauses at done
  rw [bind_of_ok (get_apply s)] at done
  obtain ⟨types, middle, first, rest⟩ := bind_eq_ok.mp done
  obtain ⟨marshalling, last, second, returned⟩ := bind_eq_ok.mp rest
  cases returned
  obtain ⟨rfl, names, kept, rfl⟩ := foldlM_addAll (Dependencies.typeCall ctx) typeClause rests first
  obtain ⟨rfl, asked⟩ := foldlM_addAll (Dependencies.codecCall ctx unit) codecClause kept second
  refine ⟨?_, asked⟩
  rw [Dependencies.calls, Clauses.addAll_append, Clauses.addAll_append]
  have runtime : ∀ c : Clauses, s.deps.runtime.foldl (fun c r => c.add r.package r.isUsed) c =
      c.addAll (s.deps.runtime.map fun r => ⟨r.package, r.isUsed⟩) := by
    intro c
    rw [Clauses.addAll, List.foldl_map]
  rw [runtime]

/-! ## Artifacts are put together from sound sessions -/

variable {unit : Nat} {name : String}

theorem initialDeps_backed (t : Tree) (settings : Settings) (unit : Nat) :
    (initialDeps settings unit).Backed t unit := by
  have keeps : ∀ (imports : List Nat) (d : Dependencies), d.Backed t unit →
      (imports.foldl (fun d node => (d.record node).recordMarshal node) d).Backed t unit := by
    intro imports
    induction imports with
    | nil =>
      intro d backed
      exact backed
    | cons node imports ih =>
      intro d backed
      exact ih _ (backed.recordPackage .marshalling node)
  apply keeps
  refine ⟨rfl, ?_, ?_, ?_⟩
  · intro e listed
    cases listed
  · intro m kind listed
    cases listed
  · intro m kind listed
    cases listed

theorem opening_sound (rests : NameTable.Rests ctx s.names) : Sound ctx unit (opening ctx unit s) :=
  ⟨rests, initialDeps_backed ctx.tree ctx.settings unit⟩

/-- The artifact is a package put together from a sound session. -/
def Assembled (ctx : Context) (unit : Nat) (name : String) (artifact : Artifact) : Prop :=
  ∃ kind items hidden filled last, Sound ctx unit filled ∧
    package ctx kind name items hidden filled = .ok artifact last

theorem package_rests (wf : ctx.tree.WellFormed) (sound : Sound ctx unit s) {kind : ArtifactKind}
    {items hidden : List Item} {artifact : Artifact}
    (done : package ctx kind name items hidden s = .ok artifact s') :
    Assembled ctx unit name artifact ∧ NameTable.Rests ctx s'.names := by
  obtain ⟨clauses, made, -⟩ := package_ok done
  obtain ⟨-, names, rests, rfl⟩ := contextClauses_ok wf sound.rests made
  exact ⟨⟨kind, items, hidden, s, _, sound, done⟩, rests⟩

theorem Packed.assembled (wf : ctx.tree.WellFormed) {filled : Session} (sound : Sound ctx unit filled)
    {kind : ArtifactKind} {artifacts : List Artifact} (packed : Packed ctx kind name filled artifacts s') :
    (∀ artifact ∈ artifacts, Assembled ctx unit name artifact) ∧ NameTable.Rests ctx s'.names := by
  rcases packed with ⟨rfl, -, rfl⟩ | ⟨artifact, rfl, done⟩
  · exact ⟨fun artifact listed => absurd listed List.not_mem_nil, sound.rests⟩
  · obtain ⟨assembled, rests⟩ := package_rests wf sound done
    refine ⟨fun other listed => ?_, rests⟩
    rwa [List.mem_singleton.mp listed]

theorem nameFor_soundly (wf : ctx.tree.WellFormed) (a : Aspect) (node : Nat) :
    (nameFor ctx a node).Follows (soundly ctx unit) [node] :=
  nameWithin_soundly wf a _ node

theorem placeAll_soundly {write : Nat → Emit (List Item)} {nodes : List Nat}
    (each : ∀ node, (write node).Follows (soundly ctx unit) []) :
    (placeAll write nodes).Follows (soundly ctx unit) [] :=
  (Follows.forM (Conduct.keeping_lawful _) fun node _ => place_soundly (each node)).weaken (by simp)

theorem mapM_soundly {α : Type} {write : Nat → Emit α} {nodes : List Nat}
    (each : ∀ node, (write node).Follows (soundly ctx unit) []) :
    (nodes.mapM write).Follows (soundly ctx unit) [] :=
  (Follows.mapM (Conduct.keeping_lawful _) fun node _ => each node).weaken (by simp)

section Phases

variable (wf : ctx.tree.WellFormed) {artifacts : List Artifact} (rests : NameTable.Rests ctx s.names)
include wf rests

theorem specification_assembled {declared : List Nat}
    (done : specification ctx unit name s = .ok (artifacts, declared) s') :
    (∀ artifact ∈ artifacts, Assembled ctx unit name artifact) ∧ NameTable.Rests ctx s'.names := by
  have declares : ∀ node, (declaration ctx node).Follows (soundly ctx unit) [] :=
    fun node => produce_soundly wf (nameFor_soundly wf .declaration) .declaration node
  have references : (declareReferences ctx unit).Follows (soundly ctx unit) [] := by
    unfold declareReferences
    split
    · exact place_soundly (declares unit)
    · exact .pure (Conduct.keeping_lawful _) _
  obtain ⟨opened, members, filled, first, listed, written, -, packed⟩ := specification_ok done
  have openedSound := (references.ok (opening_sound rests) first).1
  have filledSound := ((placeAll_soundly declares).ok openedSound written).1
  have packedSound : Sound ctx unit { filled with declared := [] } := ⟨filledSound.rests, filledSound.backed⟩
  exact packed.assembled wf packedSound

theorem packageBody_assembled (done : packageBody ctx unit name s = .ok artifacts s') :
    (∀ artifact ∈ artifacts, Assembled ctx unit name artifact) ∧ NameTable.Rests ctx s'.names := by
  have bodies : ∀ node, (body ctx node).Follows (soundly ctx unit) [] :=
    fun node => body_follows (soundly_allows wf) fits_keeping fun r _ => nameFor_soundly wf .declaration r
  obtain ⟨members, filled, listed, written, packed⟩ := packageBody_ok done
  exact packed.assembled wf ((placeAll_soundly bodies).ok (opening_sound rests) written).1

theorem marshalling_assembled {declared : List Nat}
    (done : marshalling ctx unit name declared s = .ok artifacts s') :
    (∀ artifact ∈ artifacts, Assembled ctx unit name artifact) ∧ NameTable.Rests ctx s'.names := by
  have profiles : ∀ node, (marshalProfiles ctx node).Follows (soundly ctx unit) [] :=
    fun node => marshalProfiles_follows (soundly_allows wf) fits_keeping
  have codecs : ∀ node, (marshalBody ctx node).Follows (soundly ctx unit) [] :=
    fun node => produce_soundly wf (nameFor_soundly wf .marshalling) .marshalling node
  obtain ⟨profiled, specs, between, coded, bodies, written, packed, encoded, packedBodies, rfl⟩ :=
    marshalling_ok done
  obtain ⟨specsAssembled, restsBetween⟩ :=
    packed.assembled wf ((placeAll_soundly profiles).ok (opening_sound rests) written).1
  obtain ⟨bodiesAssembled, restsLast⟩ :=
    packedBodies.assembled wf ((placeAll_soundly codecs).ok (opening_sound restsBetween) encoded).1
  refine ⟨?_, restsLast⟩
  intro artifact listed
  rcases List.mem_append.mp listed with spec | body
  · exact specsAssembled artifact spec
  · exact bodiesAssembled artifact body

theorem proxies_assembled (done : proxies ctx unit name s = .ok artifacts s') :
    (∀ artifact ∈ artifacts, Assembled ctx unit name artifact) ∧ NameTable.Rests ctx s'.names := by
  have allows : Allows ctx (soundly ctx unit) := soundly_allows wf
  have types : ∀ node, ∀ r ∈ ctx.tree.declarationRefs node,
      (nameType ctx r).Follows (soundly ctx unit) [r] := fun _ r _ => nameFor_soundly wf .declaration r
  have codecs : ∀ node, ∀ r ∈ ctx.tree.declarationRefs node,
      (nameCodec ctx r).Follows (soundly ctx unit) [r] := fun _ r _ => nameFor_soundly wf .marshalling r
  rcases proxies_ok done with ⟨-, rfl, rfl⟩ | ⟨parts, described, spec, between, bodies, written, body, first, made,
    second, madeBody, rfl⟩
  · exact ⟨fun artifact listed => absurd listed List.not_mem_nil, rests⟩
  · have describedSound :=
      ((mapM_soundly fun node => descriptors_follows allows fits_keeping (types node)).ok (opening_sound rests) first).1
    obtain ⟨specAssembled, restsBetween⟩ := package_rests wf describedSound made
    have writtenSound := ((mapM_soundly fun node => descriptorBodies_follows allows fits_keeping (types node) (codecs node)).ok
      (opening_sound restsBetween) second).1
    obtain ⟨bodyAssembled, restsLast⟩ := package_rests wf writtenSound madeBody
    exact ⟨by simpa using ⟨specAssembled, bodyAssembled⟩, restsLast⟩

theorem implementation_assembled (done : implementation ctx unit name s = .ok artifacts s') :
    (∀ artifact ∈ artifacts, Assembled ctx unit name artifact) ∧ NameTable.Rests ctx s'.names := by
  have allows : Allows ctx (soundly ctx unit) := soundly_allows wf
  have types : ∀ node, ∀ r ∈ ctx.tree.declarationRefs node,
      (nameType ctx r).Follows (soundly ctx unit) [r] := fun _ r _ => nameFor_soundly wf .declaration r
  rcases implementation_ok done with ⟨rfl, rfl⟩ | ⟨parent, extended, declarations, served, spec, between,
    first, second, made, rest⟩
  · exact ⟨fun artifact listed => absurd listed List.not_mem_nil, rests⟩
  · have extendedSound := ((servantParent_follows allows fits_keeping trivial).ok (opening_sound rests) first).1
    have servedSound :=
      ((mapM_soundly fun node => servants_follows allows fits_keeping (types node)).ok extendedSound second).1
    obtain ⟨specAssembled, restsBetween⟩ := package_rests wf servedSound made
    rcases rest with ⟨rfl, rfl⟩ | ⟨bodies, written, body, third, madeBody, rfl⟩
    · exact ⟨by simpa using specAssembled, restsBetween⟩
    · have writtenSound := ((mapM_soundly fun node => servantBodies_follows allows fits_keeping (types node)).ok
        (opening_sound restsBetween) third).1
      obtain ⟨bodyAssembled, restsLast⟩ := package_rests wf writtenSound madeBody
      exact ⟨by simpa using ⟨specAssembled, bodyAssembled⟩, restsLast⟩

theorem children_assembled (done : children ctx unit name s = .ok artifacts s') :
    (∀ artifact ∈ artifacts, Assembled ctx unit name artifact ∨
      artifact.deps.mentions = []) ∧ NameTable.Rests ctx s'.names := by
  unfold children at done
  split at done
  · obtain ⟨stubs, stubbed, servants, served, dispatcher, first, second, third, rfl⟩ :=
      interfaceChildren_ok done
    obtain ⟨stubsAssembled, restsStubbed⟩ := proxies_assembled wf rests first
    obtain ⟨servantsAssembled, restsServed⟩ := implementation_assembled wf restsStubbed second
    have dispatched : (∀ artifact ∈ dispatcher, artifact.deps.mentions = []) ∧
        NameTable.Rests ctx s'.names := by
      rcases skeleton_ok third with ⟨rfl, rfl⟩ | ⟨entries, written, rfl⟩
      · exact ⟨fun artifact listed => absurd listed List.not_mem_nil, restsServed⟩
      · have lawful := Conduct.keeping_lawful fun s : Session => NameTable.Rests ctx s.names
        have kept := (Follows.mapM lawful fun node _ => dispatchEntries_follows lawful fits_keeping).ok restsServed written
        refine ⟨fun artifact listed => ?_, kept.1⟩
        rw [List.mem_singleton.mp listed]
        rfl
    refine ⟨?_, dispatched.2⟩
    intro artifact listed
    simp only [List.mem_append] at listed
    rcases listed with (stub | servant) | entry
    · exact .inl (stubsAssembled artifact stub)
    · exact .inl (servantsAssembled artifact servant)
    · exact .inr (dispatched.1 artifact entry)
  · cases done
    exact ⟨fun artifact listed => absurd listed List.not_mem_nil, rests⟩

theorem generateUnit_assembled {output : UnitOutput} (done : generateUnit ctx unit s = .ok output s') :
    (∀ artifact ∈ output.artifacts, Assembled ctx output.node output.name artifact ∨
      artifact.deps.mentions = []) ∧ NameTable.Rests ctx s'.names := by
  obtain ⟨named, specs, declared, specified, bodies, bodied, codecs, coded, others, naming, first, second, third,
    fourth, node, together⟩ := generateUnit_ok done
  obtain ⟨-, names, restsNamed, rfl⟩ := withNames_answers (NameTable.fullName_run wf unit) rests naming
  obtain ⟨specsAssembled, restsSpecified⟩ := specification_assembled wf restsNamed first
  obtain ⟨bodiesAssembled, restsBodied⟩ := packageBody_assembled wf restsSpecified second
  obtain ⟨codecsAssembled, restsCoded⟩ := marshalling_assembled wf restsBodied third
  obtain ⟨othersAssembled, restsLast⟩ := children_assembled wf restsCoded fourth
  refine ⟨?_, restsLast⟩
  intro artifact listed
  rw [together] at listed
  simp only [List.mem_append] at listed
  rw [node]
  rcases listed with ((spec | body) | codec) | other
  · exact .inl (specsAssembled artifact spec)
  · exact .inl (bodiesAssembled artifact body)
  · exact .inl (codecsAssembled artifact codec)
  · exact othersAssembled artifact other

end Phases

end Emit

theorem generate_assembled {ctx : Context} (wf : ctx.tree.WellFormed) {outputs : List UnitOutput}
    (done : generate ctx = .ok outputs) {output : UnitOutput} (listed : output ∈ outputs) {artifact : Artifact}
    (among : artifact ∈ output.artifacts) : Emit.Assembled ctx output.node output.name artifact ∨
      artifact.deps.mentions = [] := by
  obtain ⟨all, last, each, rfl⟩ := generate_ok done
  have step : ∀ unit ∈ ctx.tree.units Tree.root, ∀ {s output s'}, NameTable.Rests ctx s.names →
      Emit.generateUnit ctx unit s = .ok output s' →
      (∀ artifact ∈ output.artifacts, Emit.Assembled ctx output.node output.name artifact ∨
        artifact.deps.mentions = []) ∧ NameTable.Rests ctx s'.names := by
    intro unit _ s output s' rests done
    exact Emit.generateUnit_assembled wf rests done
  obtain ⟨worked, -⟩ := mapM_run step (NameTable.rests_empty ctx) each
  obtain ⟨-, -, assembled⟩ := worked output (List.mem_filter.mp listed).1
  exact assembled artifact among

/-! ## Shadowed packages -/

namespace Dependencies

/-- A scope around the package of `node`, and not on the way to `unit`, has been recorded. -/
def Shadows (t : Tree) (unit : Nat) (list : List Nat) (node : Nat) : Prop :=
  ∃ scope ∈ list, scope ∈ t.ancestors (t.packageOf node) ∧ scope ∉ unit :: t.ancestors unit

variable {t : Tree} {unit node : Nat} {list : List Nat}

/-- What makes a declaration of another package available is an entry of the same package, or shadows it. -/
theorem Reaches.same_package_or_shadows (wf : t.WellFormed) (reaches : Reaches t unit list node) :
    (∃ e ∈ list, t.packageOf e = t.packageOf node) ∨ Shadows t unit list node := by
  rcases reaches with ⟨-, listed⟩ | ⟨scope, above, listed⟩
  · exact .inl ⟨_, listed, wf.packageOf_unit (wf.isUnit_packageOf node)⟩
  · have onPath := (List.takeWhile_sublist _).subset above
    have outside := List.all_eq_true.mp List.all_takeWhile scope above
    rcases List.mem_cons.mp onPath with rfl | further
    · exact .inl ⟨_, listed, rfl⟩
    · rcases wf.packageOf_or_above further with same | around
      · exact .inl ⟨scope, listed, same⟩
      · exact .inr ⟨scope, listed, around, by simpa using outside⟩

end Dependencies

theorem Emit.exists_packageName {ctx : Context} (wf : ctx.tree.WellFormed) (node : Nat) :
    ∃ name, ctx.packageName? node = some name := by
  obtain ⟨name, given⟩ := NameTable.fullResult_of_unit wf (wf.isUnit_packageOf node)
  refine ⟨name, ?_⟩
  rw [Context.packageName?, NameTable.answer_eq_result wf]
  show (NameTable.fullResult ctx _).toOption = _
  rw [given]
  rfl

section Missing

variable {ctx : Context} {d : Dependencies} {unit node : Nat} {unitName package : String}

theorem mem_calls_of_import {e : Nat} (listed : e ∈ d.imports) (named : ctx.packageName? e = some package) :
    ⟨package, false⟩ ∈ d.calls ctx unitName := by
  refine List.mem_append_left _ (List.mem_append_right _ (List.mem_flatMap.mpr ⟨e, listed, ?_⟩))
  simp [Dependencies.typeCall, named]

theorem mem_calls_of_marshalImport {e : Nat} (listed : e ∈ d.marshalImports)
    (named : ctx.packageName? e = some package) (other : package ≠ unitName) :
    ⟨package ++ ".Marshal", true⟩ ∈ d.calls ctx unitName := by
  refine List.mem_append_right _ (List.mem_flatMap.mpr ⟨e, listed, ?_⟩)
  simp [Dependencies.codecCall, named, other]

theorem packageName?_congr {a b : Nat} (same : ctx.tree.packageOf a = ctx.tree.packageOf b) :
    ctx.packageName? a = ctx.packageName? b := by
  rw [Context.packageName?, same]
  rfl

end Missing

def Artifact.clauses (artifact : Artifact) : List Clause :=
  match artifact.content with
  | .package clauses _ _ => clauses
  | .dispatcher _ => []

theorem Emit.Assembled.clauses {ctx : Context} (wf : ctx.tree.WellFormed) {unit : Nat} {name : String}
    {artifact : Artifact} (assembled : Emit.Assembled ctx unit name artifact) :
    artifact.deps.Backed ctx.tree unit ∧ artifact.clauses =
      (Emit.Clauses.addAll ⟨[name, artifact.unitName], []⟩ (artifact.deps.calls ctx name)).clauses := by
  obtain ⟨kind, items, hidden, filled, last, sound, made⟩ := assembled
  obtain ⟨clauses, contexted, rfl⟩ := Emit.package_ok made
  obtain ⟨rfl, names, -, rfl⟩ := Emit.contextClauses_ok wf sound.rests contexted
  exact ⟨sound.backed, rfl⟩

/-- A clause for a package that an artifact names in full is missing exactly if the package goes by the name
of the unit or of the artifact itself, or if a scope around it was recorded in its place and nothing else
calls for it. A clause for its marshalling is missing also if it is called for first without being made
visible. -/
theorem missing_clause_iff_shadowed (script : List Step) (settings : Settings) (outputs : List UnitOutput)
    (done : generate ⟨.ofSteps script, settings⟩ = .ok outputs) :
    let ctx : Context := ⟨.ofSteps script, settings⟩
    ∀ output ∈ outputs, ∀ artifact ∈ output.artifacts, ∀ m ∈ artifact.deps.mentions,
      ∀ kind, ctx.tree.kind? m.node = some kind → kind.isRuntime = false →
      ctx.tree.packageOf m.node ≠ output.node →
      ∃ package, ctx.packageName? m.node = some package ∧
        ((¬ ∃ c ∈ artifact.clauses, c.package = package) ↔
          package ∈ [output.name, artifact.unitName] ∨
          Dependencies.Shadows ctx.tree output.node artifact.deps.imports m.node ∧
            ¬ ∃ c ∈ artifact.deps.calls ctx output.name, c.package = package) ∧
        (m.forMarshalling = true →
          (⟨package ++ ".Marshal", true⟩ ∉ artifact.clauses ↔
            package ++ ".Marshal" ∈ [output.name, artifact.unitName] ∨
            (artifact.deps.calls ctx output.name).find? (·.package == package ++ ".Marshal") =
              some ⟨package ++ ".Marshal", false⟩ ∨
            (package = output.name ∨
              Dependencies.Shadows ctx.tree output.node artifact.deps.marshalImports m.node) ∧
              ¬ ∃ c ∈ artifact.deps.calls ctx output.name, c.package = package ++ ".Marshal")) := by
  intro ctx output listed artifact among m mentioned kind found ordinary away
  have wf : ctx.tree.WellFormed := Tree.ofSteps_wellFormed script
  obtain ⟨package, named⟩ := Emit.exists_packageName wf m.node
  have assembled : Emit.Assembled ctx output.node output.name artifact := by
    rcases generate_assembled wf done listed among with assembled | silent
    · exact assembled
    · rw [silent] at mentioned
      cases mentioned
  obtain ⟨backed, clauses⟩ := assembled.clauses wf
  rw [clauses]
  refine ⟨package, named, ?_, ?_⟩
  · rw [Emit.Clauses.named_addAll]
    constructor
    · intro missing
      by_cases own : package ∈ [output.name, artifact.unitName]
      · exact .inl own
      · have uncalled : ¬ ∃ c ∈ artifact.deps.calls ctx output.name, c.package = package :=
          fun called => missing ⟨own, called⟩
        refine .inr ⟨?_, uncalled⟩
        rcases (backed.types mentioned found ordinary).same_package_or_shadows wf with ⟨e, recorded, same⟩ | shadows
        · have entry : ctx.packageName? e = some package := (packageName?_congr same).trans named
          exact absurd ⟨_, mem_calls_of_import recorded entry, rfl⟩ uncalled
        · exact shadows
    · rintro (own | ⟨-, uncalled⟩) ⟨other, called⟩
      · exact other own
      · exact uncalled called
  · intro marshalled
    rw [Emit.Clauses.mem_addAll]
    simp only [List.not_mem_nil, false_or]
    constructor
    · intro missing
      by_cases own : package ++ ".Marshal" ∈ [output.name, artifact.unitName]
      · exact .inl own
      · right
        cases first : (artifact.deps.calls ctx output.name).find? (·.package == package ++ ".Marshal") with
        | some call =>
          have called : call.package = package ++ ".Marshal" := by simpa using List.find?_some first
          obtain ⟨callName, isUsed⟩ := call
          cases called
          cases isUsed with
          | true => exact absurd ⟨own, first⟩ missing
          | false => exact .inl rfl
        | none =>
          have uncalled : ¬ ∃ c ∈ artifact.deps.calls ctx output.name, c.package = package ++ ".Marshal" := by
            rintro ⟨c, called, same⟩
            exact absurd same (by simpa using List.find?_eq_none.mp first c called)
          refine .inr ⟨?_, uncalled⟩
          have reaches := backed.codecs mentioned marshalled found ordinary
          rcases reaches.same_package_or_shadows wf with ⟨e, recorded, same⟩ | shadows
          · have entry : ctx.packageName? e = some package := (packageName?_congr same).trans named
            left
            by_cases unit : package = output.name
            · exact unit
            · exact absurd ⟨_, mem_calls_of_marshalImport recorded entry unit, rfl⟩ uncalled
          · exact .inr shadows
    · rintro (own | plain | ⟨-, uncalled⟩) ⟨other, first⟩
      · exact other own
      · cases plain.symm.trans first
      · exact uncalled ⟨_, List.mem_of_find?_eq_some first, rfl⟩

/-- A structure of module `B` with a field of a type of module `A` and one of a type of interface `A::I`. -/
def outerModuleFirst : List Step :=
  [.module 0 "A", .struct 1 "T", .interface 1 "I" [], .struct 3 "S", .module 0 "B", .struct 5 "U",
    .field 6 "f" 2, .field 6 "g" 4]

/-- The specification of `B` names a type of `A.I` in full and has no clause for that package. -/
theorem clause_missing_for_inner_package :
    ∃ outputs, generate ⟨.ofSteps outerModuleFirst, {}⟩ = .ok outputs ∧
      ∃ output ∈ outputs, ∃ artifact ∈ output.artifacts, ∃ m ∈ artifact.deps.mentions,
        (Tree.ofSteps outerModuleFirst).kind? m.node = some .struct ∧
        (Tree.ofSteps outerModuleFirst).packageOf m.node ≠ output.node ∧
        Context.packageName? ⟨.ofSteps outerModuleFirst, {}⟩ m.node = some "A.I" ∧
        ¬ ∃ c ∈ artifact.clauses, c.package = "A.I" := by
  apply exists_outputs
  decide +kernel

/-- Module `A` had been recorded before, and shadows `A.I`. -/
theorem inner_package_shadowed_by_outer_module :
    ∃ outputs, generate ⟨.ofSteps outerModuleFirst, {}⟩ = .ok outputs ∧
      ∃ output ∈ outputs, ∃ artifact ∈ output.artifacts, ∃ m ∈ artifact.deps.mentions,
        (¬ ∃ c ∈ artifact.clauses, c.package = "A.I") ∧
        Dependencies.Shadows (.ofSteps outerModuleFirst) output.node artifact.deps.imports m.node := by
  have facts : ∃ outputs, generate ⟨.ofSteps outerModuleFirst, {}⟩ = .ok outputs ∧
      ∃ output ∈ outputs, ∃ artifact ∈ output.artifacts, ∃ m ∈ artifact.deps.mentions,
        m.node = 4 ∧ output.node = 5 ∧ "A.I" ∉ [output.name, artifact.unitName] ∧
        ¬ ∃ c ∈ artifact.clauses, c.package = "A.I" := by
    apply exists_outputs
    decide +kernel
  have found : (Tree.ofSteps outerModuleFirst).kind? 4 = some .struct := by decide +kernel
  have away : (Tree.ofSteps outerModuleFirst).packageOf 4 ≠ 5 := by decide +kernel
  have named : Context.packageName? ⟨.ofSteps outerModuleFirst, {}⟩ 4 = some "A.I" := by decide +kernel
  obtain ⟨outputs, done, output, listed, artifact, among, ⟨node, forMarshalling⟩, mentioned, rfl, unit, other,
    missing⟩ := facts
  obtain ⟨package, given, exact, -⟩ := missing_clause_iff_shadowed outerModuleFirst {} outputs done output listed
    artifact among _ mentioned .struct found rfl (unit ▸ away)
  cases given.symm.trans named
  refine ⟨outputs, done, output, listed, artifact, among, _, mentioned, missing, ?_⟩
  rcases exact.mp missing with own | ⟨shadows, -⟩
  · exact absurd own other
  · exact shadows

end AdaStubs
