import AdaStubs.Proofs.Emission.Writing
import AdaStubs.Proofs.Generation.Phases

/-!
# Where parts stand

The parts of declarations in the artifacts of a unit, stage by stage. The specification has the declarations
of the unit and what they refer to in it, the marshalling package has the types among them, and no other
artifact has a part of any declaration.
-/

namespace AdaStubs

open Ada Run

def Artifact.items (a : Artifact) : List Item :=
  match a.content with
  | .package _ items hidden => items ++ hidden
  | .dispatcher entries => entries

/-- The artifacts of `unit` in which a part stands, each as often as it does. -/
def standing (unit : Nat) (artifacts : List Artifact) (part : Part × Nat) : List (Nat × ArtifactKind) :=
  artifacts.flatMap fun a => (a.items.filter (·.part? == some part)).map fun _ => (unit, a.kind)

/-- The artifacts of a generation in which a part of `node` stands, each as often as it does. -/
def sites (outputs : List UnitOutput) (part : Part) (node : Nat) : List (Nat × ArtifactKind) :=
  outputs.flatMap fun output => standing output.node output.artifacts (part, node)

theorem standing_append (unit : Nat) (artifacts more : List Artifact) (part : Part × Nat) :
    standing unit (artifacts ++ more) part = standing unit artifacts part ++ standing unit more part :=
  List.flatMap_append

theorem standing_singleton (unit : Nat) (a : Artifact) (part : Part × Nat) :
    standing unit [a] part = List.replicate ((a.items.filterMap Item.part?).count part) (unit, a.kind) := by
  simp only [standing, List.flatMap_singleton]
  induction a.items with
  | nil => rfl
  | cons item items ih =>
    rw [List.filter_cons, List.filterMap_cons]
    cases shape : item.part? with
    | none => simpa using ih
    | some other =>
      by_cases same : other = part
      · simp [same, ih, List.replicate_succ]
      · simp [same, ih]

theorem sites_filter (outputs : List UnitOutput) (part : Part) (node : Nat) :
    sites (outputs.filter (!·.artifacts.isEmpty)) part node = sites outputs part node := by
  induction outputs with
  | nil => rfl
  | cons output outputs ih =>
    have first : sites (output :: outputs) part node =
        standing output.node output.artifacts (part, node) ++ sites outputs part node := rfl
    rw [first, List.filter_cons, ← ih]
    cases shape : output.artifacts with
    | nil => rfl
    | cons a artifacts => simp [sites, shape]

namespace Emit

open Dependencies

/-- Inheritance is from interfaces. -/
structure Inherits (ctx : Context) : Prop where
  wellFormed : ctx.tree.WellFormed
  bases : ∀ {node base others}, ctx.tree.kind? node = some (.interface (base :: others)) →
    isInterface ctx base = true

/-- Inheritance is from interfaces, and nothing is configured to exist already. -/
structure Regular (ctx : Context) : Prop where
  wellFormed : ctx.tree.WellFormed
  bases : ∀ {node base others}, ctx.tree.kind? node = some (.interface (base :: others)) →
    isInterface ctx base = true
  unconfigured : ctx.settings.imports = []

theorem Regular.inherits {ctx : Context} (regular : Regular ctx) : Inherits ctx :=
  ⟨regular.wellFormed, regular.bases⟩

variable {ctx : Context} {unit : Nat} {name : String} {s s' : Session} {artifacts : List Artifact} {τ : Trace}

theorem Tolerates.inherits {c : Conduct Session} (tolerates : Tolerates ctx unit c) (inherits : Inherits ctx) :
    Allows ctx c := by
  refine tolerates.allows inherits.wellFormed ?_
  intro node kind base _ found first
  cases kind with
  | interface bases =>
    obtain ⟨others, rfl⟩ : ∃ others, bases = base :: others := by
      simpa [Kind.firstBase?, List.head?_eq_some_iff] using first
    exact (isInterface_iff.mp (inherits.bases found)).1
  | _ => cases first

/-! ## Artifacts -/

theorem opening_packaged (unit : Nat) (s : Session) : ctx.Packaged unit (opening ctx unit s).deps :=
  .of_told ctx.tree unit ctx.settings.imports

theorem opening_stands (unit : Nat) (here : s.trace.cleared = τ) : Stands ctx unit τ (opening ctx unit s) :=
  ⟨opening_packaged unit s, here⟩

theorem package_stands (inherits : Inherits ctx) (stands : Stands ctx unit τ s) {kind : ArtifactKind}
    {items hidden : List Item} {artifact : Artifact}
    (done : package ctx kind name items hidden s = .ok artifact s') :
    s'.trace = τ ∧ ∀ part, standing unit [artifact] part =
      List.replicate (((items ++ hidden).filterMap Item.part?).count part) (unit, kind) := by
  have allows : Allows ctx (.keeping (Stands ctx unit τ)) := (stands_tolerates τ).inherits inherits
  obtain ⟨clauses, made, rfl⟩ := package_ok done
  have follows := contextClauses_follows allows.lawful allows.wellFormed allows.unitNames name (kind.unitName name) fun _ _ _ _ => fits_keeping
  exact ⟨(follows.ok stands made).1.trace_eq, standing_singleton unit _⟩

theorem Packed.standing {kind : ArtifactKind} {filled : Session} (inherits : Inherits ctx)
    (packaged : ctx.Packaged unit filled.deps) (packed : Packed ctx kind name filled artifacts s') :
    s'.trace = filled.trace ∧ ∀ part, AdaStubs.standing unit artifacts part =
      List.replicate (filled.trace.parts.count part) (unit, kind) := by
  rcases packed with ⟨rfl, empty, rfl⟩ | ⟨artifact, rfl, made⟩
  · refine ⟨rfl, fun part => ?_⟩
    rw [Session.trace, empty]
    rfl
  · have stands : Stands ctx unit filled.trace filled := ⟨packaged, rfl⟩
    have made := package_stands inherits stands made
    rw [List.append_nil] at made
    exact made

/-- No part of a declaration stands in the artifacts. -/
def Silent (unit : Nat) (artifacts : List Artifact) : Prop := ∀ part, standing unit artifacts part = []

theorem Silent.append {more : List Artifact} (first : Silent unit artifacts) (second : Silent unit more) :
    Silent unit (artifacts ++ more) := by
  intro part
  rw [standing_append, first part, second part]
  rfl

theorem place_stands {act : Emit (List Item)} (quiet : act.Follows (.keeping (Stands ctx unit τ)) [])
    (stubs : act.Returns (·.filterMap Item.part? = [])) :
    (place act).Follows (.keeping (Stands ctx unit τ)) [] := by
  apply Follows.keeping
  intro s _ s' stands done
  obtain ⟨items, written, run, rfl⟩ := place_ok done
  obtain ⟨packaged, trace_eq⟩ := (quiet.ok stands run).1
  refine ⟨packaged, ?_⟩
  rw [← trace_eq]
  simp only [Session.trace, List.filterMap_append, stubs items ⟨_, _, run⟩, List.append_nil]

/-! ## References within a package -/

/-- Nothing is under way, and what is declared has all that it refers to in its own package. -/
structure Resting (ctx : Context) (τ : Trace) : Prop where
  idle : τ.busy = []
  taken : τ.declared = []
  distinct : τ.defined.Nodup
  closed : ∀ n ∈ τ.defined, ∀ r ∈ ctx.tree.declarationRefs n,
    ctx.isLocal (ctx.tree.packageOf n) r = true → r ∈ τ.defined

/-- Moreover, exactly the types among what is declared have been marshalled. -/
structure Level (ctx : Context) (τ : Trace) : Prop extends Resting ctx τ where
  marshalled : ∀ n, n ∈ τ.marshalDefined ↔ n ∈ τ.defined ∧ ctx.tree.hasKind Kind.isType n = true

/-- Every declaration of `unit` has been written. -/
def Complete (ctx : Context) (unit : Nat) (τ : Trace) : Prop :=
  ∀ n, ctx.tree.hasKind Kind.isDeclared n = true → ctx.tree.packageOf n = unit → n ∈ τ.defined

theorem nameType_stands (regular : Regular ctx) (resting : Resting ctx τ) (complete : Complete ctx unit τ)
    {node : Nat} (declared : ctx.tree.hasKind Kind.isDeclared node = true)
    (home : ctx.tree.packageOf node = unit) :
    ∀ r ∈ ctx.tree.declarationRefs node, (nameType ctx r).Follows (.keeping (Stands ctx unit τ)) [r] := by
  intro r refers
  apply nameWithin_stands regular.wellFormed
  intro isLocal
  rw [← home] at isLocal
  exact resting.closed node (complete node declared home) r refers isLocal

theorem owns_of_marshalling {node : Nat} (owns : ctx.tree.Owns unit .marshalling node) :
    ctx.tree.Owns unit .declaration node ∧ ctx.tree.hasKind Kind.isType node = true := by
  obtain ⟨writes, home⟩ := owns
  obtain ⟨present, found, kind⟩ := Tree.exists_of_hasKind writes
  obtain ⟨isType, declares⟩ := Aspect.writes_marshalling kind
  refine ⟨⟨?_, home⟩, ?_⟩
  · rw [Tree.hasKind_eq found, declares]
  · rw [Tree.hasKind_eq found, isType]

theorem nameCodec_stands (regular : Regular ctx) (level : Level ctx τ) (complete : Complete ctx unit τ)
    {node : Nat} (declared : ctx.tree.hasKind Kind.isDeclared node = true)
    (home : ctx.tree.packageOf node = unit) :
    ∀ r ∈ ctx.tree.declarationRefs node, (nameCodec ctx r).Follows (.keeping (Stands ctx unit τ)) [r] := by
  intro r refers
  apply nameWithin_stands regular.wellFormed
  intro isLocal
  have isType := Tree.isType_of_isLocal isLocal
  rw [← home] at isLocal
  have defined := level.closed node (complete node declared home) r refers isLocal
  exact (level.marshalled r).mpr ⟨defined, isType⟩

/-- The members that a unit writes are those that are no units and not configured to exist already. -/
theorem mem_ownMembers (wf : ctx.tree.WellFormed) (packaged : ctx.Packaged unit s.deps)
    (isUnit : ctx.tree.hasKind Kind.isUnit unit = true) {members : List Nat}
    (done : ownMembers ctx unit s = .ok members s') {m : Nat} (listed : m ∈ ctx.tree.members unit)
    (inner : ctx.tree.hasKind Kind.isUnit m = false) : m ∈ members ↔ m ∉ ctx.settings.imports := by
  obtain ⟨-, own, rfl, decision⟩ := ownMembers_ok done
  have home := (wf.declared_in_unit isUnit listed inner).2
  have reaches_iff := packaged.reaches_iff (a := .declaration) wf home
  rw [List.mem_filter, and_iff_right listed, decision m listed, and_iff_right inner, packaged.unit_eq,
    ← wf.isOutside_member isUnit listed inner, ← Bool.not_eq_true]
  exact not_congr reaches_iff

/-! ## The specification -/

theorem owns_of_isDeclared {node : Nat} (declared : ctx.tree.hasKind Kind.isDeclared node = true)
    (home : ctx.tree.packageOf node = unit) : ctx.tree.Owns unit .declaration node := by
  refine ⟨?_, home⟩
  obtain ⟨present, found, kind⟩ := Tree.exists_of_hasKind declared
  rw [Tree.hasKind_eq found]
  exact Aspect.writes_of_isDeclared kind

theorem declareReferences_writes (inherits : Inherits ctx) : (declareReferences ctx unit).Follows
    (writing ctx .declaration unit fun _ => True) (if isInterface ctx unit then [unit] else []) := by
  have wf := inherits.wellFormed
  unfold declareReferences
  split
  · next interface =>
    obtain ⟨isUnit, declared⟩ := isInterface_iff.mp interface
    have own := owns_of_isDeclared declared (wf.packageOf_unit isUnit)
    exact place_writes wf (fun _ => writing_tolerates.inherits inherits) (fun _ _ _ _ _ => trivial) ⟨own, trivial⟩
  · exact .pure writing_lawful _

theorem place_done {a : Aspect} {resolve : Nat → Emit String} {node : Nat}
    (done : place (produce ctx a resolve node) s = .ok () s') :
    node ∈ a.done s'.trace ∨ node ∈ s'.trace.busy := by
  obtain ⟨items, written, run, rfl⟩ := place_ok done
  rcases produce_ok run with ⟨early, rfl, rfl⟩ | ⟨-, -, inner, -, rfl⟩
  · exact early.imp isDone_iff.mp List.contains_iff_mem.mp
  · left
    cases a <;> exact List.mem_insert_self

theorem declareReferences_done (done : declareReferences ctx unit s = .ok () s') :
    ∀ n ∈ if isInterface ctx unit then [unit] else [], n ∈ s'.trace.defined ∨ n ∈ s'.trace.busy := by
  unfold declareReferences at done
  split
  · next interface =>
    rw [if_pos interface] at done
    intro n listed
    rw [List.mem_singleton.mp listed]
    exact place_done (a := .declaration) done
  · simp

theorem placeAll_writes {a : Aspect} {allowed : Nat → Prop} (inherits : Inherits ctx)
    (closed : ∀ n, allowed n → ∀ r ∈ a.refs ctx.tree n, ctx.isLocal unit r = true → allowed r)
    {nodes : List Nat} (own : ∀ n ∈ nodes, ctx.tree.Owns unit a n ∧ allowed n) :
    (placeAll (produce ctx a (nameFor ctx a)) nodes).Follows (writing ctx a unit allowed) nodes := by
  have each : ∀ n ∈ nodes, (place (produce ctx a (nameFor ctx a) n)).Follows
      (writing ctx a unit allowed) [n] :=
    fun n listed => place_writes inherits.wellFormed (fun _ => writing_tolerates.inherits inherits) closed
      (own n listed)
  exact (Follows.forM writing_lawful each).weaken (by simp)

theorem placeAll_done {a : Aspect} {allowed : Nat → Prop} (inherits : Inherits ctx)
    (closed : ∀ n, allowed n → ∀ r ∈ a.refs ctx.tree n, ctx.isLocal unit r = true → allowed r)
    {nodes : List Nat} (own : ∀ n ∈ nodes, ctx.tree.Owns unit a n ∧ allowed n)
    (packaged : ctx.Packaged unit s.deps) (done : placeAll (produce ctx a (nameFor ctx a)) nodes s = .ok ⟨⟩ s') :
    ∀ n ∈ nodes, n ∈ a.done s'.trace ∨ n ∈ s'.trace.busy := by
  induction nodes generalizing s with
  | nil => simp
  | cons node nodes ih =>
    obtain ⟨_, placed, first, rest⟩ := bind_eq_ok.mp done
    have ownRest : ∀ n ∈ nodes, ctx.tree.Owns unit a n ∧ allowed n :=
      fun n listed => own n (List.mem_cons_of_mem _ listed)
    have writes := place_writes inherits.wellFormed (fun _ => writing_tolerates.inherits inherits) closed
      (own node List.mem_cons_self)
    have packagedPlaced := (writes.ok packaged first).1
    obtain ⟨-, ⟨new, written⟩, -⟩ := (placeAll_writes inherits closed ownRest).ok packagedPlaced rest
    intro n listed
    rcases List.mem_cons.mp listed with rfl | further
    · rw [written.mem_done, written.busy_eq]
      exact (place_done first).imp_left .inr
    · exact ih ownRest packagedPlaced rest n further

/-- What is written for the specification of a unit, whatever exists already. -/
theorem specification_writes (inherits : Inherits ctx) (isUnit : ctx.tree.hasKind Kind.isUnit unit = true)
    {declared : List Nat} (done : specification ctx unit name s = .ok (artifacts, declared) s') :
    ∃ (opened : Session) (members : List Nat) (filled : Session) (new : List Nat),
      ctx.Packaged unit opened.deps ∧ ownMembers ctx unit opened = .ok members opened ∧
      ctx.Packaged unit filled.deps ∧ Written ctx .declaration unit (fun _ => True) new s.trace.cleared filled.trace ∧
      (∀ n ∈ (if isInterface ctx unit then [unit] else []) ++ members.flatMap ctx.tree.innerFirst,
        n ∈ filled.trace.defined ∨ n ∈ filled.trace.busy) ∧
      declared = filled.declared ∧ Packed ctx .spec name { filled with declared := [] } artifacts s' := by
  have wf := inherits.wellFormed
  obtain ⟨opened, members, filled, first, listed, written, rfl, packed⟩ := specification_ok done
  obtain ⟨packagedOpened, moved, -⟩ := (declareReferences_writes inherits).ok (opening_packaged unit s) first
  have own : ∀ n ∈ members.flatMap ctx.tree.innerFirst, ctx.tree.Owns unit .declaration n ∧ True := by
    intro n walked
    obtain ⟨m, among, within⟩ := List.mem_flatMap.mp walked
    obtain ⟨declared, home⟩ := declared_of_ownMembers wf isUnit listed m among
    obtain ⟨nested, package⟩ := wf.isDeclared_of_mem_innerFirst declared within
    exact ⟨owns_of_isDeclared nested (package.trans home), trivial⟩
  obtain ⟨packagedFilled, movedLast, -⟩ :=
    (placeAll_writes inherits (fun _ _ _ _ _ => trivial) own).ok packagedOpened written
  obtain ⟨new, all⟩ := writing_lawful.trans (opening_packaged unit s) moved movedLast
  refine ⟨opened, members, filled, new, packagedOpened, listed, packagedFilled, all, ?_, rfl, packed⟩
  intro n among
  rcases List.mem_append.mp among with reference | walked
  · obtain ⟨later, rest⟩ := movedLast
    change n ∈ Aspect.declaration.done filled.trace ∨ n ∈ filled.trace.busy
    rw [rest.mem_done, rest.busy_eq]
    exact (declareReferences_done first n reference).imp_left .inr
  · exact placeAll_done inherits (fun _ _ _ _ _ => trivial) own packagedOpened written n walked

/-- A walk over the members of a unit, and the unit itself if it is an interface, leaves out no declaration but
what is nested in a member that the walk leaves out. -/
theorem mem_walk (wf : ctx.tree.WellFormed) {members : List Nat} {n : Nat}
    (declared : ctx.tree.hasKind Kind.isDeclared n = true) (home : ctx.tree.packageOf n = unit)
    (walked : ∀ m ∈ ctx.tree.members unit, ctx.tree.hasKind Kind.isUnit m = false → n ∈ ctx.tree.innerFirst m →
      m ∈ members) :
    n ∈ (if isInterface ctx unit then [unit] else []) ++ members.flatMap ctx.tree.innerFirst := by
  cases inner : ctx.tree.hasKind Kind.isUnit n with
  | true =>
    rw [wf.packageOf_unit inner] at home
    subst home
    rw [if_pos (isInterface_iff.mpr ⟨inner, declared⟩)]
    exact List.mem_append_left _ List.mem_cons_self
  | false =>
    obtain ⟨m, among, own, within⟩ := wf.exists_innerFirst declared inner
    rw [home] at among
    exact List.mem_append_right _ (List.mem_flatMap.mpr ⟨m, walked m among own within, within⟩)

theorem specification_emits (regular : Regular ctx) (isUnit : ctx.tree.hasKind Kind.isUnit unit = true)
    (idle : s.trace.busy = []) {declared : List Nat}
    (done : specification ctx unit name s = .ok (artifacts, declared) s') :
    ∃ new filled, Written ctx .declaration unit (fun _ => True) new s.trace.cleared filled ∧
      Complete ctx unit filled ∧ declared = filled.declared ∧ s'.trace = { filled with declared := [] } ∧
      ∀ part, standing unit artifacts part =
        List.replicate ((new.map fun n => (Part.declaration, n)).count part) (unit, .spec) := by
  have wf := regular.wellFormed
  obtain ⟨opened, members, filled, new, packagedOpened, listed, packagedFilled, written, settled, rfl, packed⟩ :=
    specification_writes regular.inherits isUnit done
  have idleFilled : filled.trace.busy = [] := written.busy_eq.trans idle
  have complete : Complete ctx unit filled.trace := by
    intro n declared home
    have settledHere := settled n (mem_walk wf declared home fun m among own _ => ?_)
    · simpa [idleFilled] using settledHere
    · simp [mem_ownMembers wf packagedOpened isUnit listed among own, regular.unconfigured]
  have taken : ctx.Packaged unit ({ filled with declared := [] } : Session).deps := packagedFilled
  obtain ⟨same, standing⟩ := packed.standing regular.inherits taken
  refine ⟨new, filled.trace, written, complete, rfl, same, fun part => ?_⟩
  rw [standing part]
  exact congrArg (fun parts => List.replicate (parts.count part) (unit, ArtifactKind.spec)) written.parts_eq

/-! ## Stubs -/

section Stubs

variable (regular : Regular ctx) (isUnit : ctx.tree.hasKind Kind.isUnit unit = true)
  (resting : Resting ctx τ) (complete : Complete ctx unit τ)

include regular in
theorem package_silent {kind : ArtifactKind} {items hidden : List Item} {artifact : Artifact}
    (stands : Stands ctx unit τ.cleared s) (stubs : items.filterMap Item.part? = [])
    (hiddenStubs : hidden.filterMap Item.part? = [])
    (done : package ctx kind name (s.hoisted ++ items) hidden s = .ok artifact s') :
    Silent unit [artifact] ∧ s'.trace.cleared = τ.cleared := by
  obtain ⟨same, standing⟩ := package_stands regular.inherits stands done
  have hoisted : s.hoisted.filterMap Item.part? = [] := congrArg Trace.parts stands.trace_eq
  refine ⟨fun part => ?_, by rw [same]; rfl⟩
  rw [standing part, List.filterMap_append, List.filterMap_append, hoisted, stubs, hiddenStubs]
  rfl

theorem mapM_stands {α : Type} {write : Nat → Emit α} {nodes : List Nat}
    (quiet : ∀ n ∈ nodes, (write n).Follows (.keeping (Stands ctx unit τ)) []) :
    (nodes.mapM write).Follows (.keeping (Stands ctx unit τ)) [] :=
  (Follows.mapM (Conduct.keeping_lawful _) quiet).weaken (by simp)

theorem mapM_parts {α : Type} {write : Nat → Emit α} {nodes : List Nat} {results : List α}
    (view : α → List Item) (stubs : ∀ n, (write n).Returns fun result => (view result).filterMap Item.part? = [])
    (done : nodes.mapM write s = .ok results s') : (results.flatMap view).filterMap Item.part? = [] := by
  have gives : (nodes.mapM write).Gives results := ⟨s, s', done⟩
  rw [List.filterMap_flatMap, List.flatMap_eq_nil_iff]
  intro result listed
  obtain ⟨n, -, given⟩ := gives.mapM result listed
  exact stubs n result given

theorem mapM_flatten_parts {write : Nat → Emit (List Item)} {nodes : List Nat} {results : List (List Item)}
    (stubs : ∀ n, (write n).Returns (·.filterMap Item.part? = []))
    (done : nodes.mapM write s = .ok results s') : results.flatten.filterMap Item.part? = [] := by
  rw [← List.flatMap_id]
  exact mapM_parts id stubs done

include regular isUnit resting complete in
theorem packageBody_silent (here : s.trace.cleared = τ) (done : packageBody ctx unit name s = .ok artifacts s') :
    Silent unit artifacts ∧ s'.trace.cleared = τ := by
  subst here
  have wf := regular.wellFormed
  have stands : Stands ctx unit s.trace.cleared (opening ctx unit s) := opening_stands unit rfl
  have allows : Allows ctx (.keeping (Stands ctx unit s.trace.cleared)) := (stands_tolerates _).inherits regular.inherits
  obtain ⟨members, filled, listed, written, packed⟩ := packageBody_ok done
  have own : ∀ n ∈ if isInterface ctx unit then unit :: members else members,
      ctx.tree.hasKind Kind.isDeclared n = true ∧ ctx.tree.packageOf n = unit := by
    have ofMembers : ∀ n ∈ members,
        ctx.tree.hasKind Kind.isDeclared n = true ∧ ctx.tree.packageOf n = unit := by
      intro n among
      exact declared_of_ownMembers wf isUnit listed n among
    intro n among
    split at among
    · next interface =>
      rcases List.mem_cons.mp among with rfl | member
      · exact ⟨(isInterface_iff.mp interface).2, wf.packageOf_unit isUnit⟩
      · exact ofMembers n member
    · exact ofMembers n among
  have bodies : (placeAll (body ctx) (if isInterface ctx unit then unit :: members else members)).Follows
      (.keeping (Stands ctx unit s.trace.cleared)) [] := by
    apply (Follows.forM allows.lawful _).weaken (by simp)
    · exact fun _ => []
    · intro n among
      obtain ⟨declared, home⟩ := own n among
      have types := nameType_stands regular resting complete declared home
      exact place_stands (body_follows allows fits_keeping types) (body_parts n)
  have kept := (bodies.ok stands written).1
  obtain ⟨same, standing⟩ := packed.standing regular.inherits kept.packaged
  rw [kept.trace_eq] at same standing
  exact ⟨standing, by rw [same]; rfl⟩

theorem Silent.nil (unit : Nat) : Silent unit [] := fun _ => rfl

theorem member_of_operation {node : Nat} (listed : node ∈ operationsOf ctx unit) :
    node ∈ ctx.tree.members unit ∧ ctx.tree.hasKind Kind.isUnit node = false := by
  obtain ⟨member, kind⟩ := List.mem_filter.mp listed
  obtain ⟨present, found, shape⟩ := Tree.exists_of_hasKind kind
  refine ⟨member, ?_⟩
  rw [Tree.hasKind_eq found]
  cases known : present.kind <;> simp_all [Kind.isUnit]

include regular isUnit in
theorem declared_of_operation {node : Nat} (listed : node ∈ operationsOf ctx unit) :
    ctx.tree.hasKind Kind.isDeclared node = true ∧ ctx.tree.packageOf node = unit := by
  obtain ⟨member, inner⟩ := member_of_operation listed
  exact regular.wellFormed.declared_in_unit isUnit member inner

include regular isUnit resting complete in
theorem nameType_of_operation : ∀ n ∈ operationsOf ctx unit, ∀ r ∈ ctx.tree.declarationRefs n,
    (nameType ctx r).Follows (.keeping (Stands ctx unit τ)) [r] := by
  intro n listed
  obtain ⟨declared, home⟩ := declared_of_operation regular isUnit listed
  exact nameType_stands regular resting complete declared home

include regular isUnit complete in
theorem proxies_silent (level : Level ctx τ) (here : s.trace.cleared = τ)
    (done : proxies ctx unit name s = .ok artifacts s') : Silent unit artifacts ∧ s'.trace.cleared = τ := by
  rcases proxies_ok done with ⟨-, rfl, rfl⟩ | ⟨parts, described, spec, between, bodies, written, body, first, made,
    second, madeBody, rfl⟩
  · exact ⟨.nil unit, here⟩
  subst here
  have allows : Allows ctx (.keeping (Stands ctx unit s.trace.cleared)) := (stands_tolerates _).inherits regular.inherits
  have types := nameType_of_operation regular isUnit level.toResting complete
  have codecs : ∀ n ∈ operationsOf ctx unit, ∀ r ∈ ctx.tree.declarationRefs n,
      (nameCodec ctx r).Follows (.keeping (Stands ctx unit s.trace.cleared)) [r] := by
    intro n listed
    obtain ⟨declared, home⟩ := declared_of_operation regular isUnit listed
    exact nameCodec_stands regular level complete declared home
  have describedStands := ((mapM_stands fun n listed => descriptors_follows allows fits_keeping (types n listed)).ok
    (opening_stands unit rfl) first).1
  obtain ⟨specSilent, same⟩ := package_silent regular describedStands
    (mapM_parts Prod.fst (fun n parts given => (descriptors_parts n parts given).1) first)
    (mapM_parts Prod.snd (fun n parts given => (descriptors_parts n parts given).2) first) made
  have writtenStands := ((mapM_stands fun n listed =>
    descriptorBodies_follows allows fits_keeping (types n listed) (codecs n listed)).ok
    (opening_stands unit same) second).1
  have stubs := mapM_flatten_parts descriptorBodies_parts second
  obtain ⟨bodySilent, sameLast⟩ := package_silent regular writtenStands stubs rfl madeBody
  exact ⟨specSilent.append bodySilent, sameLast⟩

include regular isUnit resting complete in
theorem implementation_silent (here : s.trace.cleared = τ)
    (done : implementation ctx unit name s = .ok artifacts s') :
    Silent unit artifacts ∧ s'.trace.cleared = τ := by
  rcases implementation_ok done with ⟨rfl, rfl⟩ | ⟨parent, extended, declarations, served, spec, between,
    first, second, made, rest⟩
  · exact ⟨.nil unit, here⟩
  subst here
  have allows : Allows ctx (.keeping (Stands ctx unit s.trace.cleared)) := (stands_tolerates _).inherits regular.inherits
  have types := nameType_of_operation regular isUnit resting complete
  have extendedStands := ((servantParent_follows allows fits_keeping trivial).ok (opening_stands unit rfl) first).1
  have servedStands :=
    ((mapM_stands fun n listed => servants_follows allows fits_keeping (types n listed)).ok extendedStands second).1
  have stubs := mapM_flatten_parts servants_parts second
  have specStubs : (.stub unit (.servantType parent) :: declarations.flatten).filterMap Item.part? = [] := by
    rw [List.filterMap_cons, stubs]
    rfl
  obtain ⟨specSilent, same⟩ := package_silent regular servedStands specStubs rfl made
  rcases rest with ⟨rfl, rfl⟩ | ⟨bodies, written, body, third, madeBody, rfl⟩
  · exact ⟨specSilent, same⟩
  have writtenStands := ((mapM_stands fun n listed => servantBodies_follows allows fits_keeping (types n listed)).ok
    (opening_stands unit same) third).1
  have bodyStubs := mapM_flatten_parts servantBodies_parts third
  obtain ⟨bodySilent, sameLast⟩ := package_silent regular writtenStands bodyStubs rfl madeBody
  exact ⟨specSilent.append bodySilent, sameLast⟩

theorem skeleton_silent (here : s.trace.cleared = τ) (done : skeleton ctx unit name s = .ok artifacts s') :
    Silent unit artifacts ∧ s'.trace.cleared = τ := by
  rcases skeleton_ok done with ⟨rfl, rfl⟩ | ⟨entries, written, rfl⟩
  · exact ⟨.nil unit, here⟩
  have lawful := Conduct.keeping_lawful fun s : Session => s.trace.cleared = τ
  have kept := (Follows.mapM lawful fun n _ => dispatchEntries_follows lawful fits_keeping).ok here written
  have stubs := mapM_flatten_parts dispatchEntries_parts written
  refine ⟨fun part => ?_, kept.1⟩
  rw [standing_singleton, Artifact.items, stubs]
  rfl

include regular isUnit complete in
theorem children_silent (level : Level ctx τ) (here : s.trace.cleared = τ)
    (done : children ctx unit name s = .ok artifacts s') : Silent unit artifacts ∧ s'.trace.cleared = τ := by
  unfold children at done
  split at done
  · obtain ⟨stubs, stubbed, servants, served, dispatcher, first, second, third, rfl⟩ :=
      interfaceChildren_ok done
    obtain ⟨stubsSilent, stubbedHere⟩ := proxies_silent regular isUnit complete level here first
    obtain ⟨servantsSilent, servedHere⟩ :=
      implementation_silent regular isUnit level.toResting complete stubbedHere second
    obtain ⟨dispatcherSilent, lastHere⟩ := skeleton_silent servedHere third
    exact ⟨(stubsSilent.append servantsSilent).append dispatcherSilent, lastHere⟩
  · cases done
    exact ⟨.nil unit, here⟩

end Stubs

/-! ## Marshalling -/

theorem placeAll_profiles (regular : Regular ctx) {nodes : List Nat} (stands : Stands ctx unit τ s)
    (own : ∀ n ∈ nodes, ctx.tree.Owns unit .marshalling n)
    (done : placeAll (marshalProfiles ctx) nodes s = .ok ⟨⟩ s') :
    Stands ctx unit { τ with parts := τ.parts ++ nodes.map fun n => (Part.profiles, n) } s' := by
  induction nodes generalizing s τ with
  | nil =>
    cases done
    simpa using stands
  | cons n nodes ih =>
    have allows : Allows ctx (.keeping (Stands ctx unit τ)) := (stands_tolerates τ).inherits regular.inherits
    have owns := own n List.mem_cons_self
    obtain ⟨_, placed, first, rest⟩ := bind_eq_ok.mp done
    obtain ⟨items, written, run, rfl⟩ := place_ok first
    obtain ⟨packaged, trace_eq⟩ := ((marshalProfiles_follows allows fits_keeping).ok stands run).1
    have parts := marshalProfiles_parts (owns_of_marshalling owns).2 owns.1 items ⟨_, _, run⟩
    have step : Stands ctx unit { τ with parts := τ.parts ++ [(Part.profiles, n)] }
        { written with hoisted := written.hoisted ++ items } := by
      refine ⟨packaged, ?_⟩
      rw [← trace_eq]
      simp only [Session.trace, List.filterMap_append, parts]
    simpa using ih step (fun m listed => own m (List.mem_cons_of_mem _ listed)) rest

section Marshalling

variable {types : List Nat} (regular : Regular ctx) (resting : Resting ctx τ) (distinct : types.Nodup)
  (fresh : ∀ n ∈ types, n ∈ τ.defined ∧ ctx.tree.Owns unit .marshalling n ∧ n ∉ τ.marshalDefined)
  (rest : ∀ n ∈ τ.defined, ctx.tree.hasKind Kind.isType n = true → n ∈ types ∨ n ∈ τ.marshalDefined)
include regular resting distinct fresh rest

theorem placeAll_marshalBody (stands : Stands ctx unit τ s)
    (done : placeAll (marshalBody ctx) types s = .ok ⟨⟩ s') :
    ∃ coded : List Nat, coded.Perm types ∧ Stands ctx unit { τ with
      marshalDefined := coded.reverse ++ τ.marshalDefined,
      parts := τ.parts ++ coded.map fun n => (Part.codec, n) } s' := by
  have closed : ∀ n, n ∈ τ.defined ∧ ctx.tree.packageOf n = unit → ∀ r ∈ ctx.tree.marshalRefs n,
      ctx.isLocal unit r = true → r ∈ τ.defined ∧ ctx.tree.packageOf r = unit := by
    rintro n ⟨defined, home⟩ r refers isLocal
    refine ⟨?_, Tree.packageOf_of_isLocal isLocal⟩
    rw [← home] at isLocal
    exact resting.closed n defined r (Tree.mem_declarationRefs_of_marshalRefs refers) isLocal
  have own : ∀ n ∈ types, ctx.tree.Owns unit .marshalling n ∧ n ∈ τ.defined ∧ ctx.tree.packageOf n = unit := by
    intro n listed
    obtain ⟨defined, owns, -⟩ := fresh n listed
    exact ⟨owns, defined, owns.2⟩
  obtain ⟨packaged, ⟨coded, written⟩, settled⟩ :=
    (placeAll_writes regular.inherits closed own).ok stands.packaged done
  rw [stands.trace_eq] at written
  have idle : s'.trace.busy = [] := written.busy_eq.trans resting.idle
  -- The order is that of the references, so the two lists are equal only up to a permutation.
  have same : ∀ n, n ∈ coded ↔ n ∈ types := by
    intro n
    constructor
    · intro listed
      obtain ⟨owns, defined, -⟩ := written.owned n listed
      rcases rest n defined (owns_of_marshalling owns).2 with asked | earlier
      · exact asked
      · exact absurd earlier (written.fresh n listed).1
    · intro asked
      obtain ⟨-, owns, unmarshalled⟩ := fresh n asked
      have expects : ctx.Expects unit .marshalling n :=
        ⟨owns, by rw [regular.unconfigured, Tree.isOutside_nil, owns.2]⟩
      rcases settled n asked expects with encoded | busy
      · exact (written.mem_done.mp encoded).resolve_right unmarshalled
      · simp [idle] at busy
  refine ⟨coded, (List.perm_ext_iff_of_nodup written.distinct distinct).mpr same, packaged, ?_⟩
  have declared : s'.trace.declared = τ.declared := by
    rw [written.declared_eq, List.filter_eq_nil_iff.mpr (by simp [awaitsMarshalling]), List.append_nil]
  exact Trace.ext written.other_eq written.done_eq written.busy_eq declared written.parts_eq

theorem marshalling_emits (here : s.trace.cleared = τ)
    (done : marshalling ctx unit name types s = .ok artifacts s') :
    (∃ marshalled, s'.trace.cleared = { τ with marshalDefined := marshalled } ∧
      ∀ n, n ∈ marshalled ↔ n ∈ types ∨ n ∈ τ.marshalDefined) ∧
    ∀ part, standing unit artifacts part =
      List.replicate ((types.map fun n => (Part.profiles, n)).count part) (unit, .marshalSpec) ++
        List.replicate ((types.map fun n => (Part.codec, n)).count part) (unit, .marshalBody) := by
  subst here
  obtain ⟨profiled, specs, between, filled, bodies, written, packed, encoded, packedBodies, rfl⟩ :=
    marshalling_ok done
  have profiledStands := placeAll_profiles regular (opening_stands unit rfl)
    (fun n listed => (fresh n listed).2.1) written
  obtain ⟨same, specStanding⟩ := packed.standing regular.inherits profiledStands.packaged
  rw [profiledStands.trace_eq] at same specStanding
  have reopened : Stands ctx unit s.trace.cleared (opening ctx unit between) :=
    opening_stands unit (by rw [same]; rfl)
  obtain ⟨coded, perm, filledStands⟩ := placeAll_marshalBody regular resting distinct fresh rest reopened encoded
  obtain ⟨sameLast, bodyStanding⟩ := packedBodies.standing regular.inherits filledStands.packaged
  rw [filledStands.trace_eq] at sameLast bodyStanding
  refine ⟨⟨coded.reverse ++ s.trace.marshalDefined, by rw [sameLast]; rfl, ?_⟩, ?_⟩
  · intro n
    rw [List.mem_append, List.mem_reverse, perm.mem_iff]
    rfl
  · intro part
    have codecs := (perm.map fun n => (Part.codec, n)).count_eq part
    rw [standing_append, specStanding part, bodyStanding part, ← codecs]
    rfl

end Marshalling

end Emit

end AdaStubs
