import AdaStubs.Generation
import AdaStubs.Proofs.Emission.External

/-!
# The phases of a generation

What a successful generation consists of, artifact by artifact: the states between which the items of each
artifact were written, and the state in which the artifact was put together.
-/

namespace AdaStubs.Emit

open Ada Run

variable {ctx : Context} {unit : Nat} {name : String} {s s' : Session}

/-- The session at the start of an artifact. -/
abbrev opening (ctx : Context) (unit : Nat) (s : Session) : Session :=
  s.turnTo (initialDeps ctx.settings unit)

/-- Writes for each of `nodes` what `write` gives. -/
abbrev placeAll (write : Nat → Emit (List Item)) (nodes : List Nat) : Emit PUnit :=
  nodes.forM fun node => place (write node)

theorem isInterface_iff {node : Nat} : isInterface ctx node = true ↔
    ctx.tree.hasKind Kind.isUnit node = true ∧ ctx.tree.hasKind Kind.isDeclared node = true := by
  unfold isInterface Tree.hasKind
  cases ctx.tree.kind? node with
  | none => simp
  | some kind => cases kind <;> simp [Kind.isUnit, Kind.isDeclared]

theorem isInterface_root (wf : ctx.tree.WellFormed) : isInterface ctx Tree.root = false := by
  obtain ⟨node, found, -, kind⟩ := wf.root_node
  rw [isInterface, Tree.hasKind_eq found, kind]

theorem package_ok {kind : ArtifactKind} {items hidden : List Item} {artifact : Artifact}
    (done : package ctx kind name items hidden s = .ok artifact s') :
    ∃ clauses, contextClauses ctx name (kind.unitName name) s = .ok clauses s' ∧
      artifact = ⟨kind, name, .package clauses items hidden, s'.deps⟩ := by
  unfold package at done
  obtain ⟨clauses, middle, first, rest⟩ := bind_eq_ok.mp done
  cases rest
  exact ⟨clauses, first, rfl⟩

section

variable {c : Conduct Session} (lawful : c.Lawful) (wf : ctx.tree.WellFormed)
  (names : ∀ {node}, ctx.tree.hasKind Kind.isUnit node = true → (fullName ctx node).Follows c [])
include lawful wf names

theorem packageName_follows {node : Nat} (fits : Fits ctx c (fun _ => true) node) :
    (packageName ctx node).Follows c [] := by
  unfold packageName
  exact kindOf_follows lawful fits fun _ _ _ => names (wf.isUnit_packageOf node)

theorem contextClauses_follows (unit artifact : String)
    (entries : ∀ {s}, c.holds s → ∀ {a : Aspect} {e}, e ∈ a.recorded s.deps → Fits ctx c (fun _ => true) e) :
    (contextClauses ctx unit artifact).Follows c [] := by
  unfold contextClauses
  apply Follows.getThen
  intro s holds
  apply Follows.seq lawful
  · apply Follows.foldlM lawful
    intro clauses node listed
    have named := packageName_follows lawful wf names (entries holds (a := .declaration) listed)
    exact .seq lawful named fun _ => .pure lawful _
  · intro types
    apply Follows.seq lawful _ fun _ => Follows.pure lawful _
    apply Follows.foldlM lawful
    intro clauses node listed
    have named := packageName_follows lawful wf names (entries holds (a := .marshalling) listed)
    exact .seq lawful named fun _ => .pure lawful _

theorem package_follows (kind : ArtifactKind) (items hidden : List Item)
    (entries : ∀ {s}, c.holds s → ∀ {a : Aspect} {e}, e ∈ a.recorded s.deps → Fits ctx c (fun _ => true) e) :
    (package ctx kind name items hidden).Follows c [] := by
  unfold package
  refine .seq lawful (contextClauses_follows lawful wf names _ _ entries) fun clauses => ?_
  exact .seq lawful (.get lawful) fun _ => .pure lawful _

end

/-- The artifact is that of the items hoisted so far, if there are any. -/
def Packed (ctx : Context) (kind : ArtifactKind) (name : String) (filled : Session)
    (artifacts : List Artifact) (s' : Session) : Prop :=
  artifacts = [] ∧ filled.hoisted = [] ∧ s' = filled ∨
    ∃ artifact, artifacts = [artifact] ∧ package ctx kind name filled.hoisted [] filled = .ok artifact s'

theorem packageOfEach_ok {kind : ArtifactKind} {write : Nat → Emit (List Item)} {nodes : List Nat}
    {artifacts : List Artifact} (done : packageOfEach ctx kind name write nodes s = .ok artifacts s') :
    ∃ filled, placeAll write nodes s = .ok ⟨⟩ filled ∧ Packed ctx kind name filled artifacts s' := by
  unfold packageOfEach at done
  obtain ⟨_, filled, first, rest⟩ := bind_eq_ok.mp done
  refine ⟨filled, first, ?_⟩
  rw [bind_of_ok (get_apply filled)] at rest
  cases empty : filled.hoisted with
  | nil =>
    rw [empty] at rest
    cases rest
    exact .inl ⟨rfl, empty, rfl⟩
  | cons item items =>
    rw [empty] at rest
    obtain ⟨artifact, last, made, returned⟩ := bind_eq_ok.mp rest
    cases returned
    exact .inr ⟨artifact, rfl, empty ▸ made⟩

theorem ownMembers_ok {members : List Nat} (done : ownMembers ctx unit s = .ok members s') :
    s' = s ∧ ∃ own : Nat → Bool, members = (ctx.tree.members unit).filter own ∧
      ∀ m ∈ ctx.tree.members unit, own m = true ↔ ctx.tree.hasKind Kind.isUnit m = false ∧
        ¬ Dependencies.Reaches ctx.tree s.deps.unit s.deps.imports m := by
  classical
  unfold ownMembers at done
  rw [bind_of_ok (get_apply s)] at done
  let own (m : Nat) : Bool := decide (ctx.tree.hasKind Kind.isUnit m = false ∧
    ¬ Dependencies.Reaches ctx.tree s.deps.unit s.deps.imports m)
  have test : ∀ m ∈ ctx.tree.members unit, ∀ {b middle}, (do
      if ctx.tree.hasKind Kind.isUnit m then return false
      return !(← s.deps.isImported ctx.tree m) : Emit Bool) s = .ok b middle →
        middle = s ∧ b = own m := by
    intro m _ b middle tested
    cases isUnit : ctx.tree.hasKind Kind.isUnit m with
    | true =>
      rw [isUnit] at tested
      cases tested
      exact ⟨rfl, by simp [own, isUnit]⟩
    | false =>
      rw [isUnit] at tested
      obtain ⟨imported, unmoved, decided, last⟩ := bind_eq_ok.mp tested
      obtain ⟨still, decision⟩ := isImported_run (a := .declaration) decided
      cases last
      refine ⟨still, ?_⟩
      have same : imported = true ↔ Dependencies.Reaches ctx.tree s.deps.unit s.deps.imports m := decision
      by_cases reached : Dependencies.Reaches ctx.tree s.deps.unit s.deps.imports m
      · simp [own, reached, same.mpr reached]
      · have unimported : imported = false := by simpa using fun found => reached (same.mp found)
        simp [own, isUnit, reached, unimported]
  obtain ⟨same, kept⟩ := filterM_run test done
  exact ⟨same, own, kept, fun m _ => by simp [own]⟩

theorem declared_of_ownMembers (wf : ctx.tree.WellFormed) (isUnit : ctx.tree.hasKind Kind.isUnit unit = true)
    {members : List Nat} (done : ownMembers ctx unit s = .ok members s') :
    ∀ m ∈ members, ctx.tree.hasKind Kind.isDeclared m = true ∧ ctx.tree.packageOf m = unit := by
  intro m among
  obtain ⟨-, own, rfl, decision⟩ := ownMembers_ok done
  obtain ⟨listed, chosen⟩ := List.mem_filter.mp among
  exact wf.declared_in_unit isUnit listed ((decision m listed).mp chosen).1

theorem specification_ok {artifacts : List Artifact} {declared : List Nat}
    (done : specification ctx unit name s = .ok (artifacts, declared) s') :
    ∃ opened members filled, declareReferences ctx unit (opening ctx unit s) = .ok () opened ∧
      ownMembers ctx unit opened = .ok members opened ∧
      placeAll (declaration ctx) (members.flatMap ctx.tree.innerFirst) opened = .ok ⟨⟩ filled ∧
      declared = filled.declared ∧ Packed ctx .spec name { filled with declared := [] } artifacts s' := by
  unfold specification beginArtifact at done
  rw [bind_of_ok (modify_apply _ s)] at done
  obtain ⟨_, opened, first, rest⟩ := bind_eq_ok.mp done
  obtain ⟨members, same, listed, later⟩ := bind_eq_ok.mp rest
  have unmoved := (ownMembers_ok listed).1
  subst unmoved
  obtain ⟨_, filled, written, taking⟩ := bind_eq_ok.mp later
  obtain ⟨types, taken, take, packing⟩ := bind_eq_ok.mp taking
  cases take
  rw [bind_of_ok (get_apply _)] at packing
  refine ⟨_, members, filled, first, listed, written, ?_⟩
  split at packing
  · next empty =>
    cases packing
    simp only [Bool.and_eq_true, List.isEmpty_iff] at empty
    exact ⟨rfl, .inl ⟨rfl, empty.2, rfl⟩⟩
  · obtain ⟨artifact, last, made, returned⟩ := bind_eq_ok.mp packing
    cases returned
    exact ⟨rfl, .inr ⟨artifact, rfl, made⟩⟩

/-- Any unit but the root package has a specification, also where that is empty. -/
theorem specification_nonempty (inner : unit ≠ Tree.root) :
    (specification ctx unit name).Returns fun made => made.1 ≠ [] := by
  unfold specification
  repeat refine Returns.bind fun _ => ?_
  simp only [beq_eq_false_iff_ne.mpr inner, Bool.false_and, Bool.false_eq_true, if_false]
  exact Returns.bind fun _ => Returns.pure (by simp)

theorem packageBody_ok {artifacts : List Artifact} (done : packageBody ctx unit name s = .ok artifacts s') :
    ∃ members filled, ownMembers ctx unit (opening ctx unit s) = .ok members (opening ctx unit s) ∧
      placeAll (body ctx) (if isInterface ctx unit then unit :: members else members)
        (opening ctx unit s) = .ok ⟨⟩ filled ∧
      Packed ctx .body name filled artifacts s' := by
  unfold packageBody beginArtifact at done
  rw [bind_of_ok (modify_apply _ s)] at done
  obtain ⟨members, same, listed, rest⟩ := bind_eq_ok.mp done
  obtain ⟨rfl, -⟩ := ownMembers_ok listed
  obtain ⟨filled, written, packed⟩ := packageOfEach_ok rest
  exact ⟨members, filled, listed, written, packed⟩

theorem marshalling_ok {declared : List Nat} {artifacts : List Artifact}
    (done : marshalling ctx unit name declared s = .ok artifacts s') :
    ∃ profiled specs between coded bodies,
      placeAll (marshalProfiles ctx) declared (opening ctx unit s) = .ok ⟨⟩ profiled ∧
      Packed ctx .marshalSpec name profiled specs between ∧
      placeAll (marshalBody ctx) declared (opening ctx unit between) = .ok ⟨⟩ coded ∧
      Packed ctx .marshalBody name coded bodies s' ∧ artifacts = specs ++ bodies := by
  unfold marshalling beginArtifact at done
  rw [bind_of_ok (modify_apply _ s)] at done
  obtain ⟨specs, between, first, rest⟩ := bind_eq_ok.mp done
  obtain ⟨profiled, written, packed⟩ := packageOfEach_ok first
  rw [bind_of_ok (modify_apply _ between)] at rest
  obtain ⟨bodies, last, second, returned⟩ := bind_eq_ok.mp rest
  obtain ⟨coded, bodiesWritten, bodiesPacked⟩ := packageOfEach_ok second
  cases returned
  exact ⟨profiled, specs, between, coded, bodies, written, packed, bodiesWritten, bodiesPacked, rfl⟩

/-! ## The children of an interface -/

theorem itemsOfAll_ok {write : Nat → Emit (List Item)} {nodes : List Nat} {items : List Item}
    (done : itemsOfAll write nodes s = .ok items s') :
    ∃ parts, nodes.mapM write s = .ok parts s' ∧ items = s'.hoisted ++ parts.flatten := by
  unfold itemsOfAll at done
  obtain ⟨parts, written, first, rest⟩ := bind_eq_ok.mp done
  cases rest
  exact ⟨parts, first, rfl⟩

theorem proxies_ok {artifacts : List Artifact} (done : proxies ctx unit name s = .ok artifacts s') :
    operationsOf ctx unit = [] ∧ artifacts = [] ∧ s' = s ∨ ∃ parts described spec between bodies written body,
      (operationsOf ctx unit).mapM (descriptors ctx) (opening ctx unit s) = .ok parts described ∧
      package ctx .proxiesSpec name (described.hoisted ++ parts.flatMap (·.1)) (parts.flatMap (·.2))
        described = .ok spec between ∧
      (operationsOf ctx unit).mapM (descriptorBodies ctx) (opening ctx unit between) = .ok bodies written ∧
      package ctx .proxiesBody name (written.hoisted ++ bodies.flatten) [] written = .ok body s' ∧
      artifacts = [spec, body] := by
  unfold proxies beginArtifact at done
  split at done
  · next none =>
    cases done
    exact .inl ⟨List.isEmpty_iff.mp none, rfl, rfl⟩
  · right
    rw [bind_of_ok (modify_apply _ s)] at done
    obtain ⟨parts, described, first, rest⟩ := bind_eq_ok.mp done
    rw [bind_of_ok (get_apply _)] at rest
    obtain ⟨spec, between, made, later⟩ := bind_eq_ok.mp rest
    rw [bind_of_ok (modify_apply _ between)] at later
    obtain ⟨items, written, second, last⟩ := bind_eq_ok.mp later
    obtain ⟨bodies, listed, rfl⟩ := itemsOfAll_ok second
    obtain ⟨body, final, packed, returned⟩ := bind_eq_ok.mp last
    cases returned
    exact ⟨parts, described, spec, between, bodies, written, body, first, made, listed, packed, rfl⟩

theorem implementation_ok {artifacts : List Artifact}
    (done : implementation ctx unit name s = .ok artifacts s') :
    artifacts = [] ∧ s' = s ∨ ∃ parent extended declarations served spec between,
      servantParent ctx unit (opening ctx unit s) = .ok parent extended ∧
      (operationsOf ctx unit).mapM (servants ctx) extended = .ok declarations served ∧
      package ctx .implSpec name (served.hoisted ++ .stub unit (.servantType parent) :: declarations.flatten)
        [.stub unit (.servantRecord parent)] served = .ok spec between ∧
      (artifacts = [spec] ∧ s' = between ∨ ∃ bodies written body,
        (operationsOf ctx unit).mapM (servantBodies ctx) (opening ctx unit between) = .ok bodies written ∧
        package ctx .implBody name (written.hoisted ++ bodies.flatten) [] written = .ok body s' ∧
        artifacts = [spec, body]) := by
  unfold implementation beginArtifact at done
  split at done
  · cases done
    exact .inl ⟨rfl, rfl⟩
  · right
    rw [bind_of_ok (modify_apply _ s)] at done
    obtain ⟨parent, extended, first, rest⟩ := bind_eq_ok.mp done
    obtain ⟨declarations, served, second, later⟩ := bind_eq_ok.mp rest
    rw [bind_of_ok (get_apply _)] at later
    obtain ⟨spec, between, made, last⟩ := bind_eq_ok.mp later
    refine ⟨parent, extended, declarations, served, spec, between, first, second, made, ?_⟩
    split at last
    · cases last
      exact .inl ⟨rfl, rfl⟩
    · right
      rw [bind_of_ok (modify_apply _ between)] at last
      obtain ⟨items, written, third, packing⟩ := bind_eq_ok.mp last
      obtain ⟨bodies, listed, rfl⟩ := itemsOfAll_ok third
      obtain ⟨body, final, packed, returned⟩ := bind_eq_ok.mp packing
      cases returned
      exact ⟨bodies, written, body, listed, packed, rfl⟩

theorem skeleton_ok {artifacts : List Artifact} (done : skeleton ctx unit name s = .ok artifacts s') :
    artifacts = [] ∧ s' = s ∨ ∃ entries,
      (operationsOf ctx unit).mapM (dispatchEntries ctx) s = .ok entries s' ∧
      artifacts = [⟨.skeleton, name, .dispatcher entries.flatten, .ofUnit unit⟩] := by
  unfold skeleton at done
  split at done
  · cases done
    exact .inl ⟨rfl, rfl⟩
  · obtain ⟨entries, written, first, rest⟩ := bind_eq_ok.mp done
    cases rest
    exact .inr ⟨entries, first, rfl⟩

theorem interfaceChildren_ok {artifacts : List Artifact}
    (done : interfaceChildren ctx unit name s = .ok artifacts s') :
    ∃ stubs stubbed servants served dispatcher, proxies ctx unit name s = .ok stubs stubbed ∧
      implementation ctx unit name stubbed = .ok servants served ∧
      skeleton ctx unit name served = .ok dispatcher s' ∧ artifacts = stubs ++ servants ++ dispatcher := by
  unfold interfaceChildren at done
  obtain ⟨stubs, stubbed, first, rest⟩ := bind_eq_ok.mp done
  obtain ⟨servants, served, second, later⟩ := bind_eq_ok.mp rest
  obtain ⟨dispatcher, last, third, returned⟩ := bind_eq_ok.mp later
  cases returned
  exact ⟨stubs, stubbed, servants, served, dispatcher, first, second, third, rfl⟩

/-! ## Units -/

/-- A unit with whatever `others` makes besides the packages that every unit has. -/
def unitWith (ctx : Context) (unit : Nat) (others : String → Emit (List Artifact)) : Emit UnitOutput := do
  let name ← fullName ctx unit
  let (spec, declared) ← specification ctx unit name
  let body ← packageBody ctx unit name
  let marshal ← marshalling ctx unit name declared
  let more ← others name
  return ⟨unit, name, spec ++ body ++ marshal ++ more⟩

theorem generateUnit_eq_unitWith (ctx : Context) (unit : Nat) :
    generateUnit ctx unit = unitWith ctx unit (children ctx unit) := rfl

theorem unitWith_ok {others : String → Emit (List Artifact)} {output : UnitOutput}
    (done : unitWith ctx unit others s = .ok output s') :
    ∃ named specs declared specified bodies bodied codecs coded rest,
      fullName ctx unit s = .ok output.name named ∧
      specification ctx unit output.name named = .ok (specs, declared) specified ∧
      packageBody ctx unit output.name specified = .ok bodies bodied ∧
      marshalling ctx unit output.name declared bodied = .ok codecs coded ∧
      others output.name coded = .ok rest s' ∧
      output.node = unit ∧ output.artifacts = specs ++ bodies ++ codecs ++ rest := by
  unfold unitWith at done
  obtain ⟨name, named, first, rest⟩ := bind_eq_ok.mp done
  obtain ⟨⟨specs, declared⟩, specified, second, later⟩ := bind_eq_ok.mp rest
  obtain ⟨bodies, bodied, third, further⟩ := bind_eq_ok.mp later
  obtain ⟨codecs, coded, fourth, last⟩ := bind_eq_ok.mp further
  obtain ⟨more, final, fifth, returned⟩ := bind_eq_ok.mp last
  cases returned
  exact ⟨named, specs, declared, specified, bodies, bodied, codecs, coded, more, first, second, third,
    fourth, fifth, rfl, rfl⟩

theorem generateUnit_ok {output : UnitOutput} (done : generateUnit ctx unit s = .ok output s') :
    ∃ named specs declared specified bodies bodied codecs coded rest,
      fullName ctx unit s = .ok output.name named ∧
      specification ctx unit output.name named = .ok (specs, declared) specified ∧
      packageBody ctx unit output.name specified = .ok bodies bodied ∧
      marshalling ctx unit output.name declared bodied = .ok codecs coded ∧
      children ctx unit output.name coded = .ok rest s' ∧
      output.node = unit ∧ output.artifacts = specs ++ bodies ++ codecs ++ rest :=
  unitWith_ok done

end AdaStubs.Emit

namespace AdaStubs

open Emit Run

theorem generate_ok {ctx : Context} {outputs : List UnitOutput} (done : generate ctx = .ok outputs) :
    ∃ all last, (ctx.tree.units Tree.root).mapM (generateUnit ctx) Session.start = .ok all last ∧
      outputs = all.filter (!·.artifacts.isEmpty) := by
  unfold generate at done
  split at done
  · cases done
  · split at done
    · next generated last run =>
      cases done
      unfold generateUnits at run
      obtain ⟨all, final, each, returned⟩ := bind_eq_ok.mp run
      cases returned
      exact ⟨all, _, each, rfl⟩
    · cases done

theorem mem_ids_of_imports {ctx : Context} (known : ctx.unknownImport? = none) :
    ∀ e ∈ ctx.settings.imports, e ∈ ctx.tree.ids := by
  intro e listed
  have present := List.find?_eq_none.mp known e listed
  obtain ⟨node, found⟩ := Option.ne_none_iff_exists'.mp (by simpa using present)
  exact Tree.mem_ids_of_kind? (Tree.kind?_eq found)

/-- What can be checked on the outputs of a generation that succeeds. -/
theorem exists_outputs {ctx : Context} {P : List UnitOutput → Prop} [DecidablePred P]
    (check : (match generate ctx with
      | .ok outputs => decide (P outputs)
      | .error _ => false) = true) : ∃ outputs, generate ctx = .ok outputs ∧ P outputs := by
  split at check
  · next outputs done => exact ⟨outputs, done, of_decide_eq_true check⟩
  · cases check

end AdaStubs
