import AdaStubs.Proofs.Ada.Identifiers
import AdaStubs.Proofs.Emission.Advance
import AdaStubs.Proofs.Generation.Clauses
import AdaStubs.Proofs.Generation.DeclarationOrder
import AdaStubs.Proofs.Idl.Listings
import AdaStubs.Proofs.Naming.Qualified

/-!
# Identifiers of a specification

The identifiers that a specification introduces for its declarations come from the namespace of the package and
never meet. The namespace knows nothing of those that are derived from them, though, so one of the latter may be
one of the former.

Main statement: `identifiers_nodup_iff`.
-/

namespace AdaStubs

open Ada Run

/-! ## Whose names they are -/

/-- Declarations that go by their name in the package around them. -/
def Kind.isNamed : Kind → Bool
  | .struct | .exception | .union _ | .enum | .sequence _ _ | .string (some _) _ | .fixed _ _ | .array _ _
  | .typedef _ | .constant _ _ => true
  | _ => false

namespace Tree

/-- The nodes whose names the declaration of `node` introduces. -/
def bearers (t : Tree) (node : Nat) : List Nat :=
  match t.kind? node with
  | some .enum => node :: t.members node
  | some kind => if kind.isNamed then [node] else []
  | none => []

variable {t : Tree} {node other bearer unit : Nat}

theorem mem_bearers : bearer ∈ t.bearers node ↔ bearer = node ∧ t.hasKind Kind.isNamed node = true ∨
    t.kind? node = some .enum ∧ bearer ∈ t.members node := by
  unfold bearers hasKind
  cases t.kind? node with
  | none => simp
  | some kind =>
    cases kind with
    | string bound wide => cases bound <;> simp [Kind.isNamed]
    | _ => simp [Kind.isNamed]

variable (wf : t.WellFormed)
include wf

theorem WellFormed.bearers_nodup (node : Nat) : (t.bearers node).Nodup := by
  unfold bearers
  split
  · refine List.nodup_cons.mpr ⟨fun listed => ?_, (wf.members_pairwise node).imp Nat.ne_of_lt⟩
    obtain ⟨-, present, -, found, inside, -⟩ := wf.member_inside listed
    exact Nat.lt_irrefl _ (t.scope_lt found inside)
  · split <;> simp
  · simp

theorem WellFormed.kind?_of_enumerator (isEnum : t.kind? node = some .enum) (listed : bearer ∈ t.members node) :
    ∃ present, t.node? bearer = some present ∧ present.scope = some node ∧ present.kind = .enumerator := by
  obtain ⟨outer, present, around, found, inside, held⟩ := wf.member_inside listed
  rw [kind?_eq around, Option.some.injEq] at isEnum
  refine ⟨present, found, inside, ?_⟩
  rw [isEnum] at held
  cases shape : present.kind <;> simp_all [Kind.mayHold, Kind.isUnit, Kind.holdsTypes]

-- A structure that is put into an enumeration is refused.
example :
    let t := Tree.ofSteps [.module 0 "Bank", .enum 1 "Currency" ["euro", "pound"], .struct 2 "Rate"]
    (t.members 2).map t.kind? = [some .enumerator, some .enumerator] := by
  decide +kernel

/-- No two declarations introduce the name of one node. -/
theorem WellFormed.eq_of_bearer (first : bearer ∈ t.bearers node) (second : bearer ∈ t.bearers other) :
    node = other := by
  have apart {n m : Nat} (named : t.hasKind Kind.isNamed n = true) (isEnum : t.kind? m = some .enum) :
      n ∉ t.members m := by
    intro listed
    obtain ⟨present, found, -, kind⟩ := wf.kind?_of_enumerator isEnum listed
    simp [hasKind_eq found, kind, Kind.isNamed] at named
  rcases mem_bearers.mp first with ⟨rfl, named⟩ | ⟨isEnum, listed⟩ <;>
    rcases mem_bearers.mp second with ⟨same, named'⟩ | ⟨isEnum', listed'⟩
  · exact same
  · exact absurd listed' (apart named isEnum')
  · exact absurd (same ▸ listed) (apart named' isEnum)
  · obtain ⟨present, found, inside, -⟩ := wf.kind?_of_enumerator isEnum listed
    obtain ⟨again, found', inside', -⟩ := wf.kind?_of_enumerator isEnum' listed'
    cases found.symm.trans found'
    exact Option.some.inj (inside.symm.trans inside')

/-- All these names come from the namespace of the package. -/
theorem WellFormed.bearer_shares (home : t.packageOf node = unit) (bears : bearer ∈ t.bearers node) :
    ∃ present, NameTable.Shares t bearer present ∧ t.namespaceOf bearer = unit := by
  rcases mem_bearers.mp bears with ⟨rfl, named⟩ | ⟨isEnum, listed⟩
  · obtain ⟨present, found, kind⟩ := exists_of_hasKind named
    have inner : t.hasKind Kind.isUnit bearer = false := by
      rw [hasKind_eq found]
      cases shape : present.kind <;> simp_all [Kind.isNamed, Kind.isUnit]
    refine ⟨present, ⟨found, ?_, ?_, ?_⟩, ?_⟩
    · rintro rfl
      simp [wf.isUnit_root] at inner
    · cases shape : present.kind <;> simp_all [Kind.isNamed, Kind.isPrimitive]
    · cases shape : present.kind with
      | string bound wide => cases bound <;> simp_all [Kind.isNamed, Kind.runtimeString?]
      | _ => rfl
    · have whole : present.kind.isComponent = false := by
        cases shape : present.kind <;> simp_all [Kind.isNamed, Kind.isComponent]
      rw [namespaceOf_whole found whole, ← home, wf.packageOf_eq, inner, if_neg Bool.false_ne_true]
  · obtain ⟨present, found, inside, kind⟩ := wf.kind?_of_enumerator isEnum listed
    have whole : present.kind.isComponent = false := by rw [kind]; rfl
    refine ⟨present, ⟨found, ?_, by rw [kind]; rfl, by rw [kind]; rfl⟩, ?_⟩
    · rintro rfl
      have root := wf.isUnit_root
      simp [hasKind_eq found, kind, Kind.isUnit] at root
    · rw [namespaceOf_whole found whole, wf.enclosingUnit_of_scope found inside, home]

end Tree

/-! ## Declarations -/

/-- The own names of a declaration for `node`: those of an interface are fixed, others are looked up. -/
def Ada.Declaration.NamedFor (ctx : Context) (node : Nat) (d : Declaration) : Prop :=
  if Emit.isInterface ctx node then d.ownNames = referenceNames
  else (ctx.tree.bearers node).map ctx.localName = d.ownNames.map .ok

section

variable {ctx : Context} {node : Nat} {kind : Kind} {d : Ada.Declaration} {name : String}
  (found : ctx.tree.kind? node = some kind)
include found

theorem Ada.Declaration.namedFor_of_localName (named : kind.isNamed = true) (plain : kind ≠ .enum)
    (own : ctx.localName node = .ok name) (names : d.ownNames = [name]) : d.NamedFor ctx node := by
  unfold NamedFor Emit.isInterface Tree.bearers
  rw [Tree.hasKind, found, names]
  cases kind <;> simp_all [Kind.isNamed]

theorem Ada.Declaration.namedFor_of_none (ordinary : kind.isNamed = false)
    (isInterface : Emit.isInterface ctx node = false) (names : d.ownNames = []) : d.NamedFor ctx node := by
  unfold NamedFor Tree.bearers
  rw [isInterface, found, names]
  cases kind <;> simp_all [Kind.isNamed]

end

namespace Emit

variable {ctx : Context}

section

variable {c : Conduct Session} (allows : Allows ctx c) (rests : ∀ {s}, c.holds s → NameTable.Rests ctx s.names)
  {resolve : Nat → Emit String} {node : Nat}
  (refs : ∀ r ∈ ctx.tree.declarationRefs node, (resolve r).Follows c [r])
include allows rests refs

theorem declare_namedFor : (declare ctx resolve node).Yields c.holds fun given => ∀ d ∈ given, d.NamedFor ctx node := by
  unfold declare
  cases found : ctx.tree.kind? node with
  | none =>
    rw [kindOf_of_none found]
    exact .bind (Q := fun _ => False) .throw fun _ impossible => impossible.elim
  | some kind =>
  rw [kindOf_of_kind found, pure_bind]
  have called {n : Nat} {k : Kind} (known : ctx.tree.kind? n = some k) :
      (localName ctx n).Yields c.holds fun name => ctx.localName n = .ok name :=
    localName_yields allows.wellFormed rests (allows.localNames known)
  have own := called found
  have give {d : Declaration} (named : d.NamedFor ctx node) :
      (pure (some d) : Emit (Option Declaration)).Yields c.holds fun given => ∀ d ∈ given, d.NamedFor ctx node :=
    .pure (by simpa using named)
  have close {d : Declaration} (named : d.NamedFor ctx node) : (do requireDeallocation; return some d :
      Emit (Option Declaration)).Yields c.holds fun given => ∀ d ∈ given, d.NamedFor ctx node :=
    .bind (requireDeallocation_follows allows).yields fun _ _ => give named
  have requires (package : String) := (allows.requires package).yields
  have operations (isOperation : kind.isOperation = true) := (subprograms_follows allows
    (.inl (Tree.hasKind_of_kind found isOperation)) refs).yields
  have bounded {α : Type} (result : Except Error α) :
      (liftM result : Emit α).Yields c.holds fun _ => True := .liftError fun _ _ => trivial
  have plain {d : Declaration} {name : String} (named : kind.isNamed = true) (single : kind ≠ .enum)
      (given : ctx.localName node = .ok name) (names : d.ownNames = [name]) : d.NamedFor ctx node :=
    Declaration.namedFor_of_localName found named single given names
  unfold Tree.declarationRefs at refs
  rw [found] at refs
  cases kind with
  | array dims element =>
    refine .bind own fun name given => .bind (bounded _) fun extents _ => ?_
    exact .bind (refs element List.mem_cons_self).yields fun _ _ => close (plain rfl (by simp) given rfl)
  | struct =>
    refine .bind own fun name given => ?_
    exact .bind (components_follows allows refs).yields fun _ _ => close (plain rfl (by simp) given rfl)
  | exception =>
    refine .bind own fun name given => .bind (components_follows allows refs).yields fun _ _ => ?_
    exact .bind (requires _) fun _ _ => .bind (requires _) fun _ _ => give (plain rfl (by simp) given rfl)
  | union discriminant =>
    refine .bind own fun name given => .bind (refs discriminant List.mem_cons_self).yields fun switch _ => ?_
    refine .bind (variants_follows allows fun r listed => refs r (List.mem_cons_of_mem _ listed)).yields fun _ _ => ?_
    exact close (plain rfl (by simp) given rfl)
  | enum =>
    refine .bind own fun name given => ?_
    have literals : ((ctx.tree.members node).mapM (localName ctx)).Yields c.holds fun names =>
        (ctx.tree.members node).map ctx.localName = names.map .ok := by
      refine .mapM fun member listed => ?_
      obtain ⟨-, present, -, inside, -⟩ := allows.wellFormed.member_inside listed
      exact called (Tree.kind?_eq inside)
    refine .bind literals fun names each => close ?_
    simp [Declaration.NamedFor, isInterface, Tree.hasKind, Tree.bearers, found, Declaration.ownNames, given, each]
  | sequence element bound =>
    refine .bind own fun name given => .bind (refs element List.mem_cons_self).yields fun element _ => ?_
    refine .bind (requires _) fun _ _ => .bind (Q := fun _ => True) ?_ fun _ _ => close (plain rfl (by simp) given rfl)
    cases bound with
    | none => exact .pure trivial
    | some bound =>
      rw [Option.mapM_some, ← bind_pure_comp]
      exact .bind (bounded _) fun _ _ => .pure trivial
  | string bound wide =>
    cases bound with
    | none => exact .pure (by simp)
    | some bound =>
      refine .bind own fun name given => .bind (bounded _) fun _ _ => .bind (requires _) fun _ _ => ?_
      exact close (plain rfl (by simp) given rfl)
  | fixed digits scale => exact .bind own fun name given => close (plain rfl (by simp) given rfl)
  | typedef base =>
    refine .bind (refs base List.mem_cons_self).yields fun base _ => .bind own fun name given => ?_
    exact close (plain rfl (by simp) given rfl)
  | constant type value =>
    refine .bind (refs type List.mem_cons_self).yields fun type _ => ?_
    refine .bind (literal_follows allows found fun e given => Option.mem_toList.mpr given).yields fun value _ => ?_
    exact .bind own fun name given => give (plain rfl (by simp) given rfl)
  | interface bases =>
    refine .bind (parentPackage_follows allows trivial found).yields fun parent _ => .bind (requires _) fun _ _ => ?_
    refine close ?_
    simp [Declaration.NamedFor, isInterface, Tree.hasKind, found, Declaration.ownNames]
  | «attribute» type readonly =>
    refine .bind (operations rfl) fun _ _ => give ?_
    exact Declaration.namedFor_of_none found rfl (by simp [isInterface, Tree.hasKind, found]) rfl
  | operation result oneway raises =>
    refine .bind (operations rfl) fun _ _ => give ?_
    exact Declaration.namedFor_of_none found rfl (by simp [isInterface, Tree.hasKind, found]) rfl
  | module => exact .pure (by simp)
  | primitive p => exact .pure (by simp)
  | _ => exact .throw

end

/-! ## The specification under construction -/

/-- The specification of `unit` has one declaration for each node, and all of them are of its package. -/
structure Tidy (ctx : Context) (unit : Nat) (s : Session) : Prop where
  rests : NameTable.Rests ctx s.names
  unit_eq : s.deps.unit = unit
  items : ∀ item ∈ s.hoisted, ∃ d, item = .declaration item.node d ∧ d.NamedFor ctx item.node ∧
    ctx.tree.packageOf item.node = unit ∧ s.progress.isDefined item.node = true
  distinct : (s.hoisted.map Item.node).Nodup

abbrev tidily (ctx : Context) (unit : Nat) : Conduct Session := .keeping (Tidy ctx unit)

variable {unit : Nat} {s s' : Session}

/-- The form for what places nothing. -/
theorem Tidy.keep (tidy : Tidy ctx unit s) (rests : NameTable.Rests ctx s'.names) (unit_eq : s'.deps.unit = s.deps.unit)
    (hoisted : s'.hoisted = s.hoisted) (marks : ∀ n, s'.progress.isDefined n = s.progress.isDefined n) :
    Tidy ctx unit s' := by
  refine ⟨rests, unit_eq.trans tidy.unit_eq, ?_, hoisted ▸ tidy.distinct⟩
  simpa only [hoisted, marks] using tidy.items

theorem Tidy.add (tidy : Tidy ctx unit s) {node : Nat} (home : ctx.tree.packageOf node = unit)
    (fresh : s.progress.isDefined node = false) {given : Option Declaration}
    (named : ∀ d ∈ given, d.NamedFor ctx node) (declared : List Nat) : Tidy ctx unit { s with
      progress := Aspect.declaration.markDone (s.progress.leave node) node, declared,
      hoisted := s.hoisted ++ (given.map (Item.declaration node)).toList } := by
  have marked (n : Nat) : (Aspect.declaration.markDone (s.progress.leave node) node).isDefined n =
      (s.progress.isDefined n || decide (n = node)) := by
    simp [Aspect.markDone, Progress.isDefined, Progress.markDefined, Progress.leave, Bool.or_comm]
  refine ⟨tidy.rests, tidy.unit_eq, fun item listed => ?_, ?_⟩
  · rw [marked]
    rcases List.mem_append.mp listed with earlier | new
    · obtain ⟨d, shape, named, home, defined⟩ := tidy.items item earlier
      exact ⟨d, shape, named, home, by simp [defined]⟩
    · obtain ⟨d, given, rfl⟩ := Option.map_eq_some_iff.mp (Option.mem_toList.mp new)
      exact ⟨d, rfl, named d given, home, by simp [Item.node]⟩
  · have apart : ∀ item ∈ s.hoisted, item.node ≠ node := by
      rintro item listed rfl
      obtain ⟨-, -, -, -, defined⟩ := tidy.items item listed
      rw [fresh] at defined
      cases defined
    cases given with
    | none => simpa using tidy.distinct
    | some d => simpa [List.nodup_append, Item.node, tidy.distinct] using apart

theorem withNames_tidily {act : NameTable.Lookup String} {result : Except Fault String}
    (answers : NameTable.Answers ctx act result) : (withNames act).Follows (tidily ctx unit) [] := by
  refine .keeping fun tidy done => ?_
  obtain ⟨-, names, rests, rfl⟩ := withNames_answers answers tidy.rests done
  exact tidy.keep rests rfl rfl fun _ => rfl

theorem updateDeps_tidily {f : Dependencies → Dependencies} (same : ∀ d, (f d).unit = d.unit) :
    (updateDeps f).Follows (tidily ctx unit) [] :=
  .modify fun tidy => ⟨tidy.keep tidy.rests (same _) rfl fun _ => rfl, trivial⟩

section

variable (wf : ctx.tree.WellFormed)
include wf

theorem tidy_notes : Notes ctx (tidily ctx unit) where
  lawful := Conduct.keeping_lawful _
  wellFormed := wf
  localNames _ := withNames_tidily (NameTable.localName_run wf _)
  fullNames _ := withNames_tidily (NameTable.fullName_run wf _)
  requires _ := updateDeps_tidily fun _ => rfl
  uses _ := updateDeps_tidily fun _ => rfl
  records a _ := updateDeps_tidily fun _ => by cases a <;> rfl
  mentions _ _ := updateDeps_tidily fun _ => rfl
  marks a _ := .modify fun tidy => ⟨tidy.keep tidy.rests rfl rfl fun _ => by cases a <;> rfl, trivial⟩
  units _ := fits_keeping

theorem tidy_allows : Allows ctx (tidily ctx unit) := by
  apply (tidy_notes wf).allows
  case sizes =>
    intro node dims element found
    refine .keeping fun tidy done => ?_
    obtain ⟨sizes, rfl⟩ := isFixedSize_run done
    exact tidy.keep tidy.rests rfl rfl fun _ => rfl
  case enumerators => exact fun _ _ => fits_keeping
  case bases => exact fun _ _ _ => ⟨updateDeps_tidily fun _ => rfl, withNames_tidily (NameTable.fullName_run wf _)⟩
  case bounds => exact fun _ _ => trivial

/-- The step: a declaration is placed after those that were placed while it was under way, which are of other
nodes. -/
theorem place_tidily {resolve : Nat → Emit String} {node : Nat} (home : ctx.tree.packageOf node = unit)
    (refs : ∀ r, (resolve r).Follows (tidily ctx unit) [])
    (advances : ∀ r, (resolve r).Follows (advancing ctx) []) :
    (place (produce ctx .declaration resolve node)).Follows (tidily ctx unit) [] := by
  refine .keeping fun {s _ s'} tidy done => ?_
  obtain ⟨items, written, produced, rfl⟩ := place_ok done
  rcases produce_ok produced with ⟨-, rfl, rfl⟩ | ⟨undone, -, inner, run, rfl⟩
  · simpa using tidy
  have allows : Allows ctx (tidily ctx unit) := tidy_allows wf
  have entered : Tidy ctx unit { s with progress := s.progress.enter node } :=
    tidy.keep tidy.rests rfl rfl fun _ => rfl
  have settled : ∀ r ∈ ctx.tree.declarationRefs node, (resolve r).Follows (tidily ctx unit) [r] :=
    fun r _ => (refs r).settle fun _ _ => trivial
  have item : (Aspect.declaration.item ctx resolve node).Follows (advancing ctx) _ :=
    item_follows (advancing_allows wf) (.inr fun _ => trivial) trivial fun r _ => (advances r).settle fun _ _ => trivial
  have moved := follows_along_iff.mp item { s with progress := s.progress.enter node }
  rw [final_of_ok run] at moved
  have fresh : inner.progress.isDefined node = false := moved.undone undone
  obtain ⟨given, last, declared, returned⟩ := bind_eq_ok.mp run
  cases returned
  obtain ⟨named, inside⟩ := declare_namedFor allows (·.rests) settled entered declared
  exact inside.add home fresh named _

/-- The run: a reference places what it has to in the same way. -/
theorem nameWithin_tidily (depth node : Nat) :
    (nameWithin ctx .declaration depth node).Follows (tidily ctx unit) [] := by
  have notes : Notes ctx (tidily ctx unit) := tidy_notes wf
  induction depth generalizing node with
  | zero => exact .throw notes.lawful trivial
  | succ depth ih =>
    apply refer_follows notes (tidy_allows wf)
    · exact expectType_follows notes.lawful fits_keeping fun _ _ => trivial
    · intro _ s seen tidy sighting
      cases sighting with
      | own found ordinary unreached home =>
        exact place_tidily wf (home.trans tidy.unit_eq) ih (nameWithin_advances wf .declaration depth)

theorem placeAll_tidily {nodes : List Nat} (home : ∀ node ∈ nodes, ctx.tree.packageOf node = unit) :
    (placeAll (declaration ctx) nodes).Follows (tidily ctx unit) [] := by
  have each : ∀ node ∈ nodes, (place (declaration ctx node)).Follows (tidily ctx unit) [] := fun node listed =>
    place_tidily wf (home node listed) (nameWithin_tidily wf _) (nameWithin_advances wf .declaration _)
  exact (Follows.forM (Conduct.keeping_lawful _) each).weaken (by simp)

theorem specification_tidy (isUnit : ctx.tree.hasKind Kind.isUnit unit = true) (rests : NameTable.Rests ctx s.names)
    {name : String} {artifacts : List Artifact} {declared : List Nat}
    (done : specification ctx unit name s = .ok (artifacts, declared) s') :
    ∀ a ∈ artifacts, ∃ filled, Tidy ctx unit filled ∧ a.items = filled.hoisted := by
  obtain ⟨opened, members, filled, first, listed, written, -, packed⟩ := specification_ok done
  have start : Tidy ctx unit (opening ctx unit s) :=
    ⟨rests, (initialDeps_backed ctx.tree ctx.settings unit).unit_eq, nofun, List.nodup_nil⟩
  have openedTidy : Tidy ctx unit opened := by
    unfold declareReferences at first
    split at first
    · have placed : (place (declaration ctx unit)).Follows (tidily ctx unit) [] :=
        place_tidily wf (wf.packageOf_unit isUnit) (nameWithin_tidily wf _) (nameWithin_advances wf .declaration _)
      exact (placed.ok start first).1
    · cases first
      exact start
  have home : ∀ node ∈ members.flatMap ctx.tree.innerFirst, ctx.tree.packageOf node = unit := by
    intro node among
    obtain ⟨member, own, within⟩ := List.mem_flatMap.mp among
    obtain ⟨isDeclared, package⟩ := declared_of_ownMembers wf isUnit listed member own
    exact (wf.isDeclared_of_mem_innerFirst isDeclared within).2.trans package
  have filledTidy := ((placeAll_tidily wf home).ok openedTidy written).1
  intro a among
  rcases packed with ⟨rfl, -⟩ | ⟨artifact, rfl, made⟩
  · cases among
  obtain ⟨clauses, -, rfl⟩ := package_ok made
  cases List.mem_singleton.mp among
  exact ⟨filled, filledTidy, List.append_nil _⟩

end

end Emit

/-! ## Own names never meet -/

section

variable {ctx : Context} (wf : ctx.tree.WellFormed) {unit node other : Nat} {d d' : Declaration}
include wf

theorem bearer_eq_of_fold {bearer bearer' : Nat} {name name' : String} (home : ctx.tree.packageOf node = unit)
    (home' : ctx.tree.packageOf other = unit) (bears : bearer ∈ ctx.tree.bearers node)
    (bears' : bearer' ∈ ctx.tree.bearers other) (called : ctx.localName bearer = .ok name)
    (called' : ctx.localName bearer' = .ok name') (same : fold name = fold name') : bearer = bearer' := by
  obtain ⟨present, shares, inside⟩ := wf.bearer_shares home bears
  obtain ⟨present', shares', inside'⟩ := wf.bearer_shares home' bears'
  rw [Context.localName, NameTable.outcome_alone (NameTable.localName_run wf _)] at called called'
  exact shares.eq_of_fold wf shares' (inside.trans inside'.symm) called called' same

theorem bearer_not_reference {bearer : Nat} {name : String} (isInterface : Emit.isInterface ctx unit = true)
    (home : ctx.tree.packageOf node = unit) (bears : bearer ∈ ctx.tree.bearers node)
    (called : ctx.localName bearer = .ok name) : fold name ∉ referenceNames.map fold := by
  obtain ⟨present, shares, inside⟩ := wf.bearer_shares home bears
  rw [Context.localName, NameTable.outcome_alone (NameTable.localName_run wf _)] at called
  have apart := Namespace.assign_apart wf ctx.settings.placeholder (ctx.tree.namespaceOf bearer)
  have free := apart.name_not_seed (shares.lives.name?_of_result called)
  rw [inside] at free
  have seeded : referenceNames ⊆ ctx.tree.seeds unit := by
    obtain ⟨top, found, kind⟩ := Tree.exists_of_hasKind isInterface
    rw [Tree.seeds, Tree.kind?_eq found]
    cases shape : top.kind <;> simp_all [Kind.seeds, referenceNames]
  exact fun listed => free (List.map_subset fold seeded listed)

namespace Ada.Declaration

omit wf in
theorem NamedFor.exists_bearer (named : d.NamedFor ctx node) (plain : Emit.isInterface ctx node = false) {name : String}
    (listed : name ∈ d.ownNames) : ∃ bearer ∈ ctx.tree.bearers node, ctx.localName bearer = .ok name := by
  rw [NamedFor, plain, if_neg Bool.false_ne_true] at named
  exact List.mem_map.mp (named ▸ List.mem_map_of_mem listed)

theorem NamedFor.ownNames_nodup (named : d.NamedFor ctx node) (home : ctx.tree.packageOf node = unit) :
    (d.ownNames.map fold).Nodup := by
  unfold NamedFor at named
  split at named
  · rw [named]
    exact nodup_map_fold (by decide)
  · have apart : ((ctx.tree.bearers node).map ctx.localName).Pairwise fun result result' => ∀ name name',
        result = .ok name → result' = .ok name' → fold name ≠ fold name' := by
      refine List.pairwise_map.mpr ((wf.bearers_nodup node).imp_of_mem fun bears bears' differ => ?_)
      exact fun name name' called called' same =>
        differ (bearer_eq_of_fold wf home home bears bears' called called' same)
    rw [named, List.pairwise_map] at apart
    exact List.pairwise_map.mpr (apart.imp fun differ => differ _ _ rfl rfl)

theorem NamedFor.disjoint (named : d.NamedFor ctx node) (named' : d'.NamedFor ctx other)
    (home : ctx.tree.packageOf node = unit) (home' : ctx.tree.packageOf other = unit) (differ : node ≠ other) :
    List.Disjoint (d.ownNames.map fold) (d'.ownNames.map fold) := by
  have whole {n : Nat} (isInterface : Emit.isInterface ctx n = true) : ctx.tree.packageOf n = n :=
    wf.packageOf_unit (Emit.isInterface_iff.mp isInterface).1
  intro text first second
  obtain ⟨name, listed, rfl⟩ := List.mem_map.mp first
  obtain ⟨name', listed', same⟩ := List.mem_map.mp second
  cases isInterface : Emit.isInterface ctx node with
  | true =>
    rw [whole isInterface] at home
    subst home
    cases isInterface' : Emit.isInterface ctx other with
    | true => exact differ (home'.symm.trans (whole isInterface'))
    | false =>
      rw [NamedFor, isInterface, if_pos rfl] at named
      obtain ⟨bearer, bears, called⟩ := named'.exists_bearer isInterface' listed'
      exact bearer_not_reference wf isInterface home' bears called (same ▸ named ▸ List.mem_map_of_mem listed)
  | false =>
    obtain ⟨bearer, bears, called⟩ := named.exists_bearer isInterface listed
    cases isInterface' : Emit.isInterface ctx other with
    | true =>
      rw [whole isInterface'] at home'
      subst home'
      rw [NamedFor, isInterface', if_pos rfl] at named'
      exact bearer_not_reference wf isInterface' home bears called (same ▸ named' ▸ List.mem_map_of_mem listed')
    | false =>
      obtain ⟨bearer', bears', called'⟩ := named'.exists_bearer isInterface' listed'
      have one := bearer_eq_of_fold wf home home' bears bears' called called' same.symm
      exact differ (wf.eq_of_bearer bears (one ▸ bears'))

end Ada.Declaration

end

/-- The declarations of an artifact, in the order of its text. -/
def Artifact.declarations (a : Artifact) : List Declaration := a.items.filterMap Item.declaration?

theorem Emit.Tidy.ownNames_nodup {ctx : Context} (wf : ctx.tree.WellFormed) {unit : Nat} {s : Session}
    (tidy : Tidy ctx unit s) :
    (((s.hoisted.filterMap Item.declaration?).flatMap Declaration.ownNames).map fold).Nodup := by
  have declared {item : Item} {d : Declaration} (listed : item ∈ s.hoisted) (given : item.declaration? = some d) :
      d.NamedFor ctx item.node ∧ ctx.tree.packageOf item.node = unit := by
    obtain ⟨d', shape, named, home, -⟩ := tidy.items item listed
    rw [shape] at given
    cases given
    exact ⟨named, home⟩
  rw [List.map_flatMap, List.nodup_flatMap]
  constructor
  · intro d among
    obtain ⟨item, listed, given⟩ := List.mem_filterMap.mp among
    obtain ⟨named, home⟩ := declared listed given
    exact named.ownNames_nodup wf home
  · refine List.pairwise_filterMap.mpr ((List.pairwise_map.mp tidy.distinct).imp_of_mem ?_)
    intro item item' listed listed' differ d given d' given'
    obtain ⟨named, home⟩ := declared listed given
    obtain ⟨named', home'⟩ := declared listed' given'
    exact named.disjoint wf named' home home' differ

theorem Emit.generateUnit_tidy {ctx : Context} (wf : ctx.tree.WellFormed) {unit : Nat}
    (isUnit : ctx.tree.hasKind Kind.isUnit unit = true) {s s' : Session} (rests : NameTable.Rests ctx s.names)
    {output : UnitOutput} (done : generateUnit ctx unit s = .ok output s') :
    ∀ a ∈ output.artifacts, a.kind = .spec → ∃ filled, Tidy ctx unit filled ∧ a.items = filled.hoisted := by
  obtain ⟨named, specs, declared, _, bodies, _, codecs, _, others, first, specified, bodied, coded, rest, -,
    artifacts⟩ := generateUnit_ok done
  obtain ⟨-, names, restsNamed, rfl⟩ := withNames_answers (NameTable.fullName_run wf unit) rests first
  intro a listed isSpec
  rw [artifacts] at listed
  simp only [List.mem_append] at listed
  rcases listed with ((spec | body) | codec) | other
  · exact specification_tidy wf isUnit restsNamed specified a spec
  · exact absurd isSpec (packageBody_kind_ne bodied a body)
  · exact absurd isSpec (marshalling_kind_ne coded a codec)
  · exact absurd isSpec (children_kind_ne rest a other)

open Emit

theorem generate_tidy {ctx : Context} (wf : ctx.tree.WellFormed) {outputs : List UnitOutput}
    (done : generate ctx = .ok outputs) {output : UnitOutput} (listed : output ∈ outputs) {spec : Artifact}
    (among : spec ∈ output.artifacts) (isSpec : spec.kind = .spec) :
    ∃ unit filled, Tidy ctx unit filled ∧ spec.items = filled.hoisted := by
  obtain ⟨all, last, each, rfl⟩ := generate_ok done
  have step : ∀ unit ∈ ctx.tree.units Tree.root, ∀ {s output s'}, NameTable.Rests ctx s.names →
      generateUnit ctx unit s = .ok output s' →
      (∀ a ∈ output.artifacts, a.kind = .spec → ∃ filled, Tidy ctx unit filled ∧ a.items = filled.hoisted) ∧
        NameTable.Rests ctx s'.names := by
    intro unit inside s output s' rests done
    have isUnit := Tree.isUnit_of_mem_units wf.isUnit_root inside
    exact ⟨generateUnit_tidy wf isUnit rests done, (generateUnit_assembled wf rests done).2⟩
  obtain ⟨made, -⟩ := mapM_run step (NameTable.rests_empty ctx) each
  obtain ⟨unit, -, tidied⟩ := made output (List.mem_filter.mp listed).1
  exact ⟨unit, tidied spec among isSpec⟩

/-- The identifiers of a specification that come from the namespace of its package are all different, and so are
those that are derived from them, ignoring case. Two of its identifiers are the same exactly where a declaration
has the name that is derived from another one's. -/
theorem identifiers_nodup_iff (script : List Step) (settings : Settings) (outputs : List UnitOutput)
    (done : generate ⟨.ofSteps script, settings⟩ = .ok outputs) :
    ∀ output ∈ outputs, ∀ spec ∈ output.artifacts, spec.kind = .spec →
      let own := spec.declarations.flatMap Declaration.ownNames
      let derived := spec.declarations.flatMap Declaration.derivedNames
      (own.map fold).Nodup ∧ (derived.map fold).Nodup ∧
      (((spec.declarations.flatMap Declaration.identifiers).map fold).Nodup ↔
        ∀ name ∈ own, ∀ other ∈ derived, fold name ≠ fold other) ∧
      ∀ d ∈ spec.declarations, ∀ name ∈ d.identifiers, d.code.Introduces name ∨
        ∃ type literals, d = .enumeration type literals ∧ name ∈ literals := by
  intro output listed spec among isSpec
  have wf : (Tree.ofSteps script).WellFormed := Tree.ofSteps_wellFormed script
  obtain ⟨unit, filled, tidy, items⟩ := generate_tidy wf done listed among isSpec
  have own := tidy.ownNames_nodup wf
  rw [← items] at own
  exact ⟨own, Declaration.flatMap_derivedNames_nodup own, Declaration.identifiers_nodup own,
    fun d _ name listed => Declaration.code_introduces listed⟩

/-- An exception has no access type, so its name may be taken for a structure. -/
def nameOfNoAccessType : List Step :=
  [.interface 0 "I" [], .exception 1 "Failed", .struct 1 "Failed_Ptr", .enum 1 "Colour" ["red"]]

theorem identifiers_differ_in_interface : ∃ outputs, generate ⟨.ofSteps nameOfNoAccessType, {}⟩ = .ok outputs ∧
    ∃ output ∈ outputs, ∃ spec ∈ output.artifacts, spec.kind = .spec ∧
      spec.declarations.flatMap Declaration.ownNames =
        ["Ref", "Nil_Ref", "Repository_Id", "Failed", "Failed_Ptr", "Colour", "red"] ∧
      spec.declarations.flatMap Declaration.derivedNames =
        ["Ref_Ptr", "Failed_Members", "Failed_Ptr_Ptr", "Colour_Ptr"] ∧
      ((spec.declarations.flatMap Declaration.identifiers).map fold).Nodup := by
  have made : ∃ outputs, generate ⟨.ofSteps nameOfNoAccessType, {}⟩ = .ok outputs ∧
      ∃ output ∈ outputs, ∃ spec ∈ output.artifacts, spec.kind = .spec ∧
        spec.declarations.flatMap Declaration.ownNames =
          ["Ref", "Nil_Ref", "Repository_Id", "Failed", "Failed_Ptr", "Colour", "red"] ∧
        spec.declarations.flatMap Declaration.derivedNames =
          ["Ref_Ptr", "Failed_Members", "Failed_Ptr_Ptr", "Colour_Ptr"] := by
    apply exists_outputs
    decide +kernel
  obtain ⟨outputs, done, output, listed, spec, among, isSpec, own, derived⟩ := made
  refine ⟨outputs, done, output, listed, spec, among, isSpec, own, derived, ?_⟩
  have decided := (identifiers_nodup_iff nameOfNoAccessType {} outputs done output listed spec among isSpec).2.2.1
  rw [decided, own, derived]
  decide +kernel

/-- A structure that takes the name of the access type of another one. -/
def nameOfAccessType : List Step := [.module 0 "M", .struct 1 "A", .struct 1 "A_Ptr"]

theorem access_type_meets_structure : ∃ outputs, generate ⟨.ofSteps nameOfAccessType, {}⟩ = .ok outputs ∧
    ∃ output ∈ outputs, ∃ spec ∈ output.artifacts, spec.kind = .spec ∧ output.name = "M" ∧
      spec.declarations.flatMap Declaration.identifiers = ["A", "A_Ptr", "A_Ptr", "A_Ptr_Ptr"] ∧
      ¬ ((spec.declarations.flatMap Declaration.identifiers).map fold).Nodup := by
  apply exists_outputs
  decide +kernel

end AdaStubs
