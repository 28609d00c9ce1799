import Mathlib.Data.List.Pairwise
import AdaStubs.Proofs.Generation.Clauses
import AdaStubs.Proofs.Generation.DeclarationOrder
import AdaStubs.Proofs.Naming.Qualified

/-!
# File names

Each artifact is a file of its own, with two exceptions. A module's marshalling package is the child `Marshal`
of the module's package, and so is a unit that the module declares under that name. The root package may be
called what another unit is called.
-/

namespace AdaStubs

open Ada

namespace ArtifactKind

def hyphenated (c : Char) : Char := if c == '.' then '-' else c

/-- What the name of a child adds to that of its parent, folded. -/
def ending (kind : ArtifactKind) : List Char :=
  match kind.child? with
  | some child => '.' :: child.toList.map Char.toLower
  | none => []

variable {kind other : ArtifactKind} {name otherName : String}

theorem toList_fold_unitName (kind : ArtifactKind) (name : String) :
    (fold (kind.unitName name)).toList = (fold name).toList ++ kind.ending := by
  unfold unitName ending
  cases kind.child? <;> simp [toList_fold, toString]

theorem toList_fileName (kind : ArtifactKind) (name : String) :
    (kind.fileName name).toList = (fold (kind.unitName name)).toList.map hyphenated ++
      (if kind.isBody then ".adb" else ".ads").toList := by
  simp only [fileName, String.toList_append, String.toList_map]
  rfl

theorem fileName_eq_iff : kind.fileName name = other.fileName otherName ↔
    (fold (kind.unitName name)).toList.map hyphenated = (fold (other.unitName otherName)).toList.map hyphenated ∧
      kind.isBody = other.isBody := by
  rw [← String.toList_inj, toList_fileName, toList_fileName]
  have length (b : Bool) : (if b then ".adb" else ".ads").toList.length = 4 := by cases b <;> rfl
  constructor
  · intro same
    obtain ⟨stems, extensions⟩ := List.append_inj' same ((length _).trans (length _).symm)
    refine ⟨stems, ?_⟩
    cases first : kind.isBody <;> cases second : other.isBody <;> simp_all
  · rintro ⟨stems, bodies⟩
    rw [stems, bodies]

theorem eq_of_ending {kind other : ArtifactKind}
    (same : kind.ending.map hyphenated = other.ending.map hyphenated) (bodies : kind.isBody = other.isBody) :
    kind = other := by
  cases kind <;> cases other <;> first | rfl | exact absurd bodies (by decide) | exact absurd same (by decide)

theorem eq_of_fileName (same : kind.fileName name = other.fileName name) : kind = other := by
  obtain ⟨stems, bodies⟩ := fileName_eq_iff.mp same
  rw [toList_fold_unitName, toList_fold_unitName, List.map_append, List.map_append] at stems
  exact eq_of_ending (List.append_cancel_left stems) bodies

/-- Only a point is written as a hyphen. -/
theorem eq_of_map_hyphenated {text otherText : List Char} (plain : '-' ∉ text) (otherPlain : '-' ∉ otherText)
    (same : text.map hyphenated = otherText.map hyphenated) : text = otherText := by
  have back : ∀ {text : List Char}, '-' ∉ text →
      (text.map hyphenated).map (fun c => if c == '-' then '.' else c) = text := by
    intro text plain
    rw [List.map_map]
    refine (List.map_congr_left fun c listed => ?_).trans (List.map_id _)
    have other : c ≠ '-' := fun hyphen => plain (hyphen ▸ listed)
    by_cases point : c = '.' <;> simp [hyphenated, point, other]
  rw [← back plain, same, back otherPlain]

theorem hyphen_not_mem_unitName (plain : '-' ∉ name.toList) (kind : ArtifactKind) :
    '-' ∉ (fold (kind.unitName name)).toList := by
  have plainEnding : '-' ∉ kind.ending := by cases kind <;> decide
  rw [toList_fold_unitName, List.mem_append, mark_mem_fold_iff (by decide)]
  rintro (inside | added)
  · exact plain inside
  · exact plainEnding added

theorem fold_unitName_eq (plain : '-' ∉ name.toList) (otherPlain : '-' ∉ otherName.toList)
    (same : kind.fileName name = other.fileName otherName) :
    fold (kind.unitName name) = fold (other.unitName otherName) := by
  obtain ⟨stems, -⟩ := fileName_eq_iff.mp same
  exact String.toList_inj.mp
    (eq_of_map_hyphenated (hyphen_not_mem_unitName plain kind) (hyphen_not_mem_unitName otherPlain other) stems)

theorem unitName_of_child {child : String} (isChild : kind.child? = some child) (name : String) :
    kind.unitName name = name ++ "." ++ child := by
  simp [unitName, isChild, toString]

theorem unitName_of_plain (isPlain : kind.child? = none) (name : String) : kind.unitName name = name := by
  simp [unitName, isPlain]

theorem point_not_mem_child {child : String} (isChild : kind.child? = some child) : '.' ∉ child.toList := by
  revert isChild
  cases kind <;> rintro ⟨⟩ <;> decide

end ArtifactKind

/-! ## The artifacts of a unit -/

namespace Emit

open Run

variable {ctx : Context} {unit : Nat} {name : String} {s s' : Session}

/-- Artifacts of the package `name`, each of another of these kinds. -/
structure Labelled (name : String) (kinds : List ArtifactKind) (artifacts : List Artifact) : Prop where
  unit : ∀ a ∈ artifacts, a.unit = name
  kinds : (artifacts.map (·.kind)).Sublist kinds

theorem Labelled.nil (name : String) (kinds : List ArtifactKind) : Labelled name kinds [] where
  unit := by simp
  kinds := List.nil_sublist kinds

theorem Labelled.append {kinds more : List ArtifactKind} {artifacts others : List Artifact}
    (first : Labelled name kinds artifacts) (second : Labelled name more others) :
    Labelled name (kinds ++ more) (artifacts ++ others) where
  unit := by
    intro a listed
    rcases List.mem_append.mp listed with early | late
    · exact first.unit a early
    · exact second.unit a late
  kinds := by
    rw [List.map_append]
    exact first.kinds.append second.kinds

theorem package_labelled {kind : ArtifactKind} {items hidden : List Item} {artifact : Artifact}
    (done : package ctx kind name items hidden s = .ok artifact s') : Labelled name [kind] [artifact] := by
  obtain ⟨clauses, -, rfl⟩ := package_ok done
  exact ⟨by simp, by simp⟩

theorem Packed.labelled {kind : ArtifactKind} {filled : Session} {artifacts : List Artifact}
    (packed : Packed ctx kind name filled artifacts s') : Labelled name [kind] artifacts := by
  rcases packed with ⟨rfl, -⟩ | ⟨artifact, rfl, made⟩
  · exact .nil name _
  · exact package_labelled made

theorem proxies_labelled {artifacts : List Artifact} (done : proxies ctx unit name s = .ok artifacts s') :
    Labelled name [.proxiesSpec, .proxiesBody] artifacts := by
  rcases proxies_ok done with ⟨-, rfl, -⟩ | ⟨_, _, spec, _, _, _, body, -, specMade, -, bodyMade, rfl⟩
  · exact .nil name _
  · exact (package_labelled specMade).append (package_labelled bodyMade)

theorem implementation_labelled {artifacts : List Artifact} (done : implementation ctx unit name s = .ok artifacts s') :
    Labelled name [.implSpec, .implBody] artifacts := by
  rcases implementation_ok done with ⟨rfl, -⟩ | ⟨_, _, _, _, spec, _, -, -, specMade, last⟩
  · exact .nil name _
  · rcases last with ⟨rfl, -⟩ | ⟨_, _, body, -, bodyMade, rfl⟩
    · exact (package_labelled specMade).append (.nil name [.implBody])
    · exact (package_labelled specMade).append (package_labelled bodyMade)

theorem skeleton_labelled {artifacts : List Artifact} (done : skeleton ctx unit name s = .ok artifacts s') :
    Labelled name [.skeleton] artifacts := by
  rcases skeleton_ok done with ⟨rfl, -⟩ | ⟨entries, -, rfl⟩
  · exact .nil name _
  · exact ⟨by simp, by simp⟩

theorem children_labelled {artifacts : List Artifact} (done : children ctx unit name s = .ok artifacts s') :
    Labelled name (if isInterface ctx unit then [.proxiesSpec, .proxiesBody, .implSpec, .implBody, .skeleton] else [])
      artifacts := by
  unfold children at done
  split at done
  · next interface =>
    obtain ⟨stubs, stubbed, servants, served, dispatcher, first, second, third, rfl⟩ := interfaceChildren_ok done
    rw [if_pos interface]
    exact ((proxies_labelled first).append (implementation_labelled second)).append (skeleton_labelled third)
  · cases done
    exact .nil name _

theorem unitWith_labelled {others : String → Emit (List Artifact)} {kinds : List ArtifactKind}
    (more : ∀ {name s artifacts s'}, others name s = .ok artifacts s' → Labelled name kinds artifacts)
    {output : UnitOutput} (done : unitWith ctx unit others s = .ok output s') :
    Labelled output.name ([.spec, .body, .marshalSpec, .marshalBody] ++ kinds) output.artifacts := by
  obtain ⟨named, specs, declared, _, bodies, _, codecs, _, rest, -, specified, bodied, coded, made, -, together⟩ :=
    unitWith_ok done
  obtain ⟨_, _, _, -, -, -, -, specPacked⟩ := specification_ok specified
  obtain ⟨_, _, -, -, bodyPacked⟩ := packageBody_ok bodied
  obtain ⟨_, _, _, _, _, -, profilesPacked, -, codecsPacked, rfl⟩ := marshalling_ok coded
  rw [together]
  exact ((specPacked.labelled.append bodyPacked.labelled).append
    (profilesPacked.labelled.append codecsPacked.labelled)).append (more made)

theorem generateUnit_labelled {output : UnitOutput} (done : generateUnit ctx unit s = .ok output s') :
    Labelled output.name ([.spec, .body, .marshalSpec, .marshalBody] ++
      if isInterface ctx unit then [.proxiesSpec, .proxiesBody, .implSpec, .implBody, .skeleton] else [])
      output.artifacts :=
  unitWith_labelled children_labelled done

end Emit

/-- What is known of the artifacts of a unit from the outside. -/
structure Labels (ctx : Context) (output : UnitOutput) : Prop where
  isUnit : ctx.tree.hasKind Kind.isUnit output.node = true
  name : NameTable.fullResult ctx output.node = .ok output.name
  unit : ∀ a ∈ output.artifacts, a.unit = output.name
  kinds : (output.artifacts.map (·.kind)).Nodup
  children : Emit.isInterface ctx output.node = false → ∀ a ∈ output.artifacts,
    a.kind.child? = none ∨ a.kind.child? = some "Marshal"

theorem generateUnit_labels {ctx : Context} (wf : ctx.tree.WellFormed) {unit : Nat} {s s' : Session}
    (isUnit : ctx.tree.hasKind Kind.isUnit unit = true) (rests : NameTable.Rests ctx s.names)
    {output : UnitOutput} (done : Emit.generateUnit ctx unit s = .ok output s') : Labels ctx output := by
  have labelled := Emit.generateUnit_labelled done
  obtain ⟨named, _, _, _, _, _, _, _, _, naming, -, -, -, -, rfl, -⟩ := Emit.generateUnit_ok done
  obtain ⟨name, -⟩ := Emit.withNames_answers (NameTable.fullName_run wf output.node) rests naming
  refine ⟨isUnit, name, labelled.unit, ?_, ?_⟩
  · refine labelled.kinds.nodup ?_
    split <;> decide
  · intro module a listed
    have among := labelled.kinds.subset (List.mem_map_of_mem listed)
    simp only [module, Bool.false_eq_true, if_false, List.append_nil, List.mem_cons, List.not_mem_nil] at among
    rcases among with kind | kind | kind | kind | never
    all_goals first | cases never | simp [kind, ArtifactKind.child?]

theorem generate_labels {ctx : Context} (wf : ctx.tree.WellFormed) {outputs : List UnitOutput}
    (done : generate ctx = .ok outputs) : (∀ o ∈ outputs, Labels ctx o) ∧ (outputs.map (·.node)).Nodup := by
  obtain ⟨all, last, each, rfl⟩ := generate_ok done
  constructor
  · have step : ∀ unit ∈ ctx.tree.units Tree.root, ∀ {s output s'}, NameTable.Rests ctx s.names →
        Emit.generateUnit ctx unit s = .ok output s' → Labels ctx output ∧ NameTable.Rests ctx s'.names := by
      intro unit listed s output s' rests made
      have isUnit := Tree.isUnit_of_mem_units wf.isUnit_root listed
      exact ⟨generateUnit_labels wf isUnit rests made, (Emit.generateUnit_assembled wf rests made).2⟩
    obtain ⟨worked, -⟩ := Run.mapM_run step (NameTable.rests_empty ctx) each
    intro o listed
    obtain ⟨-, -, labels⟩ := worked o (List.mem_filter.mp listed).1
    exact labels
  · have nodes : (all.map (·.node)).Nodup := by
      rw [Emit.mapM_generateUnit_nodes each]
      exact wf.units_nodup Tree.root
    exact (List.filter_sublist.map _).nodup nodes

theorem fileNames_nodup {ctx : Context} {outputs : List UnitOutput} (labels : ∀ o ∈ outputs, Labels ctx o)
    (nodes : (outputs.map (·.node)).Nodup) : ((outputs.flatMap (·.artifacts)).map (·.fileName)).Nodup ↔
      ∀ first ∈ outputs, ∀ second ∈ outputs, first.node ≠ second.node →
        ∀ a ∈ first.artifacts, ∀ b ∈ second.artifacts, a.fileName ≠ b.fileName := by
  have inside : ∀ o ∈ outputs, (o.artifacts.map (·.fileName)).Pairwise (· ≠ ·) := by
    intro o listed
    have kinds := (labels o listed).kinds
    rw [List.Nodup, List.pairwise_map] at kinds
    rw [List.pairwise_map]
    refine kinds.imp_of_mem fun {a b} first second differ same => differ ?_
    rw [Artifact.fileName, Artifact.fileName, (labels o listed).unit a first, (labels o listed).unit b second] at same
    exact ArtifactKind.eq_of_fileName same
  rw [List.map_flatMap, List.Nodup, List.pairwise_flatMap, and_iff_right inside]
  rw [List.Nodup, List.pairwise_map] at nodes
  constructor
  · intro across first listed second among differ a made b madeOther
    have symmetric : Std.Symm fun x y : UnitOutput =>
        ∀ f ∈ x.artifacts.map (·.fileName), ∀ g ∈ y.artifacts.map (·.fileName), f ≠ g :=
      ⟨fun x y apart f early g late same => apart g late f early same.symm⟩
    have apart := across.forall listed among fun same => differ (congrArg _ same)
    exact apart _ (List.mem_map_of_mem made) _ (List.mem_map_of_mem madeOther)
  · intro apart
    refine nodes.imp_of_mem fun {x y} listed among differ => ?_
    simp only [List.forall_mem_map]
    exact apart x listed y among differ

/-! ## Files of two units -/

/-- `b`, the plain package of a unit that a module declares as `Marshal`, is put where `a`, the module's
marshalling package, goes. -/
structure Overwrites (ctx : Context) (outer inner : UnitOutput) (a b : Artifact) : Prop where
  inside : outer.node ≠ Tree.root
  nested : inner.node ∈ ctx.tree.members outer.node
  name : (NameTable.answer ctx [] (.localName inner.node)).map fold = .ok "marshal"
  child : a.kind.child? = some "Marshal"
  plain : b.kind.child? = none
  bodies : a.kind.isBody = b.kind.isBody

/-- The root package goes by a word that no unit directly in it is called. -/
structure RootApart (ctx : Context) : Prop where
  word : ∀ c ∈ ctx.settings.rootPackage.toList, isWordChar c = true
  apart : ∀ top ∈ ctx.tree.members Tree.root, ctx.tree.hasKind Kind.isUnit top = true →
    (NameTable.answer ctx [] (.localName top)).map fold ≠ .ok (fold ctx.settings.rootPackage)

/-- The units, the root only if it is apart from the others. -/
def Context.Compared (ctx : Context) (id : Nat) : Prop :=
  ctx.tree.hasKind Kind.isUnit id = true ∧ (id = Tree.root → RootApart ctx)

theorem fold_marshal : fold "Marshal" = "marshal" := fold_eq_iff.mpr (by decide)

section Pairs

open NameTable

variable {ctx : Context} (wf : ctx.tree.WellFormed)

include wf in
theorem answer_localName (id : Nat) : answer ctx [] (.localName id) = localResult ctx id :=
  answer_eq_result wf [] (.localName id)

include wf in
theorem Overwrites.lt {outer inner : UnitOutput} {a b : Artifact} (overwrites : Overwrites ctx outer inner a b) :
    outer.node < inner.node := by
  obtain ⟨-, node, -, found, inside, -⟩ := wf.member_inside overwrites.nested
  exact ctx.tree.scope_lt found inside

theorem standsAlone_of_unit {t : Tree} {id : Nat} {node : Node} (found : t.node? id = some node)
    (isUnit : t.hasKind Kind.isUnit id = true) (inner : id ≠ Tree.root) :
    t.standsAlone id node.kind = (t.enclosingUnit id == Tree.root) := by
  have qualified := isUnqualified_of_isUnit isUnit
  rw [Tree.hasKind_eq found] at isUnit qualified
  simp [Tree.standsAlone, isUnit, qualified, inner]

variable (spelled : ctx.tree.isSpelled = true)
include wf spelled

/-- The names of units are given out before any placeholder is used. -/
theorem mark_not_mem_unit {mark : Char} (foreign : isWordChar mark = false) {id : Nat}
    (compared : ctx.Compared id) {own : String} (given : localResult ctx id = .ok own) : mark ∉ own.toList := by
  by_cases top : id = Tree.root
  · subst top
    cases (localResult_root wf).symm.trans given
    intro listed
    have word := (compared.2 rfl).word mark listed
    simp [foreign] at word
  · obtain ⟨node, found, unit⟩ := Tree.exists_of_hasKind compared.1
    have qualified := isUnqualified_of_isUnit compared.1
    rw [Tree.hasKind_eq found] at qualified
    have named := Kind.isAnonymous_eq_false_of_isUnit unit
    have kept := (shares_of_qualified found top qualified).lives.name?_of_result given
    rw [Namespace.name?_assign_of_named wf found named] at kept
    have spells : Namespace.Spells ctx.tree none (mark ∉ ·.toList) :=
      Namespace.spells_without_mark foreign spelled (by simp)
    exact Namespace.spelled_declared spells _ id own kept

theorem compared_domain : Domain ctx ctx.Compared where
  qualified compared found := by
    have qualified := isUnqualified_of_isUnit compared.1
    rwa [Tree.hasKind_eq found] at qualified
  outer {id node} compared found qualified := by
    refine ⟨wf.isUnit_enclosingUnit id, fun top => ?_⟩
    by_cases inner : id = Tree.root
    · exact compared.2 inner
    · rw [standsAlone_of_unit found compared.1 inner, top] at qualified
      cases qualified
  plain compared given := mark_not_mem_unit wf spelled (by decide) compared given
  root_apart compared := by
    intro top listed isUnit
    rw [← answer_localName wf]
    exact (compared.2 rfl).apart top listed isUnit

theorem hyphen_not_mem_full {id : Nat} (compared : ctx.Compared id) {full : String}
    (given : fullResult ctx id = .ok full) : '-' ∉ full.toList := by
  induction id using Nat.strongRecOn generalizing full with
  | ind id ih =>
    obtain ⟨node, own, found, ownName, shape⟩ := fullResult_ok given
    have plain : '-' ∉ own.toList := mark_not_mem_unit wf spelled (by decide) compared ownName
    rcases shape with ⟨-, rfl⟩ | ⟨qualified, outer, around, rfl⟩
    · exact plain
    · have inner := Tree.ne_root_of_qualified (Bool.eq_false_iff.mp qualified)
      have outerCompared := (compared_domain wf spelled).outer compared found qualified
      have outerPlain := ih _ (ctx.tree.enclosingUnit_lt inner) outerCompared around
      simp [outerPlain, plain]

theorem overwrites_of_child {outer inner : UnitOutput} (labels : Labels ctx outer) (innerLabels : Labels ctx inner)
    (compared : ctx.Compared outer.node) (innerCompared : ctx.Compared inner.node) {a b : Artifact}
    (made : a ∈ outer.artifacts) {child : String} (isChild : a.kind.child? = some child)
    (isPlain : b.kind.child? = none) (bodies : a.kind.isBody = b.kind.isBody)
    (same : fold (outer.name ++ "." ++ child) = fold inner.name) : Overwrites ctx outer inner a b := by
  have domain := compared_domain wf spelled
  obtain ⟨node, own, found, ownName, shape⟩ := fullResult_ok innerLabels.name
  have plain := domain.plain innerCompared ownName
  rcases shape with ⟨-, name⟩ | ⟨qualified, around, aroundName, name⟩
  · rw [name] at same
    exact absurd same (fold_full_ne plain)
  · rw [name] at same
    obtain ⟨outers, owns⟩ := fold_full_inj (ArtifactKind.point_not_mem_child isChild) plain same
    have innerInside := Tree.ne_root_of_qualified (Bool.eq_false_iff.mp qualified)
    have package := domain.eq_of_fold wf compared (domain.outer innerCompared found qualified) labels.name
      aroundName outers
    obtain ⟨module, listed⟩ := wf.unit_in_module innerLabels.isUnit innerInside
    rw [← package] at module listed
    have marshal : child = "Marshal" := by
      have plainModule : Emit.isInterface ctx outer.node = false := by
        simp [Emit.isInterface, Tree.hasKind, module]
      rcases labels.children plainModule a made with none | marshal
      · cases isChild.symm.trans none
      · exact Option.some.inj (isChild.symm.trans marshal)
    subst marshal
    refine ⟨?_, listed, ?_, isChild, isPlain, bodies⟩
    · intro top
      rw [standsAlone_of_unit found innerLabels.isUnit innerInside, ← package, top] at qualified
      cases qualified
    · rw [answer_localName wf, ownName, Except.map, ← owns, fold_marshal]

theorem overwrites_of_fileName {first second : UnitOutput} (labels : Labels ctx first)
    (otherLabels : Labels ctx second) (compared : ctx.Compared first.node) (otherCompared : ctx.Compared second.node)
    (differ : first.node ≠ second.node) {a b : Artifact} (made : a ∈ first.artifacts)
    (otherMade : b ∈ second.artifacts) (same : a.fileName = b.fileName) :
    Overwrites ctx first second a b ∨ Overwrites ctx second first b a := by
  have domain := compared_domain wf spelled
  rw [Artifact.fileName, Artifact.fileName, labels.unit a made, otherLabels.unit b otherMade] at same
  have bodies := (ArtifactKind.fileName_eq_iff.mp same).2
  have names := ArtifactKind.fold_unitName_eq (hyphen_not_mem_full wf spelled compared labels.name)
    (hyphen_not_mem_full wf spelled otherCompared otherLabels.name) same
  cases child : a.kind.child? <;> cases otherChild : b.kind.child?
  · rw [ArtifactKind.unitName_of_plain child, ArtifactKind.unitName_of_plain otherChild] at names
    exact absurd (domain.eq_of_fold wf compared otherCompared labels.name otherLabels.name names) differ
  · rw [ArtifactKind.unitName_of_plain child, ArtifactKind.unitName_of_child otherChild] at names
    exact .inr (overwrites_of_child wf spelled otherLabels labels otherCompared compared otherMade otherChild child
      bodies.symm names.symm)
  · rw [ArtifactKind.unitName_of_child child, ArtifactKind.unitName_of_plain otherChild] at names
    exact .inl (overwrites_of_child wf spelled labels otherLabels compared otherCompared made child otherChild
      bodies names)
  · rw [ArtifactKind.unitName_of_child child, ArtifactKind.unitName_of_child otherChild] at names
    have outers := (fold_full_inj (ArtifactKind.point_not_mem_child child)
      (ArtifactKind.point_not_mem_child otherChild) names).1
    exact absurd (domain.eq_of_fold wf compared otherCompared labels.name otherLabels.name outers) differ

omit spelled in
theorem Overwrites.fileName_eq {outer inner : UnitOutput} (labels : Labels ctx outer) (innerLabels : Labels ctx inner)
    {a b : Artifact} (made : a ∈ outer.artifacts) (innerMade : b ∈ inner.artifacts)
    (overwrites : Overwrites ctx outer inner a b) : a.fileName = b.fileName := by
  obtain ⟨around, node, found, present, inside, held⟩ := wf.member_inside overwrites.nested
  have package : ctx.tree.enclosingUnit inner.node = outer.node := by
    rw [wf.enclosingUnit_of_scope present inside, wf.packageOf_unit labels.isUnit]
  have innerInside : inner.node ≠ Tree.root := Nat.ne_of_gt (Nat.zero_lt_of_lt (overwrites.lt wf))
  obtain ⟨same, own, again, ownName, shape⟩ := fullResult_ok innerLabels.name
  cases present.symm.trans again
  have folded := overwrites.name
  rw [answer_localName wf, ownName, Except.map] at folded
  rcases shape with ⟨alone, -⟩ | ⟨-, outerName, aroundName, name⟩
  · rw [standsAlone_of_unit present innerLabels.isUnit innerInside, package] at alone
    exact absurd (beq_iff_eq.mp alone) overwrites.inside
  · rw [package] at aroundName
    cases labels.name.symm.trans aroundName
    have marshal : (fold own).toList = (fold "Marshal").toList := by
      rw [Except.ok.inj folded, fold_marshal]
    rw [Artifact.fileName, Artifact.fileName, labels.unit a made, innerLabels.unit b innerMade,
      ArtifactKind.fileName_eq_iff, ArtifactKind.unitName_of_child overwrites.child,
      ArtifactKind.unitName_of_plain overwrites.plain, name, fold_point, fold_point, marshal]
    exact ⟨rfl, overwrites.bodies⟩

end Pairs

/-- No file is written twice but where a unit is called `Marshal` in a module with a marshalling package, and
where the root package is called as another unit. -/
theorem fileNames_nodup_iff (script : List Step) (settings : Settings) (outputs : List UnitOutput)
    (spelled : (Tree.ofSteps script).isSpelled = true)
    (done : generate ⟨.ofSteps script, settings⟩ = .ok outputs) :
    let ctx : Context := ⟨.ofSteps script, settings⟩
    let rootFilesApart := ∀ top ∈ outputs, ∀ other ∈ outputs, top.node = Tree.root → other.node ≠ Tree.root →
      ∀ a ∈ top.artifacts, ∀ b ∈ other.artifacts, a.fileName ≠ b.fileName
    (((outputs.flatMap (·.artifacts)).map (·.fileName)).Nodup ↔
      (∀ outer ∈ outputs, ∀ inner ∈ outputs, ∀ a ∈ outer.artifacts, ∀ b ∈ inner.artifacts,
        ¬ Overwrites ctx outer inner a b) ∧ rootFilesApart) ∧
    (RootApart ctx → rootFilesApart) := by
  intro ctx rootFilesApart
  have wf : ctx.tree.WellFormed := Tree.ofSteps_wellFormed script
  obtain ⟨labels, nodes⟩ := generate_labels wf done
  have unitOf : ∀ o ∈ outputs, (o.node = Tree.root → RootApart ctx) → ctx.Compared o.node :=
    fun o listed apart => ⟨(labels o listed).isUnit, apart⟩
  constructor
  · rw [fileNames_nodup labels nodes]
    constructor
    · intro apart
      constructor
      · intro outer listed inner among a made b innerMade overwrites
        refine apart outer listed inner among (Nat.ne_of_lt (overwrites.lt wf)) a made b innerMade ?_
        exact overwrites.fileName_eq wf (labels outer listed) (labels inner among) made innerMade
      · intro top listed other among isRoot inside a made b otherMade
        exact apart top listed other among (isRoot ▸ inside.symm) a made b otherMade
    · rintro ⟨clear, rootApart⟩ first listed second among differ a made b otherMade same
      by_cases top : first.node = Tree.root
      · exact rootApart first listed second among top (top ▸ differ.symm) a made b otherMade same
      by_cases otherTop : second.node = Tree.root
      · exact rootApart second among first listed otherTop (otherTop ▸ differ) b otherMade a made same.symm
      rcases overwrites_of_fileName wf spelled (labels first listed) (labels second among)
        (unitOf first listed (absurd · top)) (unitOf second among (absurd · otherTop)) differ made otherMade same
        with overwrites | overwrites
      · exact clear first listed second among a made b otherMade overwrites
      · exact clear second among first listed b otherMade a made overwrites
  · intro rootApart top listed other among isRoot inside a made b otherMade same
    rcases overwrites_of_fileName wf spelled (labels top listed) (labels other among)
      (unitOf top listed fun _ => rootApart) (unitOf other among fun _ => rootApart) (isRoot ▸ inside.symm) made
      otherMade same with overwrites | overwrites
    · exact overwrites.inside isRoot
    · have below := overwrites.lt wf
      rw [isRoot] at below
      exact absurd below (Nat.not_lt_zero _)

/-- A module with a type and a unit of the given name. -/
def moduleWithUnit (name : String) : List Step :=
  [.module 0 "Bank", .struct 1 "Account", .module 1 name, .struct 3 "Entry"]

theorem files_of_inner_module_apart : ∃ outputs,
    generate ⟨.ofSteps (moduleWithUnit "Marshals"), {}⟩ = .ok outputs ∧
      "bank-marshal.ads" ∈ (outputs.flatMap (·.artifacts)).map (·.fileName) ∧
        ((outputs.flatMap (·.artifacts)).map (·.fileName)).Nodup := by
  let ctx : Context := ⟨.ofSteps (moduleWithUnit "Marshals"), {}⟩
  obtain ⟨outputs, done, unlike, marshalled⟩ : ∃ outputs, generate ctx = .ok outputs ∧
      (∀ o ∈ outputs, (NameTable.answer ctx [] (.localName o.node)).map fold ≠ .ok "marshal") ∧
        "bank-marshal.ads" ∈ (outputs.flatMap (·.artifacts)).map (·.fileName) := by
    apply exists_outputs
    decide +kernel
  obtain ⟨nodup, root⟩ := fileNames_nodup_iff (moduleWithUnit "Marshals") {} outputs (by decide +kernel) done
  have word : ctx.settings.rootPackage.toList.all isWordChar = true := by decide +kernel
  refine ⟨outputs, done, marshalled, nodup.mpr ⟨?_, root ⟨List.all_eq_true.mp word, by decide +kernel⟩⟩⟩
  intro outer listed inner among a made b innerMade overwrites
  exact unlike inner among overwrites.name

/-- The specification of the inner module and that of the outer one's marshalling package are one file. -/
theorem marshal_module_overwrites : ∃ outputs,
    generate ⟨.ofSteps (moduleWithUnit "Marshal"), {}⟩ = .ok outputs ∧
      ¬ ((outputs.flatMap (·.artifacts)).map (·.fileName)).Nodup := by
  apply exists_outputs
  decide +kernel

end AdaStubs
