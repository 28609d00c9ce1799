import Mathlib.Data.List.Basic
import AdaStubs.Proofs.Generation.Turns
import AdaStubs.Proofs.Text.Writer

/-!
# The order of declarations

In the specification of a unit a type stands before whatever refers to it there, except among types that
refer to each other. What was declared for other units does not interfere: a unit declares only what belongs
in its package, and each unit has its turn once.

Main statement: `declared_before_use`.
-/

namespace AdaStubs

open Ada Run

/-- The node that an item declares. -/
def Ada.Item.declares? : Item → Option Nat
  | .declaration node _ => some node
  | _ => none

/-- The nodes that an artifact declares, in the order of its text. -/
def Artifact.declares (a : Artifact) : List Nat := a.items.filterMap Item.declares?

/-- The declaration of `r` stands before that of `n`: the text of the items can be cut between them. -/
def Artifact.DeclaresBefore (a : Artifact) (settings : Settings) (r n : Nat) : Prop :=
  ∃ earlier later front back, a.items = earlier ++ later ∧
    a.text settings = front ++ itemsText settings earlier ++ (itemsText settings later ++ back) ∧
    r ∈ earlier.filterMap Item.declares? ∧ n ∈ later.filterMap Item.declares?

/-- No declaration is repeated, and what a declaration refers to in the package of `unit` stands before it,
unless the two refer to each other in the end. -/
def Artifact.Ordered (ctx : Context) (unit : Nat) (a : Artifact) : Prop :=
  a.declares.Nodup ∧ ∀ n ∈ a.declares, ∀ r ∈ ctx.tree.declarationRefs n, ctx.isLocal unit r = true →
    a.DeclaresBefore ctx.settings r n ∨ ctx.Leads unit n r ∧ ctx.Leads unit r n

/-! ## The text of items -/

theorem itemsText_append (settings : Settings) (items more : List Item) :
    itemsText settings (items ++ more) = itemsText settings items ++ itemsText settings more := by
  simp [itemsText]

theorem filterMap_declares (items : List Item) : items.filterMap Item.declares? =
    (items.filterMap Item.part?).filterMap fun (part, node) => if part = .declaration then some node else none := by
  rw [List.filterMap_filterMap]
  congr 1
  funext item
  cases item <;> rfl

theorem exists_split_of_idxOf_lt {items : List Item} {nodes : List Nat} {r n : Nat}
    (declares : items.filterMap Item.declares? = nodes) (listed : n ∈ nodes) (earlier : nodes.idxOf r < nodes.idxOf n) :
    ∃ before after, items = before ++ after ∧ r ∈ before.filterMap Item.declares? ∧
      n ∈ after.filterMap Item.declares? := by
  have inside : r ∈ nodes := List.idxOf_lt_length_iff.mp (Nat.lt_trans earlier (List.idxOf_lt_length_iff.mpr listed))
  obtain ⟨before, after, rfl, front, back⟩ := List.filterMap_eq_append_iff.mp
    (declares.trans (List.take_append_drop (nodes.idxOf n) nodes).symm)
  refine ⟨before, after, rfl, ?_, ?_⟩
  · rw [front, List.mem_take_iff_idxOf_lt inside]
    exact earlier
  · rw [back]
    have late : n ∉ nodes.take (nodes.idxOf n) := by simp [List.mem_take_iff_idxOf_lt listed]
    rw [← List.take_append_drop (nodes.idxOf n) nodes, List.mem_append] at listed
    exact listed.resolve_left late

theorem packageText_append (settings : Settings) (kind : ArtifactKind) (name : String) (clauses : List Clause)
    (items more : List Item) : ∃ front back, Artifact.packageText settings kind name clauses (items ++ more) [] =
      front ++ itemsText settings items ++ (itemsText settings more ++ back) := by
  have cut (x a b y z : String) : x ++ (a ++ b) ++ y ++ z = x ++ a ++ (b ++ (y ++ z)) := by
    simp only [String.append_assoc]
  unfold Artifact.packageText
  rw [itemsText_append]
  exact ⟨_, _, cut _ _ _ _ _⟩

theorem Artifact.ordered_of_idxOf {ctx : Context} {unit : Nat} {kind : ArtifactKind} {name : String}
    {clauses : List Clause} {items : List Item} {deps : Dependencies} {new : List Nat}
    (declares : items.filterMap Item.declares? = new) (distinct : new.Nodup)
    (ordered : ∀ n ∈ new, ∀ r ∈ ctx.tree.declarationRefs n, ctx.isLocal unit r = true →
      new.idxOf r < new.idxOf n ∨ ctx.Leads unit r n) :
    Artifact.Ordered ctx unit ⟨kind, name, .package clauses items [], deps⟩ := by
  have all : items ++ [] = items := List.append_nil items
  unfold Ordered DeclaresBefore Artifact.declares Artifact.items
  simp only [all, declares]
  refine ⟨distinct, fun n listed r refers isLocal => ?_⟩
  rcases ordered n listed r refers isLocal with earlier | leads
  · left
    obtain ⟨before, after, rfl, first, second⟩ := exists_split_of_idxOf_lt declares listed earlier
    obtain ⟨front, back, text⟩ := packageText_append ctx.settings kind (kind.unitName name) clauses before after
    exact ⟨before, after, front, back, rfl, text, first, second⟩
  · exact .inr ⟨.single ⟨refers, isLocal⟩, leads⟩

namespace Emit

variable {ctx : Context} {unit : Nat} {name : String} {s s' : Session}

variable (inherits : Inherits ctx)
include inherits

/-! ## The specification -/

theorem specification_ordered (isUnit : ctx.tree.hasKind Kind.isUnit unit = true) (idle : s.trace.busy = [])
    (fresh : ∀ n ∈ s.trace.defined, ctx.tree.packageOf n ≠ unit) {artifacts : List Artifact} {declared : List Nat}
    (done : specification ctx unit name s = .ok (artifacts, declared) s') : ∀ a ∈ artifacts, a.Ordered ctx unit := by
  obtain ⟨-, -, filled, new, -, -, -, written, -, -, packed⟩ := specification_writes inherits isUnit done
  intro spec listed
  rcases packed with ⟨rfl, -⟩ | ⟨artifact, rfl, made⟩
  · cases listed
  obtain ⟨clauses, -, rfl⟩ := package_ok made
  cases List.mem_singleton.mp listed
  have parts : filled.hoisted.filterMap Item.part? = new.map fun n => (Part.declaration, n) := written.parts_eq
  refine Artifact.ordered_of_idxOf ?_ written.distinct fun n among r refers isLocal => ?_
  · rw [filterMap_declares, parts, List.filterMap_map]
    exact List.filterMap_some
  rcases written.ordered n among r refers isLocal with earlier | done | busy | leads
  · exact .inl earlier
  · exact absurd (Tree.packageOf_of_isLocal isLocal) (fresh r done)
  · rw [show s.trace.cleared.busy = [] from idle] at busy
    cases busy
  · exact .inr leads

omit inherits in
theorem package_kind_eq {kind : ArtifactKind} {items hidden : List Item} {a : Artifact}
    (done : package ctx kind name items hidden s = .ok a s') : a.kind = kind := by
  obtain ⟨clauses, -, rfl⟩ := package_ok done
  rfl

omit inherits in
theorem Packed.kind_eq {kind : ArtifactKind} {filled : Session} {artifacts : List Artifact}
    (packed : Packed ctx kind name filled artifacts s') : ∀ a ∈ artifacts, a.kind = kind := by
  intro a listed
  rcases packed with ⟨rfl, -⟩ | ⟨artifact, rfl, made⟩
  · cases listed
  · rw [List.mem_singleton.mp listed]
    exact package_kind_eq made

omit inherits in
theorem packageBody_kind_ne {artifacts : List Artifact} (done : packageBody ctx unit name s = .ok artifacts s') :
    ∀ a ∈ artifacts, a.kind ≠ .spec := by
  obtain ⟨_, _, -, -, packed⟩ := packageBody_ok done
  intro a listed
  simp [packed.kind_eq a listed]

omit inherits in
theorem marshalling_kind_ne {artifacts : List Artifact} {declared : List Nat}
    (done : marshalling ctx unit name declared s = .ok artifacts s') : ∀ a ∈ artifacts, a.kind ≠ .spec := by
  obtain ⟨_, _, _, _, _, -, specPacked, -, bodyPacked, rfl⟩ := marshalling_ok done
  intro a listed
  rcases List.mem_append.mp listed with profiles | bodies
  · simp [specPacked.kind_eq a profiles]
  · simp [bodyPacked.kind_eq a bodies]

omit inherits in
theorem children_kind_ne {artifacts : List Artifact} (done : children ctx unit name s = .ok artifacts s') :
    ∀ a ∈ artifacts, a.kind ≠ .spec := by
  unfold children at done
  split at done
  · obtain ⟨stubs, stubbed, servants, served, dispatcher, first, second, third, rfl⟩ := interfaceChildren_ok done
    have proxies : ∀ a ∈ stubs, a.kind ≠ .spec := by
      rcases proxies_ok first with ⟨-, rfl, -⟩ | ⟨_, _, spec, _, _, _, body, -, specMade, -, bodyMade, rfl⟩
      · simp
      · simp [package_kind_eq specMade, package_kind_eq bodyMade]
    have implementation : ∀ a ∈ servants, a.kind ≠ .spec := by
      rcases implementation_ok second with ⟨rfl, -⟩ | ⟨_, _, _, _, spec, _, -, -, specMade, last⟩
      · simp
      · rcases last with ⟨rfl, -⟩ | ⟨_, _, body, -, bodyMade, rfl⟩
        · simp [package_kind_eq specMade]
        · simp [package_kind_eq specMade, package_kind_eq bodyMade]
    have skeleton : ∀ a ∈ dispatcher, a.kind ≠ .spec := by
      rcases skeleton_ok third with ⟨rfl, -⟩ | ⟨entries, -, rfl⟩ <;> simp
    intro a listed
    rcases List.mem_append.mp listed with front | dispatched
    · rcases List.mem_append.mp front with stub | servant
      · exact proxies a stub
      · exact implementation a servant
    · exact skeleton a dispatched
  · cases done
    simp

/-- Only the first phase makes a specification. -/
theorem generateUnit_ordered (isUnit : ctx.tree.hasKind Kind.isUnit unit = true) (idle : s.trace.busy = [])
    (fresh : ∀ n ∈ s.trace.defined, ctx.tree.packageOf n ≠ unit) {output : UnitOutput}
    (done : generateUnit ctx unit s = .ok output s') :
    ∀ a ∈ output.artifacts, a.kind = .spec → a.Ordered ctx output.node := by
  obtain ⟨named, specs, declared, _, bodies, _, codecs, _, others, first, specified, bodied, coded, rest, same,
    artifacts⟩ := generateUnit_ok done
  obtain ⟨names, rfl⟩ := withNames_run first
  intro a listed isSpec
  rw [artifacts] at listed
  simp only [List.mem_append] at listed
  rw [same]
  rcases listed with ((spec | body) | codec) | other
  · exact specification_ordered (s := { s with names }) inherits isUnit idle fresh specified a spec
  · exact absurd isSpec (packageBody_kind_ne bodied a body)
  · exact absurd isSpec (marshalling_kind_ne coded a codec)
  · exact absurd isSpec (children_kind_ne rest a other)

theorem mapM_generateUnit_ordered {units : List Nat} (distinct : units.Nodup)
    (areUnits : ∀ u ∈ units, ctx.tree.hasKind Kind.isUnit u = true) (idle : s.trace.busy = [])
    (fresh : ∀ n ∈ s.trace.defined, ctx.tree.packageOf n ∉ units) {outputs : List UnitOutput}
    (done : units.mapM (generateUnit ctx) s = .ok outputs s') :
    ∀ output ∈ outputs, ∀ a ∈ output.artifacts, a.kind = .spec → a.Ordered ctx output.node := by
  intro output listed
  obtain ⟨earlier, later, made, middle, after, -, turn⟩ :=
    exists_turn_of_mem inherits distinct areUnits idle fresh done listed
  exact generateUnit_ordered inherits turn.isUnit turn.idle turn.fresh turn.generated

end Emit

open Emit

/-- Whatever is configured to exist already, a specification has each declaration once, and before it all that
the declaration refers to in the specification's package and that has to be declared there, unless the two lead
to each other. -/
theorem declared_before_use (script : List Step) (settings : Settings) (outputs : List UnitOutput)
    (bases : ∀ id ∈ (Tree.ofSteps script).ids, ∀ kind ∈ (Tree.ofSteps script).kind? id,
      ∀ base ∈ kind.firstBase?, isInterface ⟨.ofSteps script, settings⟩ base = true)
    (done : generate ⟨.ofSteps script, settings⟩ = .ok outputs) :
    let ctx : Context := ⟨.ofSteps script, settings⟩
    ∀ output ∈ outputs, ∀ spec ∈ output.artifacts, spec.kind = .spec → spec.declares.Nodup ∧
      ∀ n ∈ spec.declares, ∀ r ∈ ctx.tree.declarationRefs n, ctx.tree.isLocal output.node settings.imports r = true →
        spec.DeclaresBefore settings r n ∨ ctx.Leads output.node n r ∧ ctx.Leads output.node r n := by
  intro ctx
  have wf : ctx.tree.WellFormed := Tree.ofSteps_wellFormed script
  have inherits : Inherits ctx :=
    ⟨wf, fun {node base others} found => bases node (Tree.mem_ids_of_kind? found) _ found base rfl⟩
  obtain ⟨all, last, each, rfl⟩ := generate_ok done
  have areUnits : ∀ u ∈ ctx.tree.units Tree.root, ctx.tree.hasKind Kind.isUnit u = true :=
    fun u listed => Tree.isUnit_of_mem_units wf.isUnit_root listed
  have ordered := mapM_generateUnit_ordered inherits (wf.units_nodup Tree.root) areUnits (s := .start) rfl
    (fun n listed => absurd listed List.not_mem_nil) each
  exact fun output listed => ordered output (List.mem_filter.mp listed).1

/-- A structure that holds a sequence of itself, a typedef declared after it and a structure that exists
already. The typedef is of an enumeration that is declared after it in turn. -/
def lateDeclarations : List Step :=
  [.module 0 "M", .struct 1 "Tree", .sequence 2 2 none, .field 2 "children" 3, .field 2 "label" 6,
    .typedef 1 "Label" 7, .enum 1 "Colour" ["red"], .struct 1 "Known", .field 2 "known" 9]

/-- The enumeration comes before the typedef, to which nothing leads back from it. -/
theorem late_enumeration_declared_first :
    ∃ outputs, generate ⟨.ofSteps lateDeclarations, { imports := [9] }⟩ = .ok outputs ∧
      ∃ output ∈ outputs, output.node = 1 ∧ ∃ spec ∈ output.artifacts, spec.kind = .spec ∧
        spec.declares = [3, 7, 6, 2] ∧ spec.DeclaresBefore { imports := [9] } 7 6 := by
  have made : ∃ outputs, generate ⟨.ofSteps lateDeclarations, { imports := [9] }⟩ = .ok outputs ∧
      ∃ output ∈ outputs, output.node = 1 ∧ ∃ spec ∈ output.artifacts, spec.kind = .spec ∧
        spec.declares = [3, 7, 6, 2] := by
    apply exists_outputs
    decide +kernel
  obtain ⟨outputs, done, output, listed, isModule, spec, among, isSpec, declares⟩ := made
  refine ⟨outputs, done, output, listed, isModule, spec, among, isSpec, declares, ?_⟩
  have ordered := (declared_before_use lateDeclarations { imports := [9] } outputs (by decide +kernel) done output
    listed spec among isSpec).2 6 (by simp [declares]) 7 (by decide +kernel) (by rw [isModule]; decide +kernel)
  refine ordered.resolve_right fun back => ?_
  obtain same | ⟨next, ⟨refers, -⟩, -⟩ := back.2.cases_head
  · cases same
  · have none : (Tree.ofSteps lateDeclarations).declarationRefs 7 = [] := by decide +kernel
    rw [none] at refers
    cases refers

end AdaStubs
