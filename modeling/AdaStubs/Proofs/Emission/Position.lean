import AdaStubs.Proofs.Emission.External

/-!
# Positions

Whether a declaration comes from outside an artifact. What the artifact has been told to exist already makes
a difference, and so does the place of the declaration in the tree; the packages recorded on the way do not.
-/

namespace AdaStubs

open Ada Run

namespace Tree

/-- The scopes of `node` from itself up to `unit`, which is left out. -/
def pathTo (t : Tree) (unit node : Nat) : List Nat := (node :: t.ancestors node).takeWhile (· != unit)

/-- Whether `node` is of another package than `unit`, or within something known to exist already. -/
def isOutside (t : Tree) (unit : Nat) (known : List Nat) (node : Nat) : Bool :=
  t.packageOf node != unit || (t.pathTo unit node).any known.contains

/-- Whether `node` is a type that has to be declared in an artifact of `unit` before it can be used there. -/
def isLocal (t : Tree) (unit : Nat) (known : List Nat) (node : Nat) : Bool :=
  t.hasKind (fun kind => kind.isType && !kind.isRuntime) node && !t.isOutside unit known node

variable {t : Tree} {unit node : Nat} {known : List Nat}

theorem isOutside_eq_false : t.isOutside unit known node = false ↔
    t.packageOf node = unit ∧ ∀ scope ∈ t.pathTo unit node, scope ∉ known := by
  simp [isOutside]

theorem isOutside_nil : t.isOutside unit [] node = false ↔ t.packageOf node = unit := by
  simp [isOutside]

theorem isLocal_iff : t.isLocal unit known node = true ↔
    t.hasKind (fun kind => kind.isType && !kind.isRuntime) node = true ∧ t.isOutside unit known node = false := by
  simp [isLocal]

theorem packageOf_of_isLocal (isLocal : t.isLocal unit known node = true) : t.packageOf node = unit :=
  (isOutside_eq_false.mp (isLocal_iff.mp isLocal).2).1

theorem isType_of_isLocal (isLocal : t.isLocal unit known node = true) : t.hasKind Kind.isType node = true := by
  obtain ⟨present, found, kind⟩ := exists_of_hasKind (isLocal_iff.mp isLocal).1
  rw [hasKind_eq found]
  exact (Bool.and_eq_true_iff.mp kind).1

/-- Within a package the way to it is the whole way, since a package is not inside its own declarations. -/
theorem WellFormed.outerPath_eq (wf : t.WellFormed) (home : t.packageOf node = unit) :
    Dependencies.outerPath t unit node = t.pathTo unit node := by
  induction node using Nat.strongRecOn with
  | ind node ih =>
    unfold Dependencies.outerPath pathTo
    cases isUnit : t.hasKind Kind.isUnit node with
    | true =>
      rw [wf.packageOf_unit isUnit] at home
      simp [home]
    | false =>
      have package : t.packageOf node = t.enclosingUnit node := by rw [wf.packageOf_eq, isUnit, if_neg (by simp)]
      have inner : node ≠ root := by
        rintro rfl
        simp [wf.isUnit_root] at isUnit
      have below : unit < node := by
        rw [← home, package]
        exact t.enclosingUnit_lt inner
      have apart : node ∉ unit :: t.ancestors unit := by
        rintro (_ | ⟨_, above⟩)
        · exact Nat.lt_irrefl _ below
        · exact Nat.lt_asymm below (t.lt_of_mem_ancestors above)
      rw [List.takeWhile_cons_of_pos (by simpa using apart),
        List.takeWhile_cons_of_pos (by simpa using Nat.ne_of_gt below)]
      congr 1
      cases around : t.ancestors node with
      | nil => rfl
      | cons outer further =>
        obtain ⟨present, scope, found, inside, -⟩ := scope_of_mem_ancestors (around ▸ List.mem_cons_self)
        cases around.symm.trans (ancestors_of_scope found inside)
        apply ih outer (t.scope_lt found inside)
        rw [← home, package, wf.enclosingUnit_of_scope found inside]

/-- Between a declaration and its package there is no other package: it would be `unit` or around it, and the way
ends before that. -/
theorem WellFormed.not_isUnit_of_mem_pathTo (wf : t.WellFormed) (home : t.packageOf node = unit) {scope : Nat}
    (onPath : scope ∈ t.pathTo unit node) : t.hasKind Kind.isUnit scope = false := by
  rw [Bool.eq_false_iff]
  intro isUnit
  have above := (List.takeWhile_sublist _).subset onPath
  have package : t.packageOf scope = unit ∨ scope ∈ t.ancestors unit := by
    rcases List.mem_cons.mp above with rfl | further
    · exact .inl home
    · rw [← home]
      exact wf.packageOf_or_above further
  rw [wf.packageOf_unit isUnit] at package
  rw [← wf.outerPath_eq home] at onPath
  have outside := List.all_eq_true.mp List.all_takeWhile scope onPath
  simp only [Bool.not_eq_true', List.contains_eq_mem, decide_eq_false_iff_not, List.mem_cons] at outside
  exact outside package

theorem pathTo_self (t : Tree) (unit : Nat) : t.pathTo unit unit = [] := by
  simp [pathTo]

theorem WellFormed.pathTo_member (wf : t.WellFormed) {scope : Nat} (listed : node ∈ t.members scope)
    (apart : node ≠ unit) : t.pathTo unit node = node :: t.pathTo unit scope := by
  obtain ⟨-, inner, -, found, inside, -⟩ := wf.member_inside listed
  rw [pathTo, ancestors_of_scope found inside, List.takeWhile_cons_of_pos (by simpa using apart)]
  rfl

theorem WellFormed.pathTo_of_unit (wf : t.WellFormed) (isUnit : t.hasKind Kind.isUnit unit = true)
    (listed : node ∈ t.members unit) (inner : t.hasKind Kind.isUnit node = false) : t.pathTo unit node = [node] := by
  rw [wf.pathTo_member listed, pathTo_self]
  rintro rfl
  simp [isUnit] at inner

/-- A member of a package is outside it only if it is known itself. -/
theorem WellFormed.isOutside_member (wf : t.WellFormed) (isUnit : t.hasKind Kind.isUnit unit = true)
    (listed : node ∈ t.members unit) (inner : t.hasKind Kind.isUnit node = false) :
    t.isOutside unit known node = false ↔ node ∉ known := by
  rw [isOutside_eq_false, wf.pathTo_of_unit isUnit listed inner]
  simp [(wf.declared_in_unit isUnit listed inner).2]

/-- The way from a nested declaration goes on as that from the declaration around it, and before that meets no
member of the package. -/
theorem WellFormed.pathTo_innerFirst (wf : t.WellFormed) (isUnit : t.hasKind Kind.isUnit unit = true) {inner : Nat}
    (within : inner ∈ t.innerFirst node) :
    ∃ front, t.pathTo unit inner = front ++ t.pathTo unit node ∧ ∀ scope ∈ front, scope ∉ t.members unit := by
  induction node using t.members_induction with
  | step node ih =>
    rcases mem_innerFirst.mp within with rfl | ⟨⟨-, record⟩, member, listed, isType, deeper⟩
    · exact ⟨[], rfl, by simp⟩
    · obtain ⟨front, path, off⟩ := ih member listed deeper
      obtain ⟨outer, inner, around, found, inside, held⟩ := wf.member_inside listed
      have memberInner : t.hasKind Kind.isUnit member = false := by
        rw [hasKind_eq found] at isType ⊢
        rw [hasKind_eq around] at record
        exact (Kind.isDeclared_of_isType held record isType).2
      have apart : member ≠ unit := by
        rintro rfl
        simp [isUnit] at memberInner
      refine ⟨front ++ [member], by rw [path, wf.pathTo_member listed apart]; simp, ?_⟩
      intro scope among
      rcases List.mem_append.mp among with early | last
      · exact off scope early
      · rw [List.mem_singleton.mp last]
        intro direct
        obtain ⟨-, same, -, foundAgain, insideUnit, -⟩ := wf.member_inside direct
        cases found.symm.trans foundAgain
        cases inside.symm.trans insideUnit
        simp [isUnit] at record

/-- On the way to its package a declaration meets one member of the package, the one it is nested in. -/
theorem WellFormed.member_on_path_iff (wf : t.WellFormed) (isUnit : t.hasKind Kind.isUnit unit = true)
    {member scope : Nat} (listed : member ∈ t.members unit) (inner : t.hasKind Kind.isUnit member = false)
    (within : node ∈ t.innerFirst member) :
    scope ∈ t.pathTo unit node ∧ scope ∈ t.members unit ↔ scope = member := by
  obtain ⟨front, path, off⟩ := wf.pathTo_innerFirst isUnit within
  rw [path, wf.pathTo_of_unit isUnit listed inner, List.mem_append, List.mem_singleton]
  constructor
  · rintro ⟨early | same, direct⟩
    · exact absurd direct (off scope early)
    · exact same
  · rintro rfl
    exact ⟨.inr rfl, listed⟩

end Tree

/-- The dependencies of an artifact of `unit` that was told of what is known, and has recorded only packages
since. -/
structure Dependencies.Packaged (t : Tree) (unit : Nat) (known : List Nat) (d : Dependencies) : Prop where
  unit_eq : d.unit = unit
  told : ∀ {a : Aspect} {e}, e ∈ known → e ∈ a.recorded d
  packages : ∀ {a : Aspect} {e}, e ∈ a.recorded d → e ∈ known ∨ t.hasKind Kind.isUnit e = true

namespace Dependencies

/-- The dependencies of an artifact of `unit` that has only been told of what is known. -/
def told (unit : Nat) (known : List Nat) : Dependencies :=
  known.foldl (fun d node => (d.record node).recordMarshal node) (.ofUnit unit)

theorem mem_recorded_record {a : Aspect} {d : Dependencies} {package e : Nat} :
    e ∈ a.recorded (d.record package) ↔ e ∈ a.recorded d ∨ a = .declaration ∧ e = package := by
  cases a with
  | declaration => simpa [Aspect.recorded, record] using mem_appendNew
  | marshalling => simp [Aspect.recorded, record]

theorem mem_recorded_recordMarshal {a : Aspect} {d : Dependencies} {package e : Nat} :
    e ∈ a.recorded (d.recordMarshal package) ↔ e ∈ a.recorded d ∨ a = .marshalling ∧ e = package := by
  cases a with
  | declaration => simp [Aspect.recorded, recordMarshal]
  | marshalling => simpa [Aspect.recorded, recordMarshal] using mem_appendNew

/-- A declaration of the own package is available if something on the way to the package has been recorded. -/
theorem reaches_iff_isOutside {t : Tree} {unit node : Nat} {known list : List Nat} (wf : t.WellFormed)
    (home : t.packageOf node = unit) (entries : ∀ scope ∈ t.pathTo unit node, scope ∈ list ↔ scope ∈ known) :
    Reaches t unit list node ↔ t.isOutside unit known node = true := by
  unfold Reaches Tree.isOutside
  rw [wf.outerPath_eq home]
  simp only [home, ne_eq, not_true_eq_false, false_and, false_or, bne_self_eq_false, Bool.false_or,
    List.any_eq_true, List.contains_iff_mem]
  exact exists_congr fun scope => and_congr_right fun onPath => entries scope onPath

namespace Packaged

variable {t : Tree} {unit : Nat} {known : List Nat} {d : Dependencies}

theorem of_recorded (packaged : Packaged t unit known d) {d' : Dependencies} (unit_eq : d'.unit = d.unit)
    (recorded : ∀ a : Aspect, a.recorded d' = a.recorded d) : Packaged t unit known d' := by
  refine ⟨unit_eq.trans packaged.unit_eq, ?_, ?_⟩
  · intro a e listed
    rw [recorded a]
    exact packaged.told listed
  · intro a e listed
    rw [recorded a] at listed
    exact packaged.packages listed

theorem setRuntime (packaged : Packaged t unit known d) (packages : List RuntimeImport) :
    Packaged t unit known { d with runtime := packages } :=
  packaged.of_recorded rfl fun a => by cases a <;> rfl

theorem mention (packaged : Packaged t unit known d) (m : Mention) : Packaged t unit known (d.mention m) :=
  packaged.of_recorded rfl fun a => by cases a <;> rfl

theorem record (packaged : Packaged t unit known d) {package : Nat}
    (isUnit : t.hasKind Kind.isUnit package = true) : Packaged t unit known (d.record package) := by
  refine ⟨packaged.unit_eq, fun listed => mem_recorded_record.mpr (.inl (packaged.told listed)), ?_⟩
  intro a e listed
  rcases mem_recorded_record.mp listed with earlier | ⟨-, rfl⟩
  · exact packaged.packages earlier
  · exact .inr isUnit

theorem recordMarshal (packaged : Packaged t unit known d) {package : Nat}
    (isUnit : t.hasKind Kind.isUnit package = true) : Packaged t unit known (d.recordMarshal package) := by
  refine ⟨packaged.unit_eq, fun listed => mem_recorded_recordMarshal.mpr (.inl (packaged.told listed)), ?_⟩
  intro a e listed
  rcases mem_recorded_recordMarshal.mp listed with earlier | ⟨-, rfl⟩
  · exact packaged.packages earlier
  · exact .inr isUnit

theorem recordPackage (packaged : Packaged t unit known d) (a : Aspect) {package : Nat}
    (isUnit : t.hasKind Kind.isUnit package = true) : Packaged t unit known (a.recordPackage d package) := by
  cases a with
  | declaration => exact packaged.record isUnit
  | marshalling => exact (packaged.record isUnit).recordMarshal isUnit

theorem learn (packaged : Packaged t unit known d) (node : Nat) :
    Packaged t unit (known ++ [node]) ((d.record node).recordMarshal node) := by
  refine ⟨packaged.unit_eq, ?_, ?_⟩
  · intro a e listed
    rw [mem_recorded_recordMarshal, mem_recorded_record]
    rcases List.mem_append.mp listed with earlier | last
    · exact .inl (.inl (packaged.told earlier))
    · have same := List.mem_singleton.mp last
      cases a with
      | declaration => exact .inl (.inr ⟨rfl, same⟩)
      | marshalling => exact .inr ⟨rfl, same⟩
  · intro a e listed
    rw [mem_recorded_recordMarshal, mem_recorded_record] at listed
    rcases listed with (earlier | ⟨-, rfl⟩) | ⟨-, rfl⟩
    · exact (packaged.packages earlier).imp_left (List.mem_append_left _)
    · exact .inl (List.mem_append_right _ List.mem_cons_self)
    · exact .inl (List.mem_append_right _ List.mem_cons_self)

theorem of_told (t : Tree) (unit : Nat) (known : List Nat) : Packaged t unit known (.told unit known) := by
  have learns : ∀ (list : List Nat) {before : List Nat} {d : Dependencies}, Packaged t unit before d →
      Packaged t unit (before ++ list) (list.foldl (fun d node => (d.record node).recordMarshal node) d) := by
    intro list
    induction list with
    | nil =>
      intro before d packaged
      rwa [List.append_nil]
    | cons node list ih =>
      intro before d packaged
      have further := ih (packaged.learn node)
      rwa [List.append_assoc] at further
  have start : Packaged t unit [] (.ofUnit unit) := by
    refine ⟨rfl, fun listed => absurd listed List.not_mem_nil, ?_⟩
    intro a e listed
    cases a <;> cases listed
  exact learns known start

/-- The packages recorded make nothing of the own package available. -/
theorem reaches_iff (packaged : Packaged t unit known d) (wf : t.WellFormed) {a : Aspect} {node : Nat}
    (home : t.packageOf node = unit) :
    Reaches t unit (a.recorded d) node ↔ t.isOutside unit known node = true := by
  refine reaches_iff_isOutside wf home fun scope onPath => ⟨fun listed => ?_, packaged.told⟩
  refine (packaged.packages listed).resolve_right fun isUnit => ?_
  rw [wf.not_isUnit_of_mem_pathTo home onPath] at isUnit
  cases isUnit

end Packaged

end Dependencies

namespace Emit

open Dependencies

variable {ctx : Context} {a : Aspect} {unit node : Nat} {known : List Nat} {s s' : Session} {outside : Bool}

theorem Sighting.packaged (sighting : Sighting ctx a node s outside s') (wf : ctx.tree.WellFormed)
    (packaged : Packaged ctx.tree unit known s.deps) : Packaged ctx.tree unit known s'.deps := by
  cases sighting with
  | runtime found isRuntime packages => exact packaged.setRuntime packages
  | reached | own => exact packaged
  | recorded found ordinary unreached away => exact packaged.recordPackage a (wf.isUnit_packageOf node)

/-- Types of the runtime library come from outside, and all else if its position says so. -/
theorem Sighting.outside_of_reaches (sighting : Sighting ctx a node s outside s') (unit_eq : s.deps.unit = unit)
    (reaches_iff : ctx.tree.packageOf node = unit →
      (Reaches ctx.tree unit (a.recorded s.deps) node ↔ ctx.tree.isOutside unit known node = true)) :
    outside = (ctx.tree.hasKind Kind.isRuntime node || ctx.tree.isOutside unit known node) := by
  have away_iff (away : ctx.tree.packageOf node ≠ unit) : ctx.tree.isOutside unit known node = true := by
    simp [Tree.isOutside, away]
  cases sighting with
  | runtime found isRuntime packages => simp [Tree.hasKind, found, isRuntime]
  | reached found ordinary reaches =>
    rw [unit_eq] at reaches
    by_cases home : ctx.tree.packageOf node = unit
    · simp [(reaches_iff home).mp reaches]
    · simp [away_iff home]
  | own found ordinary unreached home =>
    rw [unit_eq] at unreached home
    have inside : ctx.tree.isOutside unit known node = false := by
      simpa using fun found => unreached ((reaches_iff home).mpr found)
    simp [Tree.hasKind, found, ordinary, inside]
  | recorded found ordinary unreached away => simp [away_iff (unit_eq ▸ away)]

theorem Sighting.outside_eq (sighting : Sighting ctx a node s outside s') (wf : ctx.tree.WellFormed)
    (packaged : Packaged ctx.tree unit known s.deps) :
    outside = (ctx.tree.hasKind Kind.isRuntime node || ctx.tree.isOutside unit known node) :=
  sighting.outside_of_reaches packaged.unit_eq fun home => packaged.reaches_iff wf home

theorem Sighting.isLocal_iff (sighting : Sighting ctx a node s outside s') (wf : ctx.tree.WellFormed)
    (packaged : Packaged ctx.tree unit known s.deps) (isType : ctx.tree.hasKind Kind.isType node = true) :
    ctx.tree.isLocal unit known node = true ↔ outside = false := by
  obtain ⟨present, found, kind⟩ := Tree.exists_of_hasKind isType
  rw [sighting.outside_eq wf packaged, Tree.isLocal_iff, Tree.hasKind_eq found, Tree.hasKind_eq found, kind]
  simp

end Emit

end AdaStubs
