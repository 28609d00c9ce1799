import AdaStubs.Proofs.Emission.History

/-!
# Composite types

A composite type is taken apart twice, by its declaration and by its marshalling, and the two may be written far
apart. What they say of the members comes from the tree: the local names of the members, and the choices of a
union as the position of the enumerators has them.

Main statement: `declaration_and_codec_agree`.
-/

namespace AdaStubs

open Ada Run Dependencies

/-! ## Shapes of the text -/

namespace Ada

/-- A declaration for each of the components `names`. -/
def componentLines (names types : List String) : List String :=
  List.zipWith (fun name type => s!"{name} : {type} ;") names types

/-- An alternative for each of the branches, which are a choice list and a component, and one for the other
values unless a branch has it. -/
def branchCases (branches : List (String × String)) (inside : List String) : List (String × String) :=
  List.zipWith (fun branch text => (branch.1, text)) branches inside
    ++ if branches.any (·.1 == others) then [] else [(others, "null ;")]

/-- The declaration has a record with the components `names`. -/
inductive Declaration.HasComponents (d : Declaration) (names : List String) : Prop
  | struct (name : String) (types : List String) (each : types.length = names.length)
      (text : d.code = recordCode s!"type {name} is" (componentLines names types) ++ accessType name ++ Code.blank)
  | exception (name base : String) (types : List String) (each : types.length = names.length)
      (text : d.code = Code.line s!"{name} : exception ;" ++
        recordCode s!"type {name}_Members is new {base} with" (componentLines names types) ++
        Code.line (membersProfile name ++ " ;") ++ Code.blank)

/-- The three bodies visit the components `names`. -/
def Codec.VisitsComponents (c : Codec) (r : RuntimeNames) (names : List String) : Prop :=
  ∃ type : String, c.code r =
    subprogramBody (Profiles.ofType r type).marshal "Marshall" []
        (Code.lines (orNull (names.map fun name => s!"Marshall (A.{name}, S) ;"))) ++
      subprogramBody (Profiles.ofType r type).unmarshal "UnMarshall" []
        (Code.lines (orNull (names.map fun name => s!"UnMarshall (A.{name}, S) ;"))) ++
      subprogramBody (Profiles.ofType r type).size "Align_Size" [sizeVariable r.sizeType]
        ((if names = [] then []
          else forEachValue (Code.lines (names.map fun name => s!"Tmp := Align_Size (A.{name}, Tmp) ;"))) ++
          Code.line "return Tmp ;")

/-- The declaration has a variant part with the branches. -/
def Declaration.HasBranches (d : Declaration) (branches : List (String × String)) : Prop :=
  ∃ (name switch : String) (types : List String), types.length = branches.length ∧ d.code =
    Code.block s!"type {name} (Switch : {switch} := {switch}'First) is record" "end record ;"
        (caseCode "Switch" (branchCases branches (componentLines (branches.map (·.2)) types))) ++
      accessType name ++ Code.blank

/-- The case statement of each of the three bodies has the branches. -/
def Codec.VisitsBranches (c : Codec) (r : RuntimeNames) (branches : List (String × String)) : Prop :=
  ∃ type switch : String, c.code r =
    subprogramBody (Profiles.ofType r type).marshal "Marshall" []
        (Code.line "Marshall (A.Switch, S) ;" ++
          caseCode "A.Switch" (branchCases branches (branches.map fun b => s!"Marshall (A.{b.2}, S) ;"))) ++
      subprogramBody (Profiles.ofType r type).unmarshal "UnMarshall" [s!"Switch : {switch} ;"]
        (Code.lines ["UnMarshall (Switch, S) ;", "declare"] ++ (Code.line s!"Tmp : {type} (Switch) ;").nest ++
          Code.line "begin" ++
          (caseCode "Switch" (branchCases branches (branches.map fun b => s!"UnMarshall (Tmp.{b.2}, S) ;")) ++
            Code.line "A := Tmp ;").nest ++
          Code.line "end ;") ++
      subprogramBody (Profiles.ofType r type).size "Align_Size" [sizeVariable r.sizeType]
        (forEachValue (Code.line "Tmp := Align_Size (A.Switch, Tmp) ;" ++
          caseCode "A.Switch" (branchCases branches (branches.map fun b => s!"Tmp := Align_Size (A.{b.2}, Tmp) ;"))) ++
          Code.line "return Tmp ;")

/-- The declaration has `rank` index ranges. -/
def Declaration.HasRanges (d : Declaration) (rank : Nat) : Prop :=
  ∃ (name element : String) (ranges : List String), ranges.length = rank ∧
    let list := ", ".intercalate ranges
    d.code = Code.line s!"type {name} is array ({list}) of {element} ;" ++ accessType name ++ Code.blank

/-- The bodies visit each element through the loops of `nest`, the last of them only where the elements are not of
the same size. -/
def Codec.VisitsElements (c : Codec) (r : RuntimeNames) (nest : IndexNest) (fixed : Bool) : Prop :=
  ∃ (type : String) (sizing : Code), c.code r =
    subprogramBody (Profiles.ofType r type).marshal "Marshall" []
        (nest.code "A" fun element => Code.line s!"Marshall ({element}, S) ;") ++
      subprogramBody (Profiles.ofType r type).unmarshal "UnMarshall" []
        (nest.code "A" fun element => Code.line s!"UnMarshall ({element}, S) ;") ++
      subprogramBody (Profiles.ofType r type).size "Align_Size" [sizeVariable r.sizeType]
        (sizing ++ Code.line "return Tmp ;") ∧
    (fixed = false →
      sizing = forEachValue (nest.code "A" fun element => Code.line s!"Tmp := Align_Size ({element}, Tmp) ;"))

theorem componentLines_eq (components : List Component) :
    components.map (·.declaration) = componentLines (components.map (·.name)) (components.map (·.typeName)) := by
  simp [componentLines, Component.declaration, List.zipWith_map]

theorem alternatives_eq (variants : List Variant) (inside : Component → String) :
    alternatives variants inside = branchCases (variants.map fun v => (v.choices, v.component.name))
      (variants.map fun v => inside v.component) := by
  simp [alternatives, branchCases, List.zipWith_map, Function.comp_def]

theorem Declaration.hasBranches_union (name switch : String) (variants : List Variant) :
    (union name switch variants).HasBranches (variants.map fun v => (v.choices, v.component.name)) := by
  refine ⟨name, switch, variants.map (·.component.typeName), by simp, ?_⟩
  simp [code, alternatives_eq, componentLines, Component.declaration, List.zipWith_map]

theorem Declaration.hasComponents_record (name : String) (components : List Component) :
    (record name components).HasComponents (components.map (·.name)) := by
  refine .struct name (components.map (·.typeName)) (by simp) ?_
  rw [code, componentLines_eq]

theorem Declaration.hasComponents_exception (name base : String) (components : List Component) :
    (exception name base components).HasComponents (components.map (·.name)) := by
  refine .exception name base (components.map (·.typeName)) (by simp) ?_
  rw [code, componentLines_eq]

theorem Declaration.hasRanges_array (name : String) (extents : List Nat) (element : String) :
    (array name extents element).HasRanges extents.length :=
  ⟨name, element, extents.map indexRange, by simp, rfl⟩

theorem Codec.visitsComponents_record (r : RuntimeNames) (type : String) (components : List Component) :
    (record type components).VisitsComponents r (components.map (·.name)) := by
  refine ⟨type, ?_⟩
  simp [code, Codec.type, recordBodies, Bodies.code, Function.comp_def]

theorem Codec.visitsBranches_union (r : RuntimeNames) (type switch : String) (variants : List Variant) :
    (union type switch variants).VisitsBranches r (variants.map fun v => (v.choices, v.component.name)) := by
  refine ⟨type, switch, ?_⟩
  simp [code, Codec.type, unionBodies, Bodies.code, alternatives_eq, Function.comp_def]

theorem Codec.visitsElements_array (r : RuntimeNames) (type : String) (plan : ArrayPlan) :
    (array type plan).VisitsElements r plan.nest plan.elementFixed := by
  refine ⟨type, plan.sizing, rfl, fun varies => ?_⟩
  rw [ArrayPlan.sizing, varies, if_neg Bool.false_ne_true]

end Ada

theorem length_of_extents {dims : List Value} {node : Nat} {list : List Nat}
    (given : extents dims node = .ok list) : list.length = dims.length := by
  unfold extents at given
  induction dims generalizing list with
  | nil =>
    cases given
    rfl
  | cons dim dims ih =>
    rw [List.mapM_cons] at given
    cases first : dim.extent node "array bound" with
    | error e =>
      rw [first] at given
      cases given
    | ok extent =>
      rw [first] at given
      cases rest : dims.mapM fun d => d.extent node "array bound" with
      | error e =>
        rw [rest] at given
        cases given
      | ok others =>
        rw [rest] at given
        cases given
        rw [List.length_cons, ih rest, List.length_cons]

theorem mapM_of_map_eq {α β : Type} {f : α → Except Fault β} {l : List α} {results : List β}
    (each : l.map f = results.map .ok) : l.mapM f = .ok results := by
  induction l generalizing results with
  | nil =>
    cases results with
    | nil => rfl
    | cons result results => cases each
  | cons x l ih =>
    cases results with
    | nil => cases each
    | cons result results =>
      rw [List.map_cons, List.map_cons, List.cons.injEq] at each
      rw [List.mapM_cons, each.1, ih each.2]
      rfl

/-! ## Choices by position -/

namespace Tree

/-- The declarations around `node` in `unit` are not recorded as the first base of an interface, unless they are
known. Where bases are interfaces this is always so. -/
def Steady (t : Tree) (unit : Nat) (known : List Nat) (node : Nat) : Prop :=
  ∀ id ∈ t.ids, ∀ kind ∈ t.kind? id, ∀ base ∈ kind.firstBase?, base ∈ t.pathTo unit node → base ∈ known

instance (t : Tree) (unit : Nat) (known : List Nat) (node : Nat) : Decidable (t.Steady unit known node) :=
  inferInstanceAs (Decidable (∀ id ∈ t.ids, ∀ kind ∈ t.kind? id, ∀ base ∈ kind.firstBase?,
    base ∈ t.pathTo unit node → base ∈ known))

/-- The enumerators of `unit` among the labels of the union are steady. -/
def SteadyLabels (t : Tree) (unit : Nat) (known : List Nat) (union : Nat) : Prop :=
  ∀ branch ∈ t.branches union, ∀ e ∈ (Emit.labelValues branch.2.1).filterMap Value.enumerator?,
    t.packageOf e = unit → t.Steady unit known e

instance (t : Tree) (unit : Nat) (known : List Nat) (union : Nat) : Decidable (t.SteadyLabels unit known union) :=
  inferInstanceAs (Decidable (∀ branch ∈ t.branches union,
    ∀ e ∈ (Emit.labelValues branch.2.1).filterMap Value.enumerator?, t.packageOf e = unit → t.Steady unit known e))

end Tree

namespace Context

variable (ctx : Context) (unit : Nat) (known : List Nat)

/-- What an enumerator is called in an artifact of `unit` with the imports `known`. -/
def enumeratorName (node : Nat) : Except Fault String :=
  if ctx.tree.hasKind Kind.isRuntime node || ctx.tree.isOutside unit known node
  then (NameTable.fullName ctx node).outcome .empty
  else ctx.localName node

def literal : Value → Except Fault String
  | .enumerator node => ctx.enumeratorName unit known node
  | value => (Emit.literal ctx value).outcome .start

def choices (labels : List Label) : Except Fault String := do
  if labels.contains .default then return others
  return " | ".intercalate (← (Emit.labelValues labels).mapM (ctx.literal unit known))

end Context

/-- The dependencies of an artifact of `unit` with the imports `known`, and what has been recorded since. -/
structure Dependencies.Grown (t : Tree) (unit : Nat) (known : List Nat) (d : Dependencies) : Prop where
  unit_eq : d.unit = unit
  entries : ∀ {node scope : Nat}, t.packageOf node = unit → t.Steady unit known node → scope ∈ t.pathTo unit node →
    (scope ∈ d.imports ↔ scope ∈ known)

theorem Dependencies.Grown.record {t : Tree} {unit entry : Nat} {known : List Nat} {d : Dependencies}
    (grown : d.Grown t unit known) (harmless : ∀ {node}, t.packageOf node = unit → t.Steady unit known node →
      entry ∈ t.pathTo unit node → entry ∈ known) : (d.record entry).Grown t unit known := by
  refine ⟨grown.unit_eq, fun home steady onPath => mem_appendNew.trans ?_⟩
  rw [grown.entries home steady onPath, or_iff_left_iff_imp]
  rintro rfl
  exact harmless home steady onPath

namespace Emit

variable {ctx : Context} {unit : Nat} {known : List Nat} {F : Item → Prop}

theorem absorbs_grown (wf : ctx.tree.WellFormed) : Absorbs ctx (Grown ctx.tree unit known) where
  runtime packages grown := ⟨grown.unit_eq, grown.entries⟩
  mention m grown := ⟨grown.unit_eq, grown.entries⟩
  package {d} a node grown := by
    have recorded : (d.record (ctx.tree.packageOf node)).Grown ctx.tree unit known := by
      refine grown.record fun home _ onPath => ?_
      have inner := wf.not_isUnit_of_mem_pathTo home onPath
      rw [wf.isUnit_packageOf node] at inner
      cases inner
    cases a with
    | declaration => exact recorded
    | marshalling => exact ⟨recorded.unit_eq, recorded.entries⟩
  base found first grown := grown.record fun _ steady onPath =>
    steady _ (Tree.mem_ids_of_kind? found) _ found _ first onPath

section

variable (wf : ctx.tree.WellFormed)
include wf

theorem localName_determined {Q : Dependencies → Prop} (node : Nat) :
    (localName ctx node).Yields (Orderly ctx Q F) fun name => ctx.localName node = .ok name :=
  localName_yields wf (c := orderly ctx Q F) (·.rests) (withNames_orderly (NameTable.localName_run wf node))

theorem enumeratorName_yields {node : Nat} (steady : ctx.tree.packageOf node = unit → ctx.tree.Steady unit known node) :
    (enumeratorName ctx node).Yields (Orderly ctx (Grown ctx.tree unit known) F) fun name =>
      ctx.enumeratorName unit known node = .ok name := by
  intro s name s' holds done
  have notes : Notes ctx (orderly ctx (Grown ctx.tree unit known) F) := orderly_notes wf (absorbs_grown wf)
  refine ⟨?_, ((enumeratorName_follows notes (.inr fun _ => trivial)).ok holds done).1⟩
  obtain ⟨outside, seen, sighting, named⟩ := enumeratorName_run done
  have decided : outside = (ctx.tree.hasKind Kind.isRuntime node || ctx.tree.isOutside unit known node) :=
    sighting.outside_of_reaches holds.deps.unit_eq fun home =>
      reaches_iff_isOutside wf home fun scope onPath => holds.deps.entries home (steady home) onPath
  have rests : NameTable.Rests ctx seen.names := sighting.names_eq ▸ holds.rests
  unfold Context.enumeratorName
  rw [← decided]
  rcases named with ⟨rfl, short⟩ | ⟨rfl, after, full, -⟩
  · exact withNames_alone (NameTable.localName_run wf node) rests short
  · exact withNames_alone (NameTable.fullName_run wf node) rests full

theorem literal_yields {value : Value} (steady : ∀ e ∈ value.enumerator?,
      ctx.tree.packageOf e = unit → ctx.tree.Steady unit known e) :
    (literal ctx value).Yields (Orderly ctx (Grown ctx.tree unit known) F) fun text =>
      ctx.literal unit known value = .ok text := by
  have requires : (require "Corba").Yields (Orderly ctx (Grown ctx.tree unit known) F) fun _ => True :=
    ((orderly_notes wf (absorbs_grown wf)).requires _).yields
  cases value with
  | string text => exact .bind requires fun _ _ => .pure rfl
  | wstring text => exact .bind requires fun _ _ => .pure rfl
  | enumerator e => exact enumeratorName_yields wf (steady e rfl)
  | _ => exact .pure rfl

theorem choices_yields {labels : List Label} (steady : ∀ e ∈ (labelValues labels).filterMap Value.enumerator?,
      ctx.tree.packageOf e = unit → ctx.tree.Steady unit known e) :
    (choices ctx labels).Yields (Orderly ctx (Grown ctx.tree unit known) F) fun text =>
      ctx.choices unit known labels = .ok text := by
  unfold choices Context.choices
  split
  · exact .pure rfl
  · have values : ((labelValues labels).mapM (literal ctx)).Yields (Orderly ctx (Grown ctx.tree unit known) F)
        fun texts => (labelValues labels).map (ctx.literal unit known) = texts.map .ok :=
      .mapM fun value listed => literal_yields wf fun e named =>
        steady e (List.mem_filterMap.mpr ⟨value, listed, named⟩)
    refine .bind values fun texts each => .pure ?_
    rw [mapM_of_map_eq each]
    rfl

section Members

variable {Q : Dependencies → Prop} {resolve : Nat → Emit String} {node : Nat}

theorem components_yields (refs : ∀ r, (resolve r).Follows (orderly ctx Q F) []) :
    (components ctx resolve node).Yields (Orderly ctx Q F) fun components =>
      (ctx.tree.fields node).map (fun field => ctx.localName field.1) = (components.map (·.name)).map .ok := by
  simp only [List.map_map]
  refine .mapM ?_
  rintro ⟨field, type⟩ listed
  refine .bind (refs type).yields fun typeName _ => ?_
  exact .bind (localName_determined wf field) fun name called => .pure called

/-- In two parts for each branch: its choices, as far as they are determined, and its name. -/
theorem variants_yields (refs : ∀ r, (resolve r).Follows (orderly ctx Q F) []) {γ : Type} (chosen : List Label → γ)
    (given : String → γ) (determined : ∀ branch ∈ ctx.tree.branches node,
      (choices ctx branch.2.1).Yields (Orderly ctx Q F) fun text => chosen branch.2.1 = given text) :
    (variants ctx resolve node).Yields (Orderly ctx Q F) fun variants =>
      (ctx.tree.branches node).map (fun branch => (chosen branch.2.1, ctx.localName branch.1)) =
        variants.map fun v => (given v.choices, .ok v.component.name) := by
  refine .mapM ?_
  rintro ⟨branch, labels, type⟩ listed
  refine .bind (refs type).yields fun typeName _ => ?_
  refine .bind (determined _ listed) fun choices same => ?_
  exact .bind (localName_determined wf branch) fun name called => .pure (by rw [same, called])

variable (absorbs : Absorbs ctx Q) (refs : ∀ r, (resolve r).Follows (orderly ctx Q F) []) {discriminant : Nat}
  (found : ctx.tree.kind? node = some (.union discriminant)) {M : List Variant → Prop}
  (members : (variants ctx resolve node).Yields (Orderly ctx Q F) M)
include absorbs refs found members

theorem declare_union : (declare ctx resolve node).Yields (Orderly ctx Q F) fun declaration => ∀ d ∈ declaration,
    ∃ name switch variants, d = .union name switch variants ∧ M variants := by
  have allows : Allows ctx (orderly ctx Q F) := orderly_allows wf absorbs
  rw [declare, kindOf_of_kind found, pure_bind]
  refine .bind (allows.localNames found).yields fun name _ => ?_
  refine .bind (refs discriminant).yields fun switch _ => ?_
  refine .bind members fun variants holds => ?_
  refine .bind (requireDeallocation_follows allows).yields fun _ _ => .pure ?_
  rintro _ ⟨⟩
  exact ⟨name, switch, variants, rfl, holds⟩

theorem encode_union : (encode ctx resolve node).Yields (Orderly ctx Q F) fun codec => ∀ c ∈ codec,
    ∃ name switch variants, c = .union name switch variants ∧ M variants := by
  have allows : Allows ctx (orderly ctx Q F) := orderly_allows wf absorbs
  rw [encode, kindOf_of_kind found, pure_bind]
  refine .bind (allows.localNames found).yields fun name _ => ?_
  refine .bind (refs discriminant).yields fun switch _ => ?_
  refine .bind members fun variants holds => ?_
  refine .bind (requireStream_follows allows).yields fun _ _ => .pure ?_
  rintro _ ⟨⟩
  exact ⟨name, switch, variants, rfl, holds⟩

end Members

end

end Emit

/-! ## Items -/

section

variable (ctx : Context) (unit : Nat) (known : List Nat) (node : Nat)

/-- The names are those of the fields. -/
def Components (names : List String) : Prop :=
  (ctx.tree.fields node).map (fun field => ctx.localName field.1) = names.map .ok

/-- The pairs are the choices and the name of each branch. -/
structure Branches (pairs : List (String × String)) : Prop where
  names : (ctx.tree.branches node).map (fun branch => ctx.localName branch.1) = pairs.map (.ok ·.2)
  choices : ctx.tree.SteadyLabels unit known node →
    (ctx.tree.branches node).map (fun branch => ctx.choices unit known branch.2.1) = pairs.map (.ok ·.1)

/-- The declaration of a composite type has the members that the tree gives it. -/
def DeclaresMembers (d : Declaration) : Prop :=
  match ctx.tree.kind? node with
  | some .struct | some .exception => ∃ names, Components ctx node names ∧ d.HasComponents names
  | some (.union _) => ∃ pairs, Branches ctx unit known node pairs ∧ d.HasBranches pairs
  | some (.array dims _) => d.HasRanges dims.length
  | _ => True

/-- The marshalling of a composite type visits the members that the tree gives it. -/
def VisitsMembers (c : Codec) : Prop :=
  match ctx.tree.kind? node with
  | some .struct | some .exception =>
    ∃ names, Components ctx node names ∧ c.VisitsComponents ctx.settings.runtime names
  | some (.union _) => ∃ pairs, Branches ctx unit known node pairs ∧ c.VisitsBranches ctx.settings.runtime pairs
  | some (.array dims element) => ∃ fixed, ctx.tree.SizeAnswer element (.ok fixed) ∧
    c.VisitsElements ctx.settings.runtime (.ofRank dims.length) fixed
  | _ => True

end

def Faithful (ctx : Context) (unit : Nat) (known : List Nat) : Item → Prop
  | .declaration node d => DeclaresMembers ctx unit known node d
  | .codec node c => VisitsMembers ctx unit known node c
  | _ => True

namespace Emit

variable {ctx : Context} {unit : Nat} {known : List Nat} {F : Item → Prop} (wf : ctx.tree.WellFormed)
  {resolve : Nat → Emit String} {node : Nat}
  (refs : ∀ r, (resolve r).Follows (orderly ctx (Grown ctx.tree unit known) F) [])
include wf refs

theorem variants_branches : (variants ctx resolve node).Yields (Orderly ctx (Grown ctx.tree unit known) F)
    fun variants => Branches ctx unit known node (variants.map fun v => (v.choices, v.component.name)) := by
  intro s variants s' holds done
  have free (branch) (listed : branch ∈ ctx.tree.branches node) : (choices ctx branch.2.1).Yields
      (Orderly ctx (Grown ctx.tree unit known) F) fun _ => () = () :=
    (choices_follows (orderly_allows wf (absorbs_grown wf)) (Tree.kind?_of_mem_branches listed)).yields.imp
      fun _ _ => rfl
  obtain ⟨named, kept⟩ := variants_yields wf refs (fun _ => ()) (fun _ => ()) free holds done
  refine ⟨⟨?_, fun steady => ?_⟩, kept⟩
  · simpa [Function.comp_def] using congrArg (List.map Prod.snd) named
  · have determined := variants_yields wf refs (ctx.choices unit known) .ok fun branch listed =>
      choices_yields wf (steady branch listed)
    simpa [Function.comp_def] using congrArg (List.map Prod.fst) (determined holds done).1

omit wf refs in
theorem isFixedSize_yields {Q : Dependencies → Prop} (node : Nat) :
    (isFixedSize ctx node).Yields (Orderly ctx Q F) fun fixed => ctx.tree.SizeAnswer node (.ok fixed) := by
  intro s fixed s' holds done
  refine ⟨?_, ((isFixedSize_orderly node).ok holds done).1⟩
  have found := SizeTable.isFixed_finds ctx.tree node s.sizes holds.sizes.1 holds.sizes.2
  unfold isFixedSize withSizes at done
  split at done
  · next run =>
    cases done
    rw [run] at found
    exact found.1
  · cases done

omit wf refs in
theorem arrayPlan_yields {Q : Dependencies → Prop} {dims : List Value} {element : Nat}
    (found : ctx.tree.kind? node = some (.array dims element)) :
    (arrayPlan ctx node).Yields (Orderly ctx Q F) fun plan =>
      plan.nest = .ofRank dims.length ∧ ctx.tree.SizeAnswer element (.ok plan.elementFixed) := by
  unfold arrayPlan
  rw [kindOf_of_kind found, pure_bind]
  refine .bind (.liftError fun _ _ => trivial) fun count _ => ?_
  exact .bind (isFixedSize_yields element) fun fixed sized => .pure ⟨rfl, sized⟩

theorem declare_faithful : (declare ctx resolve node).Yields (Orderly ctx (Grown ctx.tree unit known) F)
    fun declaration => ∀ d ∈ declaration, DeclaresMembers ctx unit known node d := by
  have allows : Allows ctx (orderly ctx (Grown ctx.tree unit known) F) := orderly_allows wf (absorbs_grown wf)
  have plain (nothing : ∀ d, DeclaresMembers ctx unit known node d) : (declare ctx resolve node).Yields
      (Orderly ctx (Grown ctx.tree unit known) F) fun declaration => ∀ d ∈ declaration, DeclaresMembers ctx unit known node d :=
    (declare_follows allows (.inr fun _ => trivial) trivial fun r _ => (refs r).settle fun _ _ => trivial).yields.imp
      fun _ _ d _ => nothing d
  cases found : ctx.tree.kind? node with
  | none => exact plain fun d => by simp [DeclaresMembers, found]
  | some kind =>
    have named := (allows.localNames found).yields
    have deallocation := (requireDeallocation_follows allows).yields
    cases kind with
    | struct =>
      rw [declare, kindOf_of_kind found, pure_bind]
      refine .bind named fun name _ => ?_
      refine .bind (components_yields wf refs) fun components members => ?_
      refine .bind deallocation fun _ _ => .pure ?_
      rintro _ ⟨⟩
      rw [DeclaresMembers, found]
      exact ⟨_, members, Declaration.hasComponents_record _ _⟩
    | exception =>
      rw [declare, kindOf_of_kind found, pure_bind]
      refine .bind named fun name _ => ?_
      refine .bind (components_yields wf refs) fun components members => ?_
      refine .bind (allows.requires _).yields fun _ _ => ?_
      refine .bind (allows.requires _).yields fun _ _ => .pure ?_
      rintro _ ⟨⟩
      rw [DeclaresMembers, found]
      exact ⟨_, members, Declaration.hasComponents_exception _ _ _⟩
    | union discriminant =>
      refine (declare_union wf (absorbs_grown wf) refs found (variants_branches wf refs)).imp fun declaration each => ?_
      intro d given
      obtain ⟨name, switch, variants, rfl, members⟩ := each d given
      rw [DeclaresMembers, found]
      exact ⟨_, members, Declaration.hasBranches_union name switch variants⟩
    | array dims element =>
      rw [declare, kindOf_of_kind found, pure_bind]
      refine .bind named fun name _ => ?_
      refine .bind (.liftError fun _ given => length_of_extents given) fun extents ranges => ?_
      refine .bind (refs element).yields fun type _ => ?_
      refine .bind deallocation fun _ _ => .pure ?_
      rintro _ ⟨⟩
      rw [DeclaresMembers, found]
      show Declaration.HasRanges _ dims.length
      rw [← ranges]
      exact Declaration.hasRanges_array name extents type
    | _ => exact plain fun d => by simp [DeclaresMembers, found]

theorem encode_faithful : (encode ctx resolve node).Yields (Orderly ctx (Grown ctx.tree unit known) F)
    fun codec => ∀ c ∈ codec, VisitsMembers ctx unit known node c := by
  have allows : Allows ctx (orderly ctx (Grown ctx.tree unit known) F) := orderly_allows wf (absorbs_grown wf)
  have plain (nothing : ∀ c, VisitsMembers ctx unit known node c) : (encode ctx resolve node).Yields
      (Orderly ctx (Grown ctx.tree unit known) F) fun codec => ∀ c ∈ codec, VisitsMembers ctx unit known node c :=
    (encode_follows allows (.inr fun _ => trivial) fun r _ => (refs r).settle fun _ _ => trivial).yields.imp
      fun _ _ c _ => nothing c
  have stream := (requireStream_follows allows).yields
  cases found : ctx.tree.kind? node with
  | none => exact plain fun c => by simp [VisitsMembers, found]
  | some kind =>
    have named := (allows.localNames found).yields
    cases kind with
    | struct | exception =>
      rw [encode, kindOf_of_kind found, pure_bind]
      refine .bind (typeName_follows allows found false).yields fun type _ => ?_
      refine .bind (components_yields wf refs) fun components members => ?_
      refine .bind stream fun _ _ => .pure ?_
      rintro _ ⟨⟩
      rw [VisitsMembers, found]
      exact ⟨_, members, Codec.visitsComponents_record _ _ _⟩
    | union discriminant =>
      refine (encode_union wf (absorbs_grown wf) refs found (variants_branches wf refs)).imp fun codec each => ?_
      intro c given
      obtain ⟨name, switch, variants, rfl, members⟩ := each c given
      rw [VisitsMembers, found]
      exact ⟨_, members, Codec.visitsBranches_union _ name switch variants⟩
    | array dims element =>
      rw [encode, kindOf_of_kind found, pure_bind]
      refine .bind named fun name _ => ?_
      refine .bind (refs element).yields fun _ _ => ?_
      refine .bind (arrayPlan_yields found) fun plan planned => ?_
      refine .bind stream fun _ _ => .pure ?_
      rintro _ ⟨⟩
      rw [VisitsMembers, found]
      exact ⟨_, planned.2, planned.1 ▸ Codec.visitsElements_array _ name plan⟩
    | _ => exact plain fun c => by simp [VisitsMembers, found]

omit wf refs in
theorem writes_of {Q : Dependencies → Prop}
    (declares : ∀ {resolve node s declared s'}, (∀ r, (resolve r).Follows (orderly ctx Q F) []) → Orderly ctx Q F s →
      declare ctx resolve node s = .ok declared s' → ∀ d ∈ declared, F (.declaration node d))
    (encodes : ∀ {resolve node s coded s'}, (∀ r, (resolve r).Follows (orderly ctx Q F) []) → Orderly ctx Q F s →
      encode ctx resolve node s = .ok coded s' → ∀ c ∈ coded, F (.codec node c)) : Writes ctx Q F := by
  intro a resolve node s items s' refs holds done item listed
  cases a with
  | declaration =>
    obtain ⟨declared, after, run, last⟩ := bind_eq_ok.mp done
    cases last
    obtain ⟨d, given, rfl⟩ : ∃ d ∈ declared, .declaration node d = item := by simpa using listed
    exact declares refs holds run d given
  | marshalling =>
    obtain ⟨coded, after, run, last⟩ := bind_eq_ok.mp done
    cases last
    obtain ⟨c, given, rfl⟩ : ∃ c ∈ coded, .codec node c = item := by simpa using listed
    exact encodes refs holds run c given

omit refs in
theorem writes_faithful : Writes ctx (Grown ctx.tree unit known) (Faithful ctx unit known) :=
  writes_of (fun refs holds run => (declare_faithful wf refs holds run).1)
    (fun refs holds run => (encode_faithful wf refs holds run).1)

end Emit

theorem map_ok_injective {α : Type} {l others : List α}
    (same : l.map (Except.ok : α → Except Fault α) = others.map .ok) : l = others :=
  List.map_injective_iff.mpr (fun _ _ => Except.ok.inj) same

theorem Branches.unique {ctx : Context} {unit node : Nat} {known : List Nat} {pairs others : List (String × String)}
    (first : Branches ctx unit known node pairs) (second : Branches ctx unit known node others) :
    others.map (·.2) = pairs.map (·.2) ∧ (ctx.tree.SteadyLabels unit known node → others = pairs) := by
  have names : others.map (·.2) = pairs.map (·.2) :=
    map_ok_injective (by simpa [Function.comp_def] using second.names.symm.trans first.names)
  refine ⟨names, fun steady => ?_⟩
  have choices : others.map (·.1) = pairs.map (·.1) :=
    map_ok_injective (by simpa [Function.comp_def] using (second.choices steady).symm.trans (first.choices steady))
  calc
    others = (others.map (·.1)).zip (others.map (·.2)) := List.zip_of_prod rfl rfl
    _ = (pairs.map (·.1)).zip (pairs.map (·.2)) := by rw [choices, names]
    _ = pairs := (List.zip_of_prod rfl rfl).symm

section

variable {ctx : Context} {unit node : Nat} {known : List Nat} {d : Declaration} {c : Codec}
  (declares : DeclaresMembers ctx unit known node d) (visits : VisitsMembers ctx unit known node c)
include declares visits

theorem components_agree (isRecord : ctx.tree.hasKind (· matches .struct | .exception) node = true) :
    ∃ names, Components ctx node names ∧ d.HasComponents names ∧
      c.VisitsComponents ctx.settings.runtime names := by
  obtain ⟨present, found, kind⟩ := Tree.exists_of_hasKind isRecord
  rw [DeclaresMembers, Tree.kind?_eq found] at declares
  rw [VisitsMembers, Tree.kind?_eq found] at visits
  cases shape : present.kind with
  | struct | exception =>
    rw [shape] at declares visits
    obtain ⟨names, members, has⟩ := declares
    obtain ⟨visited, again, visits⟩ := visits
    cases map_ok_injective (again.symm.trans members)
    exact ⟨names, members, has, visits⟩
  | _ => simp [shape] at kind

theorem branches_agree (isUnion : ctx.tree.hasKind (· matches .union _) node = true) :
    ∃ pairs visited, Branches ctx unit known node pairs ∧ d.HasBranches pairs ∧
      c.VisitsBranches ctx.settings.runtime visited ∧ visited.map (·.2) = pairs.map (·.2) ∧
      (ctx.tree.SteadyLabels unit known node → visited = pairs) := by
  obtain ⟨present, found, kind⟩ := Tree.exists_of_hasKind isUnion
  rw [DeclaresMembers, Tree.kind?_eq found] at declares
  rw [VisitsMembers, Tree.kind?_eq found] at visits
  cases shape : present.kind with
  | union discriminant =>
    rw [shape] at declares visits
    obtain ⟨pairs, members, has⟩ := declares
    obtain ⟨visited, again, visits⟩ := visits
    exact ⟨pairs, visited, members, has, visits, members.unique again⟩
  | _ => simp [shape] at kind

theorem elements_agree {dims : List Value} {element : Nat} (found : ctx.tree.kind? node = some (.array dims element)) :
    ∃ (nest : IndexNest) (fixed : Bool), nest.loops.length = dims.length ∧
      ctx.tree.SizeAnswer element (.ok fixed) ∧ d.HasRanges dims.length ∧
      c.VisitsElements ctx.settings.runtime nest fixed := by
  rw [DeclaresMembers, found] at declares
  rw [VisitsMembers, found] at visits
  obtain ⟨fixed, sized, visits⟩ := visits
  exact ⟨.ofRank dims.length, fixed, by simp [IndexNest.ofRank], sized, declares, visits⟩

end

/-- The item stands before what is written next for the artifact in view, or is what is written for a node. -/
def Session.Presents (ctx : Context) (s : Session) (a : Aspect) (item : Item) : Prop :=
  item ∈ s.hoisted ∨
    ∃ node items s', Emit.produce ctx a (Emit.nameFor ctx a) node s = .ok items s' ∧ item ∈ items

theorem Session.Presents.written {ctx : Context} (wf : ctx.tree.WellFormed) {Q : Dependencies → Prop} {F : Item → Prop}
    (absorbs : Emit.Absorbs ctx Q) (writes : Emit.Writes ctx Q F) {deps : Dependencies} (told : Q deps)
    {history : List Event} {a : Aspect} {item : Item}
    (presents : ((start.turnTo deps).after ctx history).Presents ctx a item) : F item := by
  have holds := Emit.after_orderly wf absorbs writes (Emit.orderly_start deps told) history
  rcases presents with hoisted | ⟨node, items, s', done, listed⟩
  · exact holds.hoisted item hoisted
  · exact Emit.mem_of_produce (fun r => Emit.nameWithin_orderly wf absorbs writes a _ r) writes holds done item listed

theorem Session.Presents.faithful {ctx : Context} (wf : ctx.tree.WellFormed) {deps : Dependencies} {history : List Event}
    {a : Aspect} {item : Item} (presents : ((start.turnTo deps).after ctx history).Presents ctx a item) :
    Faithful ctx deps.unit deps.imports item :=
  presents.written wf (Emit.absorbs_grown wf) (Emit.writes_faithful wf) ⟨rfl, fun _ _ _ => Iff.rfl⟩

/-- The declaration and the marshalling of a composite type, written for artifacts of one unit with the same
imports after any two histories, name the same members in the same order. The choices of a union agree unless an
enumerator stands in a declaration that is recorded as the base of an interface. -/
theorem declaration_and_codec_agree (script : List Step) (settings : Settings) (first second : Dependencies)
    (units : first.unit = second.unit) (imports : first.imports = second.imports) (before later : List Event)
    (node : Nat) :
    let ctx : Context := ⟨.ofSteps script, settings⟩
    let t := ctx.tree
    ∀ d c, ((Session.start.turnTo first).after ctx before).Presents ctx .declaration (.declaration node d) →
      ((Session.start.turnTo second).after ctx later).Presents ctx .marshalling (.codec node c) →
      (t.hasKind (· matches .struct | .exception) node = true →
        ∃ names : List String, (t.fields node).map (fun field => ctx.localName field.1) = names.map .ok ∧
          d.HasComponents names ∧ c.VisitsComponents settings.runtime names) ∧
      (t.hasKind (· matches .union _) node = true →
        ∃ branches visited : List (String × String),
          (t.branches node).map (fun branch => ctx.localName branch.1) = branches.map (.ok ·.2) ∧
          d.HasBranches branches ∧ c.VisitsBranches settings.runtime visited ∧
          visited.map (·.2) = branches.map (·.2) ∧
          (t.SteadyLabels first.unit first.imports node → visited = branches)) ∧
      (∀ dims element, t.kind? node = some (.array dims element) →
        ∃ (nest : IndexNest) (fixed : Bool), nest.loops.length = dims.length ∧ t.SizeAnswer element (.ok fixed) ∧
          d.HasRanges dims.length ∧ c.VisitsElements settings.runtime nest fixed) := by
  intro ctx t d c declared coded
  have wf : ctx.tree.WellFormed := Tree.ofSteps_wellFormed script
  have declaration := declared.faithful wf
  have codec := coded.faithful wf
  rw [← units, ← imports] at codec
  refine ⟨components_agree declaration codec, fun isUnion => ?_, fun _ _ => elements_agree declaration codec⟩
  obtain ⟨pairs, visited, members, has, visits, same⟩ := branches_agree declaration codec isUnion
  exact ⟨pairs, visited, members.names, has, visits, same⟩

/-- A structure with a union over an enumeration, where the names of two fields differ in case only. -/
def paintedShapes : List Step :=
  [.module 0 "M", .enum 1 "Colour" ["red", "green", "blue"], .union 1 "Paint" 2, .primitive .long,
    .branch 6 "code" [.value (.enumerator 3), .value (.enumerator 4)] 7, .branch 6 "plain" [.default] 2,
    .struct 1 "Shape", .field 10 "paint" 6, .field 10 "Paint" 6]

/-- The union is declared and marshalled on account of the structure, in sessions with different histories. -/
theorem painted_shapes_agree :
    let ctx : Context := ⟨.ofSteps paintedShapes, {}⟩
    let first := (Session.start.turnTo (.told 1 [])).after ctx [.here (.declaration 10)]
    let second := (Session.start.turnTo (.told 1 [])).after ctx
      [.elsewhere (.told 1 []) (.declaration 10), .here (.marshalBody 10)]
    let variants : List Variant := [⟨"red | green", ⟨"code", "Corba.Long"⟩⟩, ⟨others, ⟨"plain", "Colour"⟩⟩]
    .declaration 6 (.union "Paint" "Colour" variants) ∈ first.hoisted ∧
    .codec 6 (.union "Paint" "Colour" variants) ∈ second.hoisted ∧ ctx.tree.SteadyLabels 1 [] 6 ∧
    ∃ branches : List (String × String),
      (ctx.tree.branches 6).map (fun branch => ctx.localName branch.1) = branches.map (.ok ·.2) ∧
      (Declaration.union "Paint" "Colour" variants).HasBranches branches ∧
      (Codec.union "Paint" "Colour" variants).VisitsBranches {} branches := by
  intro ctx first second variants
  have declared : .declaration 6 (.union "Paint" "Colour" variants) ∈ first.hoisted := by decide +kernel
  have coded : .codec 6 (.union "Paint" "Colour" variants) ∈ second.hoisted := by decide +kernel
  have steady : ctx.tree.SteadyLabels 1 [] 6 := by decide +kernel
  have agree := declaration_and_codec_agree paintedShapes {} (.told 1 []) (.told 1 []) rfl rfl
    [.here (.declaration 10)] [.elsewhere (.told 1 []) (.declaration 10), .here (.marshalBody 10)] 6 _ _
    (.inl declared) (.inl coded)
  obtain ⟨branches, visited, named, has, visits, -, same⟩ := agree.2.1 (by decide +kernel)
  rw [same steady] at visits
  exact ⟨declared, coded, steady, branches, named, has, visits⟩

/-- An interface whose base is an enumeration of its own, and a union over that enumeration with a reference to the
interface in its one branch. -/
def enumerationAsBase : List Step :=
  [.interface 0 "I" [2], .enum 1 "E" ["a", "b"], .union 1 "U" 2, .branch 5 "x" [.value (.enumerator 3)] 1]

/-- The declaration of the interface comes before the choices of the variant part and records the enumeration. The
marshalling has no need of it, so there the enumerator is not taken to come from outside. -/
theorem choices_differ_with_enumeration_as_base :
    let ctx : Context := ⟨.ofSteps enumerationAsBase, {}⟩
    let first := Session.start.turnTo (.told 1 [])
    let second := first.after ctx [.elsewhere (.told 1 []) (.declaration 5)]
    (Emit.declaration ctx 5).outcome first =
        .ok [.declaration 5 (.union "U" "E" [⟨"I.a", ⟨"x", "Ref"⟩⟩])] ∧
      (Emit.marshalBody ctx 5).outcome second = .ok [.codec 5 (.union "U" "E" [⟨"a", ⟨"x", "Ref"⟩⟩])] ∧
      ¬ ctx.tree.SteadyLabels 1 [] 5 := by
  decide +kernel

end AdaStubs
