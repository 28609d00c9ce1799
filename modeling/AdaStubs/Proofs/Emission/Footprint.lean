import AdaStubs.Emission.Stubs
import AdaStubs.Proofs.Conduct
import AdaStubs.Proofs.Idl.Scopes

/-!
# Footprints

The types that a declaration refers to, and the conduct of everything that is written for a declaration: it
keeps to any conduct that names, sizes, runtime packages, bounds and the references themselves keep to.
-/

namespace AdaStubs

open Ada Run

namespace Tree

/-- The types that the declaration of `node` refers to, in the order in which they are named. -/
def declarationRefs (t : Tree) (node : Nat) : List Nat :=
  match t.kind? node with
  | some (.array _ element) => [element]
  | some (.sequence element _) => [element]
  | some .struct | some .exception => (t.fields node).map (·.2)
  | some (.union discriminant) => discriminant :: (t.branches node).map (·.2.2)
  | some (.typedef base) => [base]
  | some (.constant type _) => [type]
  | some (.attribute type _) => [type]
  | some (.operation result _ _) => (t.arguments node).map (·.2.2) ++ result.toList
  | _ => []

/-- The types that the marshalling of `node` refers to. -/
def marshalRefs (t : Tree) (node : Nat) : List Nat :=
  if t.hasKind Kind.isType node then t.declarationRefs node else []

theorem mem_declarationRefs_of_marshalRefs {t : Tree} {node r : Nat} (refers : r ∈ t.marshalRefs node) :
    r ∈ t.declarationRefs node := by
  unfold marshalRefs at refers
  split at refers
  · exact refers
  · cases refers

theorem kind?_of_mem_fields {t : Tree} {node field type : Nat} (listed : (field, type) ∈ t.fields node) :
    t.kind? field = some (.field type) := by
  obtain ⟨member, -, shape⟩ := List.mem_filterMap.mp listed
  split at shape <;> cases shape
  assumption

theorem kind?_of_mem_branches {t : Tree} {node branch type : Nat} {labels : List Label}
    (listed : (branch, labels, type) ∈ t.branches node) : t.kind? branch = some (.branch labels type) := by
  obtain ⟨member, -, shape⟩ := List.mem_filterMap.mp listed
  split at shape <;> cases shape
  assumption

theorem kind?_of_mem_arguments {t : Tree} {node argument type : Nat} {direction : Direction}
    (listed : (argument, direction, type) ∈ t.arguments node) :
    t.kind? argument = some (.argument direction type) := by
  obtain ⟨member, -, shape⟩ := List.mem_filterMap.mp listed
  split at shape <;> cases shape
  assumption

theorem hasKind_of_kind {t : Tree} {p : Kind → Bool} {node : Nat} {kind : Kind} (found : t.kind? node = some kind)
    (holds : p kind = true) : t.hasKind p node = true := by
  rw [hasKind, found, Option.any_some, holds]

end Tree

namespace Aspect

/-- The types that an aspect of `node` refers to. -/
def refs : Aspect → Tree → Nat → List Nat
  | declaration => Tree.declarationRefs
  | marshalling => Tree.marshalRefs

theorem mem_declarationRefs {a : Aspect} {t : Tree} {node r : Nat} (refers : r ∈ a.refs t node) :
    r ∈ t.declarationRefs node := by
  cases a with
  | declaration => exact refers
  | marshalling => exact Tree.mem_declarationRefs_of_marshalRefs refers

end Aspect

def Value.enumerator? : Value → Option Nat
  | .enumerator node => some node
  | _ => none

namespace Kind

/-- The enumerators among the values that a declaration is written with. -/
def enumerators : Kind → List Nat
  | .constant _ value => value.enumerator?.toList
  | .branch labels _ => (Emit.labelValues labels).filterMap Value.enumerator?
  | _ => []

/-- The interface that references are derived from. -/
def firstBase? : Kind → Option Nat
  | .interface bases => bases.head?
  | _ => none

/-- The bounds that `node` is declared with are refused. -/
def BoundRefused (node : Nat) (e : Error) : Kind → Prop
  | .array dims _ => extents dims node = .error e ∨ elementCount dims node = .error e
  | .sequence _ (some bound) => bound.extent node "sequence bound" = .error e
  | .string (some bound) _ => bound.extent node "string bound" = .error e
  | _ => False

/-- Declarations that are written only as a part of another one. -/
def isPart : Kind → Bool
  | .enumerator => true
  | kind => kind.isComponent

theorem not_isPart_of_isType {kind : Kind} (isType : kind.isType = true) : (!kind.isPart) = true := by
  cases kind <;> first | rfl | cases isType

theorem not_isPart_of_isDeclared {kind : Kind} (declared : kind.isDeclared = true) : (!kind.isPart) = true := by
  cases kind <;> first | rfl | cases declared

def isOperation : Kind → Bool
  | .attribute _ _ | .operation _ _ _ => true
  | _ => false

end Kind

namespace Emit

/-- Everything but a reference to a type keeps to the conduct, where only the declarations `written` are written. -/
structure Allows (ctx : Context) (c : Conduct Session) (written : Nat → Prop := fun _ => True) : Prop where
  lawful : c.Lawful
  wellFormed : ctx.tree.WellFormed
  localNames : ∀ {node kind}, ctx.tree.kind? node = some kind → (localName ctx node).Follows c []
  fullNames : ∀ {node kind}, ctx.tree.kind? node = some kind → (fullName ctx node).Follows c []
  sizes : ∀ {node dims element}, ctx.tree.kind? node = some (.array dims element) →
    (isFixedSize ctx element).Follows c []
  requires : ∀ package, (require package).Follows c []
  uses : ∀ package, (use package).Follows c []
  enumerators : ∀ {node kind e}, ctx.tree.kind? node = some kind → e ∈ kind.enumerators →
    (enumeratorName ctx e).Follows c []
  bases : ∀ {node kind base}, written node → ctx.tree.kind? node = some kind → base ∈ kind.firstBase? →
    (updateDeps (·.record base)).Follows c [] ∧ (fullName ctx base).Follows c []
  bounds : ∀ {node kind e}, ctx.tree.kind? node = some kind → kind.BoundRefused node e → c.faults (.error e)

/-- The kind of `node` satisfies `p`. A conduct that permits every fault asks for nothing. -/
def Fits (ctx : Context) (c : Conduct Session) (p : Kind → Bool) (node : Nat) : Prop :=
  ctx.tree.hasKind p node = true ∨ ∀ fault, c.faults fault

theorem fits_of_mem_ids {ctx : Context} {c : Conduct Session} {node : Nat} (listed : node ∈ ctx.tree.ids) :
    Fits ctx c (fun _ => true) node := by
  obtain ⟨kind, found⟩ := Tree.exists_of_mem_ids listed
  exact .inl (Tree.hasKind_of_kind found rfl)

theorem fits_keeping {ctx : Context} {P : Session → Prop} {p : Kind → Bool} {node : Nat} :
    Fits ctx (.keeping P) p node := .inr fun _ => trivial

theorem Fits.imp {ctx : Context} {c : Conduct Session} {p q : Kind → Bool} {node : Nat}
    (implies : ∀ {kind}, p kind = true → q kind = true) (fits : Fits ctx c p node) : Fits ctx c q node := by
  refine fits.imp_left fun holds => ?_
  obtain ⟨present, found, kind⟩ := Tree.exists_of_hasKind holds
  rw [Tree.hasKind_eq found, implies kind]

theorem kindOf_of_kind {ctx : Context} {node : Nat} {kind : Kind} (found : ctx.tree.kind? node = some kind) :
    kindOf ctx node = pure kind := by
  obtain ⟨present, lookup, rfl⟩ := Option.map_eq_some_iff.mp found
  unfold kindOf Tree.need
  rw [lookup]
  rfl

theorem kindOf_of_none {ctx : Context} {node : Nat} (absent : ctx.tree.kind? node = none) :
    kindOf ctx node = throw (.dangling node) := by
  have missing : ctx.tree.node? node = none := Option.map_eq_none_iff.mp absent
  unfold kindOf Tree.need
  rw [missing]
  rfl

section

variable {ctx : Context} {c : Conduct Session} {α : Type} {nodes : List Nat}

theorem kindOf_follows (lawful : c.Lawful) {node : Nat} {p : Kind → Bool} (fits : Fits ctx c p node)
    {f : Kind → Emit α} (rest : ∀ kind, ctx.tree.kind? node = some kind →
      (p kind = true ∨ ∀ fault, c.faults fault) → (f kind).Follows c nodes) :
    (kindOf ctx node >>= f).Follows c nodes := by
  unfold Fits Tree.hasKind at fits
  cases found : ctx.tree.kind? node with
  | none =>
    rw [kindOf_of_none found]
    rw [found] at fits
    exact Follows.throw lawful (fits.resolve_left (by simp) _)
  | some kind =>
    rw [kindOf_of_kind found, pure_bind]
    rw [found] at fits
    exact rest kind found fits

variable {written : Nat → Prop} (allows : Allows ctx c written)
include allows

theorem Allows.unitNames {node : Nat} (isUnit : ctx.tree.hasKind Kind.isUnit node = true) :
    (fullName ctx node).Follows c [] := by
  obtain ⟨present, found, -⟩ := Tree.exists_of_hasKind isUnit
  exact allows.fullNames (Tree.kind?_eq found)

theorem requireStream_follows : (requireStream ctx).Follows c [] :=
  .seq allows.lawful (allows.uses _) fun _ => allows.requires _

theorem requireDeallocation_follows : requireDeallocation.Follows c [] := allows.requires _

omit allows in
theorem typeName_follows_of_name (lawful : c.Lawful) {node : Nat} {kind : Kind}
    (found : ctx.tree.kind? node = some kind) {qualified : Bool}
    (named : (if qualified then fullName ctx node else localName ctx node).Follows c []) :
    (typeName ctx node qualified).Follows c [] := by
  unfold typeName
  rw [kindOf_of_kind found]
  cases qualified with
  | true =>
    apply Follows.seq lawful named
    intro name
    cases kind <;> exact .pure lawful _
  | false =>
    apply Follows.seq lawful named
    intro name
    cases kind <;> exact .pure lawful _

theorem typeName_follows {node : Nat} {kind : Kind} (found : ctx.tree.kind? node = some kind) (qualified : Bool) :
    (typeName ctx node qualified).Follows c [] := by
  refine typeName_follows_of_name allows.lawful found ?_
  split
  · exact allows.fullNames found
  · exact allows.localNames found

theorem literal_follows {node : Nat} {kind : Kind} (found : ctx.tree.kind? node = some kind) {value : Value}
    (among : ∀ e ∈ value.enumerator?, e ∈ kind.enumerators) : (literal ctx value).Follows c [] := by
  cases value with
  | string s => exact .seq allows.lawful (allows.requires _) fun _ => .pure allows.lawful _
  | wstring s => exact .seq allows.lawful (allows.requires _) fun _ => .pure allows.lawful _
  | enumerator e => exact allows.enumerators found (among e rfl)
  | _ => exact .pure allows.lawful _

theorem choices_follows {branch type : Nat} {labels : List Label}
    (found : ctx.tree.kind? branch = some (.branch labels type)) : (choices ctx labels).Follows c [] := by
  unfold choices
  split
  · exact .pure allows.lawful _
  · have values : ((labelValues labels).mapM (literal ctx)).Follows c [] := by
      apply (Follows.mapM allows.lawful _).weaken (by simp)
      · exact fun _ => []
      · intro value listed
        exact literal_follows allows found fun e named => List.mem_filterMap.mpr ⟨value, listed, named⟩
    exact .seq allows.lawful values fun _ => .pure allows.lawful _

theorem parentPackage_follows {node : Nat} {bases : List Nat} (among : written node)
    (found : ctx.tree.kind? node = some (.interface bases)) : (parentPackage ctx bases).Follows c [] := by
  unfold parentPackage
  cases bases with
  | nil => exact .seq allows.lawful (allows.requires _) fun _ => .pure allows.lawful _
  | cons base bases =>
    obtain ⟨records, names⟩ := allows.bases among found rfl
    exact .seq allows.lawful records fun _ => names

section Declarations

variable {resolve : Nat → Emit String} {node : Nat}

theorem components_follows (refs : ∀ r ∈ (ctx.tree.fields node).map (·.2), (resolve r).Follows c [r]) :
    (components ctx resolve node).Follows c ((ctx.tree.fields node).map (·.2)) := by
  unfold components
  rw [List.map_eq_flatMap]
  refine .mapM allows.lawful ?_
  rintro ⟨field, type⟩ listed
  have named := allows.localNames (Tree.kind?_of_mem_fields listed)
  refine .before allows.lawful (refs type (List.mem_map_of_mem listed)) fun name => ?_
  exact .seq allows.lawful named fun _ => .pure allows.lawful _

theorem variants_follows (refs : ∀ r ∈ (ctx.tree.branches node).map (·.2.2), (resolve r).Follows c [r]) :
    (variants ctx resolve node).Follows c ((ctx.tree.branches node).map (·.2.2)) := by
  unfold variants
  rw [List.map_eq_flatMap]
  refine .mapM allows.lawful ?_
  rintro ⟨branch, labels, type⟩ listed
  have found := Tree.kind?_of_mem_branches listed
  refine .before allows.lawful (refs type (List.mem_map_of_mem listed)) fun name => ?_
  refine .seq allows.lawful (choices_follows allows found) fun choices => ?_
  exact .seq allows.lawful (allows.localNames found) fun _ => .pure allows.lawful _

omit allows in
/-- Only the names of the operation itself and of its parameters are asked for. -/
theorem subprograms_follows_of_names (lawful : c.Lawful) (fits : Fits ctx c Kind.isOperation node)
    (named : ∀ {kind}, ctx.tree.kind? node = some kind → (localName ctx node).Follows c [])
    (parameters : ∀ p ∈ ctx.tree.arguments node, (localName ctx p.1).Follows c [])
    (refs : ∀ r ∈ ctx.tree.declarationRefs node, (resolve r).Follows c [r]) :
    (subprograms ctx resolve node).Follows c (ctx.tree.declarationRefs node) := by
  unfold subprograms
  refine kindOf_follows lawful fits fun kind found fitting => ?_
  unfold Tree.declarationRefs at refs ⊢
  rw [found] at refs ⊢
  have ownName := named found
  cases kind with
  | «attribute» type readonly =>
    refine .seq lawful ownName fun name => ?_
    exact .before lawful (refs type List.mem_cons_self) fun _ => .pure lawful _
  | operation result oneway raises =>
    apply Follows.bind lawful
    · rw [List.map_eq_flatMap]
      refine .mapM lawful ?_
      rintro ⟨argument, direction, type⟩ listed
      refine .seq lawful (parameters _ listed) fun name => ?_
      refine .before lawful (refs type ?_) fun _ => .pure lawful _
      exact List.mem_append_left _ (List.mem_map_of_mem listed)
    intro parameters
    have results : (result.mapM fun type => return Parameter.mk "Result" .output (← resolve type) type :
        Emit (Option Parameter)).Follows c result.toList := by
      rw [← List.flatMap_singleton' result.toList]
      refine .option_mapM lawful fun type named => ?_
      refine .before lawful (refs type ?_) fun _ => .pure lawful _
      exact List.mem_append_right _ (Option.mem_toList.mpr named)
    refine .before lawful results fun result => ?_
    exact .seq lawful ownName fun _ => .pure lawful _
  | _ => exact .throw lawful (fitting.resolve_left Bool.false_ne_true _)

theorem subprograms_follows (fits : Fits ctx c Kind.isOperation node)
    (refs : ∀ r ∈ ctx.tree.declarationRefs node, (resolve r).Follows c [r]) :
    (subprograms ctx resolve node).Follows c (ctx.tree.declarationRefs node) :=
  subprograms_follows_of_names allows.lawful fits allows.localNames
    (fun _ listed => allows.localNames (Tree.kind?_of_mem_arguments listed)) refs

theorem declare_follows (fits : Fits ctx c (!·.isPart) node) (among : written node)
    (refs : ∀ r ∈ ctx.tree.declarationRefs node, (resolve r).Follows c [r]) :
    (declare ctx resolve node).Follows c (ctx.tree.declarationRefs node) := by
  unfold declare
  refine kindOf_follows allows.lawful fits fun kind found fitting => ?_
  have operations (isOperation : kind.isOperation = true) :=
    subprograms_follows allows (.inl (Tree.hasKind_of_kind found isOperation)) refs
  unfold Tree.declarationRefs at refs operations ⊢
  rw [found] at refs operations ⊢
  have named := allows.localNames found
  have close : ∀ d : Declaration, (do requireDeallocation; return some d : Emit _).Follows c [] :=
    fun d => .seq allows.lawful (requireDeallocation_follows allows) fun _ => .pure allows.lawful _
  cases kind with
  | array dims element =>
    refine .seq allows.lawful named fun name => ?_
    refine .seq allows.lawful (.liftError allows.lawful fun refused => ?_) fun extents => ?_
    · exact allows.bounds found (.inl refused)
    · exact .before allows.lawful (refs element List.mem_cons_self) fun element => close _
  | struct =>
    refine .seq allows.lawful named fun name => ?_
    exact .before allows.lawful (components_follows allows refs) fun components => close _
  | exception =>
    refine .seq allows.lawful named fun name => ?_
    refine .before allows.lawful (components_follows allows refs) fun components => ?_
    refine .seq allows.lawful (allows.requires _) fun _ => ?_
    exact .seq allows.lawful (allows.requires _) fun _ => .pure allows.lawful _
  | union discriminant =>
    refine .seq allows.lawful named fun name => ?_
    show Follows _ c ([discriminant] ++ (ctx.tree.branches node).map (·.2.2))
    refine .bind allows.lawful (refs discriminant List.mem_cons_self) fun switch => ?_
    refine .before allows.lawful (variants_follows allows fun r listed => ?_) fun variants => close _
    exact refs r (List.mem_cons_of_mem _ listed)
  | enum =>
    refine .seq allows.lawful named fun name => ?_
    refine .seq allows.lawful ?_ fun literals => close _
    apply (Follows.mapM allows.lawful _).weaken (by simp)
    · exact fun _ => []
    · intro member listed
      obtain ⟨-, present, -, inside, -⟩ := allows.wellFormed.member_inside listed
      exact allows.localNames (Tree.kind?_eq inside)
  | sequence element bound =>
    refine .seq allows.lawful named fun name => ?_
    refine .before allows.lawful (refs element List.mem_cons_self) fun element => ?_
    refine .seq allows.lawful (allows.requires _) fun _ => ?_
    refine .seq allows.lawful ?_ fun bound => close _
    apply (Follows.option_mapM allows.lawful _).weaken (by simp)
    · exact fun _ => []
    · rintro value given
      cases given
      exact .liftError allows.lawful fun refused => allows.bounds found refused
  | string bound wide =>
    cases bound with
    | none => exact .pure allows.lawful _
    | some bound =>
      refine .seq allows.lawful named fun name => ?_
      refine .seq allows.lawful (.liftError allows.lawful fun refused => ?_) fun bound => ?_
      · exact allows.bounds found refused
      · exact .seq allows.lawful (allows.requires _) fun _ => close _
  | fixed digits scale => exact .seq allows.lawful named fun name => close _
  | typedef base =>
    refine .before allows.lawful (refs base List.mem_cons_self) fun base => ?_
    exact .seq allows.lawful named fun name => close _
  | constant type value =>
    refine .before allows.lawful (refs type List.mem_cons_self) fun type => ?_
    refine .seq allows.lawful (literal_follows allows found fun e given => ?_) fun value => ?_
    · exact Option.mem_toList.mpr given
    · exact .seq allows.lawful named fun _ => .pure allows.lawful _
  | interface bases =>
    refine .seq allows.lawful (parentPackage_follows allows among found) fun parent => ?_
    exact .seq allows.lawful (allows.requires _) fun _ => close _
  | «attribute» type readonly => exact .before allows.lawful (operations rfl) fun _ => .pure allows.lawful _
  | operation result oneway raises => exact .before allows.lawful (operations rfl) fun _ => .pure allows.lawful _
  | module => exact .pure allows.lawful _
  | primitive p => exact .pure allows.lawful _
  | _ => exact .throw allows.lawful (fitting.resolve_left Bool.false_ne_true _)

theorem arrayPlan_follows (fits : Fits ctx c (· matches .array _ _) node) : (arrayPlan ctx node).Follows c [] := by
  unfold arrayPlan
  refine kindOf_follows allows.lawful fits fun kind found fitting => ?_
  cases kind with
  | array dims element =>
    refine .seq allows.lawful (.liftError allows.lawful fun refused => ?_) fun count => ?_
    · exact allows.bounds found (.inr refused)
    · exact .seq allows.lawful (allows.sizes found) fun _ => .pure allows.lawful _
  | _ => exact .throw allows.lawful (fitting.resolve_left Bool.false_ne_true _)

theorem encode_follows (fits : Fits ctx c (!·.isPart) node)
    (refs : ∀ r ∈ ctx.tree.marshalRefs node, (resolve r).Follows c [r]) :
    (encode ctx resolve node).Follows c (ctx.tree.marshalRefs node) := by
  unfold encode
  refine kindOf_follows allows.lawful fits fun kind found fitting => ?_
  unfold Tree.marshalRefs Tree.declarationRefs Tree.hasKind at refs ⊢
  rw [found] at refs ⊢
  have named := allows.localNames found
  have close : ∀ codec : Codec, (do requireStream ctx; return some codec : Emit _).Follows c [] :=
    fun codec => .seq allows.lawful (requireStream_follows allows) fun _ => .pure allows.lawful _
  have closeCorba : ∀ codec : Codec,
      (do requireStream ctx; require "Corba"; return some codec : Emit _).Follows c [] := by
    intro codec
    refine .seq allows.lawful (requireStream_follows allows) fun _ => ?_
    exact .seq allows.lawful (allows.requires _) fun _ => .pure allows.lawful _
  cases kind with
  | array dims element =>
    have planned := arrayPlan_follows allows (.inl (Tree.hasKind_of_kind found rfl))
    refine .seq allows.lawful named fun name => ?_
    refine .before allows.lawful (refs element List.mem_cons_self) fun _ => ?_
    exact .seq allows.lawful planned fun plan => close _
  | struct =>
    refine .seq allows.lawful (typeName_follows allows found false) fun type => ?_
    exact .before allows.lawful (components_follows allows refs) fun components => close _
  | exception =>
    refine .seq allows.lawful (typeName_follows allows found false) fun type => ?_
    exact .before allows.lawful (components_follows allows refs) fun components => close _
  | union discriminant =>
    refine .seq allows.lawful named fun name => ?_
    show Follows _ c ([discriminant] ++ (ctx.tree.branches node).map (·.2.2))
    refine .bind allows.lawful (refs discriminant List.mem_cons_self) fun switch => ?_
    refine .before allows.lawful (variants_follows allows fun r listed => ?_) fun variants => close _
    exact refs r (List.mem_cons_of_mem _ listed)
  | enum => exact .seq allows.lawful named fun name => closeCorba _
  | sequence element bound =>
    refine .seq allows.lawful named fun name => ?_
    exact .before allows.lawful (refs element List.mem_cons_self) fun element => closeCorba _
  | string bound wide =>
    cases bound with
    | none => exact .pure allows.lawful _
    | some bound => exact .seq allows.lawful named fun name => closeCorba _
  | fixed digits scale => exact .seq allows.lawful named fun name => close _
  | typedef base =>
    refine .before allows.lawful (refs base List.mem_cons_self) fun base => ?_
    exact .seq allows.lawful named fun name => close _
  | interface bases =>
    refine .seq allows.lawful (typeName_follows allows found false) fun _ => ?_
    exact .seq allows.lawful (allows.requires _) fun _ => close _
  | module => exact .pure allows.lawful _
  | primitive p => exact .pure allows.lawful _
  | constant type value => exact .pure allows.lawful _
  | «attribute» type readonly => exact .pure allows.lawful _
  | operation result oneway raises => exact .pure allows.lawful _
  | _ => exact .throw allows.lawful (fitting.resolve_left Bool.false_ne_true _)

theorem item_follows {a : Aspect} (fits : Fits ctx c (!·.isPart) node) (among : written node)
    (refs : ∀ r ∈ a.refs ctx.tree node, (resolve r).Follows c [r]) :
    (a.item ctx resolve node).Follows c (a.refs ctx.tree node) := by
  cases a with
  | declaration => exact .before allows.lawful (declare_follows allows fits among refs) fun _ => .pure allows.lawful _
  | marshalling => exact .before allows.lawful (encode_follows allows fits refs) fun _ => .pure allows.lawful _

end Declarations

theorem marshalProfiles_follows {node : Nat} (fits : Fits ctx c (!·.isPart) node) :
    (marshalProfiles ctx node).Follows c [] := by
  unfold marshalProfiles
  refine kindOf_follows allows.lawful fits fun kind found fitting => ?_
  have written : (do
      let type ← typeName ctx node false
      requireStream ctx
      return [Item.profiles node type] : Emit (List Item)).Follows c [] := by
    refine .seq allows.lawful (typeName_follows allows found false) fun type => ?_
    exact .seq allows.lawful (requireStream_follows allows) fun _ => .pure allows.lawful _
  cases kind with
  | branch | enumerator | argument | field =>
    exact .throw allows.lawful (fitting.resolve_left Bool.false_ne_true _)
  | module | constant | «attribute» | operation | primitive => exact .pure allows.lawful _
  | _ => exact written

/-! ## Stubs -/

section Stubs

variable {node : Nat}

omit allows in
/-- What a subprogram holds is of a type that its declaration refers to. -/
theorem type_mem_of_held {resolve : Nat → Emit String} {list : List Subprogram}
    (gives : (subprograms ctx resolve node).Gives list) :
    ∀ p ∈ list.flatMap (·.held), p.type ∈ ctx.tree.declarationRefs node := by
  unfold subprograms at gives
  unfold Tree.declarationRefs
  cases found : ctx.tree.kind? node with
  | none =>
    rw [kindOf_of_none found] at gives
    obtain ⟨kind, missing, -⟩ := gives.bind
    exact absurd missing Gives.throw
  | some kind =>
    rw [kindOf_of_kind found, pure_bind] at gives
    intro p held
    cases kind with
    | «attribute» type readonly =>
      obtain ⟨name, -, named⟩ := gives.bind
      obtain ⟨typeName, -, given⟩ := named.bind
      rw [given.pure] at held
      unfold accessors at held
      cases readonly <;> simp [Subprogram.held] at held ⊢
      · rcases held with rfl | rfl <;> rfl
      · rw [held]
    | operation result oneway raises =>
      obtain ⟨parameters, arguments, rest⟩ := gives.bind
      obtain ⟨returned, results, rest⟩ := rest.bind
      obtain ⟨name, -, given⟩ := rest.bind
      rw [given.pure, List.flatMap_singleton, Subprogram.held] at held
      rw [List.mem_append]
      rcases List.mem_append.mp held with parameter | outcome
      · left
        obtain ⟨⟨argument, direction, type⟩, listed, made⟩ := arguments.mapM p parameter
        obtain ⟨argumentName, -, typed⟩ := made.bind
        obtain ⟨typeName, -, last⟩ := typed.bind
        rw [last.pure]
        exact List.mem_map_of_mem listed
      · right
        obtain ⟨type, named, made⟩ := results.option_mapM p (Option.mem_toList.mp outcome)
        obtain ⟨typeName, -, last⟩ := made.bind
        rw [last.pure]
        exact Option.mem_toList.mpr named
    | _ => exact absurd gives Gives.throw

theorem enclosingName_follows {p : Kind → Bool} (fits : Fits ctx c p node) :
    (enclosingName ctx node).Follows c [] := by
  unfold enclosingName
  exact kindOf_follows allows.lawful fits fun _ _ _ =>
    allows.unitNames (allows.wellFormed.isUnit_enclosingUnit node)

section Operations

variable (fits : Fits ctx c Kind.isOperation node)
  (types : ∀ r ∈ ctx.tree.declarationRefs node, (nameType ctx r).Follows c [r])
include fits types

theorem subprogramsOf_follows : (subprogramsOf ctx node).Follows c [] :=
  (subprograms_follows allows fits types).weaken (by simp)

theorem clientBody_follows : (clientBody ctx node).Follows c [] := by
  unfold clientBody
  apply Follows.seq allows.lawful (enclosingName_follows allows fits)
  intro proxies
  apply Follows.seq allows.lawful (allows.requires _)
  intro _
  apply Follows.seq allows.lawful (allows.requires _)
  intro _
  exact .seq allows.lawful (subprogramsOf_follows allows fits types) fun _ => .pure allows.lawful _

theorem descriptors_settle : (descriptors ctx node).Follows c (ctx.tree.declarationRefs node) := by
  unfold descriptors
  apply Follows.seq allows.lawful (allows.requires _)
  intro _
  apply Follows.seq allows.lawful (allows.requires _)
  intro _
  apply Follows.seq allows.lawful (allows.requires _)
  intro _
  exact .before allows.lawful (subprograms_follows allows fits types) fun _ => .pure allows.lawful _

theorem descriptors_follows : (descriptors ctx node).Follows c [] :=
  (descriptors_settle allows fits types).weaken (by simp)

theorem descriptorBodies_follows
    (codecs : ∀ r ∈ ctx.tree.declarationRefs node, (nameCodec ctx r).Follows c [r]) :
    (descriptorBodies ctx node).Follows c [] := by
  unfold descriptorBodies
  apply Follows.seq allows.lawful (enclosingName_follows allows fits)
  intro enclosing
  apply Follows.seq allows.lawful (allows.uses _)
  intro _
  apply Follows.seq allows.lawful (requireStream_follows allows)
  intro _
  refine Follows.bindGives allows.lawful (subprogramsOf_follows allows fits types) fun list given => ?_
  have named : ((list.flatMap (·.held)).forM fun p => discard (nameCodec ctx p.type)).Follows c [] := by
    apply (Follows.forM allows.lawful _).weaken (by simp)
    · exact fun p => [p.type]
    · intro p held
      exact .map allows.lawful (codecs p.type (type_mem_of_held given p held)) _
  exact .seq allows.lawful named fun _ => .pure allows.lawful _

theorem servants_follows : (servants ctx node).Follows c [] :=
  .seq allows.lawful (subprogramsOf_follows allows fits types) fun _ => .pure allows.lawful _

theorem servantBodies_follows : (servantBodies ctx node).Follows c [] :=
  .seq allows.lawful (subprogramsOf_follows allows fits types) fun _ => .pure allows.lawful _

end Operations

theorem body_follows (fits : Fits ctx c (!·.isPart) node)
    (types : ∀ r ∈ ctx.tree.declarationRefs node, (nameType ctx r).Follows c [r]) :
    (body ctx node).Follows c [] := by
  unfold body
  apply kindOf_follows allows.lawful fits
  intro kind found fitting
  have client (isOperation : kind.isOperation = true) :
      (do return [Item.stub node (← clientBody ctx node)] : Emit (List Item)).Follows c [] := by
    have operation : Fits ctx c Kind.isOperation node := .inl (Tree.hasKind_of_kind found isOperation)
    exact .seq allows.lawful (clientBody_follows allows operation types) fun _ => .pure allows.lawful _
  cases kind with
  | exception =>
    apply Follows.seq allows.lawful (allows.localNames found)
    intro name
    apply Follows.seq allows.lawful (allows.requires _)
    intro _
    exact .seq allows.lawful (allows.requires _) fun _ => .pure allows.lawful _
  | interface bases => exact .seq allows.lawful (allows.requires _) fun _ => .pure allows.lawful _
  | «attribute» type readonly => exact client rfl
  | operation result oneway raises => exact client rfl
  | branch | enumerator | argument | field =>
    exact .throw allows.lawful (fitting.resolve_left Bool.false_ne_true _)
  | _ => exact .pure allows.lawful _

end Stubs

omit allows in
/-- Only the name of the first base is asked for. -/
theorem servantParent_follows_of_name (lawful : c.Lawful) {node : Nat} (fits : Fits ctx c (· matches .interface _) node)
    (requires : ∀ package, (require package).Follows c [])
    (named : ∀ {kind base}, ctx.tree.kind? node = some kind → base ∈ kind.firstBase? → (fullName ctx base).Follows c []) :
    (servantParent ctx node).Follows c [] := by
  unfold servantParent
  apply kindOf_follows lawful fits
  intro kind found fitting
  cases kind with
  | interface bases =>
    cases bases with
    | nil => exact .seq lawful (requires _) fun _ => .pure lawful _
    | cons base bases =>
      apply Follows.seq lawful (named found rfl)
      intro name
      exact .seq lawful (requires _) fun _ => .pure lawful _
  | _ => exact .throw lawful (fitting.resolve_left Bool.false_ne_true _)

theorem servantParent_follows {node : Nat} (fits : Fits ctx c (· matches .interface _) node) (among : written node) :
    (servantParent ctx node).Follows c [] :=
  servantParent_follows_of_name allows.lawful fits allows.requires fun found first => (allows.bases among found first).2

omit allows in
theorem wireNames_follows (lawful : c.Lawful) {node : Nat} (fits : Fits ctx c Kind.isOperation node) :
    (wireNames ctx node).Follows c [] := by
  unfold wireNames
  apply kindOf_follows lawful fits
  intro kind found fitting
  cases kind with
  | «attribute» | operation => exact .pure lawful _
  | _ => exact .throw lawful (fitting.resolve_left Bool.false_ne_true _)

omit allows in
theorem dispatchEntries_follows (lawful : c.Lawful) {node : Nat} (fits : Fits ctx c Kind.isOperation node) :
    (dispatchEntries ctx node).Follows c [] :=
  .seq lawful (wireNames_follows lawful fits) fun _ => .pure lawful _

end

end Emit

end AdaStubs
