import AdaStubs.Proofs.Emission.Reference
import AdaStubs.Proofs.Generation.Phases

/-!
# The course of a generation

A conduct that references, declarations and the turn from one artifact to the next keep to is kept to by all
that is generated for a unit. It may be a conduct that permits no fault, so every phase is gone through with
what is known about the nodes it asks for.
-/

namespace AdaStubs

open Ada Run

namespace Emit

/-- What the phases of a unit ask of a conduct. -/
structure Carries (ctx : Context) (unit : Nat) (c : Conduct Session) : Prop where
  allows : Allows ctx c
  opens : (beginArtifact ctx unit).Follows c []
  hoists : ∀ items, (hoist items).Follows c []
  takes : ∀ {s}, c.holds s → c.holds { s with declared := [] } ∧ c.moves s { s with declared := [] }
  declared : ∀ {s}, c.holds s → ∀ n ∈ s.declared, Fits ctx c Kind.isType n
  units : ∀ {s}, c.holds s → Fits ctx c (fun _ => true) s.deps.unit
  entries : ∀ {s}, c.holds s → ∀ {a : Aspect} {e}, e ∈ a.recorded s.deps → Fits ctx c (fun _ => true) e
  refers : ∀ {node r}, r ∈ ctx.tree.declarationRefs node → ∀ a, (nameFor ctx a r).Follows c [r]
  declares : ∀ {node}, ctx.tree.hasKind Kind.isDeclared node = true → ctx.tree.packageOf node = unit →
    (declaration ctx node).Follows c []
  encodes : ∀ {node}, Fits ctx c Kind.isType node → (marshalBody ctx node).Follows c []

section Course

variable {ctx : Context} {unit : Nat} {c : Conduct Session} (carries : Carries ctx unit c)
  (isUnit : ctx.tree.hasKind Kind.isUnit unit = true) (name : String)
include carries

theorem Carries.lawful : c.Lawful := carries.allows.lawful

theorem placeAll_follows {write : Nat → Emit (List Item)} {nodes : List Nat}
    (each : ∀ n ∈ nodes, (write n).Follows c []) : (placeAll write nodes).Follows c [] := by
  have placed : ∀ n ∈ nodes, (place (write n)).Follows c [] :=
    fun n listed => .before carries.lawful (each n listed) carries.hoists
  exact (Follows.forM carries.lawful placed).weaken (by simp)

theorem Carries.package (kind : ArtifactKind) (items hidden : List Item) :
    (package ctx kind name items hidden).Follows c [] :=
  package_follows carries.lawful carries.allows.wellFormed carries.allows.unitNames kind items hidden carries.entries

theorem packageOfEach_follows (kind : ArtifactKind) {write : Nat → Emit (List Item)} {nodes : List Nat}
    (each : ∀ n ∈ nodes, (write n).Follows c []) : (packageOfEach ctx kind name write nodes).Follows c [] := by
  unfold packageOfEach
  refine .seq carries.lawful (placeAll_follows carries each) fun _ => .getThen fun s _ => ?_
  dsimp only
  split
  · exact .pure carries.lawful _
  · exact .seq carries.lawful (carries.package name kind _ _) fun _ => .pure carries.lawful _

theorem ownMembers_follows : (ownMembers ctx unit).Follows c [] := by
  unfold ownMembers
  refine .getThen fun s holds => .filterM carries.lawful fun m listed => ?_
  obtain ⟨-, inner, -, found, -⟩ := carries.allows.wellFormed.member_inside listed
  split
  · exact .pure carries.lawful _
  · refine .seq carries.lawful (.liftFault carries.lawful fun failed => ?_) fun _ => .pure carries.lawful _
    have missing : ctx.tree.kind? s.deps.unit = none :=
      (Dependencies.reaches_error failed).resolve_left (by simp [Tree.kind?_eq found])
    exact (carries.units holds).resolve_left (by simp [Tree.hasKind, missing]) _

theorem marshalling_follows {declared : List Nat} (types : ∀ n ∈ declared, Fits ctx c Kind.isType n) :
    (marshalling ctx unit name declared).Follows c [] := by
  unfold marshalling
  have profiles : ∀ n ∈ declared, (marshalProfiles ctx n).Follows c [] :=
    fun n listed => marshalProfiles_follows carries.allows ((types n listed).imp Kind.not_isPart_of_isType)
  have bodies : ∀ n ∈ declared, (marshalBody ctx n).Follows c [] :=
    fun n listed => carries.encodes (types n listed)
  refine .seq carries.lawful carries.opens fun _ => ?_
  refine .seq carries.lawful (packageOfEach_follows carries name .marshalSpec profiles) fun specs => ?_
  refine .seq carries.lawful carries.opens fun _ => ?_
  exact .seq carries.lawful (packageOfEach_follows carries name .marshalBody bodies) fun _ => .pure carries.lawful _

/-! ## The package of the unit -/

section Package

include isUnit

theorem declareReferences_follows : (declareReferences ctx unit).Follows c [] := by
  unfold declareReferences
  split
  · next interface =>
    have declared := (isInterface_iff.mp interface).2
    have written := carries.declares declared (carries.allows.wellFormed.packageOf_unit isUnit)
    exact .before carries.lawful written carries.hoists
  · exact .pure carries.lawful _

theorem declarations_follow {members : List Nat} {s s' : Session} (listed : ownMembers ctx unit s = .ok members s') :
    (placeAll (declaration ctx) (members.flatMap ctx.tree.innerFirst)).Follows c [] := by
  apply placeAll_follows carries
  intro n walked
  obtain ⟨m, among, within⟩ := List.mem_flatMap.mp walked
  have wf := carries.allows.wellFormed
  obtain ⟨declared, home⟩ := declared_of_ownMembers wf isUnit listed m among
  obtain ⟨nested, package⟩ := wf.isDeclared_of_mem_innerFirst declared within
  exact carries.declares nested (package.trans home)

theorem specification_follows : (specification ctx unit name).Follows c [] := by
  unfold specification
  refine .seq carries.lawful carries.opens fun _ => ?_
  refine .seq carries.lawful (declareReferences_follows carries isUnit) fun _ => ?_
  refine .bindRun carries.lawful (ownMembers_follows carries) fun _ listed => ?_
  refine .seq carries.lawful (declarations_follow carries isUnit listed) fun _ => ?_
  refine .seq carries.lawful (takeDeclared_follows carries.takes) fun declared => .getThen fun s _ => ?_
  dsimp only
  split
  · exact .pure carries.lawful _
  · exact .seq carries.lawful (carries.package name .spec _ _) fun _ => .pure carries.lawful _

theorem declared_types_of_specification {s s' : Session} (holds : c.holds s) {artifacts : List Artifact}
    {declared : List Nat} (done : specification ctx unit name s = .ok (artifacts, declared) s') :
    ∀ n ∈ declared, Fits ctx c Kind.isType n := by
  obtain ⟨opened, members, filled, first, listed, written, rfl, -⟩ := specification_ok done
  have start := (carries.opens.ok holds rfl).1
  have openedHolds := ((declareReferences_follows carries isUnit).ok start first).1
  exact carries.declared ((declarations_follow carries isUnit listed).ok openedHolds written).1

theorem packageBody_follows : (packageBody ctx unit name).Follows c [] := by
  unfold packageBody
  refine .seq carries.lawful carries.opens fun _ => ?_
  refine .bindRun carries.lawful (ownMembers_follows carries) fun {_ members _} _ listed => ?_
  apply packageOfEach_follows carries
  intro n among
  have declared : ctx.tree.hasKind Kind.isDeclared n = true := by
    split at among
    · next interface =>
      rcases List.mem_cons.mp among with rfl | member
      · exact (isInterface_iff.mp interface).2
      · exact (declared_of_ownMembers carries.allows.wellFormed isUnit listed n member).1
    · exact (declared_of_ownMembers carries.allows.wellFormed isUnit listed n among).1
  have written : Fits ctx c Kind.isDeclared n := .inl declared
  exact body_follows carries.allows (written.imp Kind.not_isPart_of_isDeclared)
    fun r refers => carries.refers refers .declaration

end Package

/-! ## The children of an interface -/

omit carries in
theorem fits_of_operation {n : Nat} (listed : n ∈ operationsOf ctx unit) : Fits ctx c Kind.isOperation n := by
  left
  obtain ⟨present, found, kind⟩ := Tree.exists_of_hasKind (List.mem_filter.mp listed).2
  rw [Tree.hasKind_eq found]
  cases shape : present.kind <;> simp_all [Kind.isOperation]

section Parts

variable (lawful : c.Lawful)
include lawful
omit carries

theorem mapM_follows {α : Type} {write : Nat → Emit α} {nodes : List Nat}
    (each : ∀ n ∈ nodes, (write n).Follows c []) : (nodes.mapM write).Follows c [] :=
  (Follows.mapM lawful each).weaken (by simp)

theorem itemsOfAll_follows {write : Nat → Emit (List Item)} {nodes : List Nat}
    (each : ∀ n ∈ nodes, (write n).Follows c []) : (itemsOfAll write nodes).Follows c [] := by
  unfold itemsOfAll
  refine .seq lawful (mapM_follows lawful each) fun items => ?_
  exact .seq lawful (.get lawful) fun _ => .pure lawful _

theorem implementation_follows_of_parts (opens : (beginArtifact ctx unit).Follows c [])
    (parent : (servantParent ctx unit).Follows c [])
    (types : ∀ n ∈ operationsOf ctx unit, (subprogramsOf ctx n).Follows c [])
    (packages : ∀ kind items hidden, (package ctx kind name items hidden).Follows c []) :
    (implementation ctx unit name).Follows c [] := by
  unfold implementation
  have specs : ∀ n ∈ operationsOf ctx unit, (servants ctx n).Follows c [] :=
    fun n listed => .seq lawful (types n listed) fun _ => .pure lawful _
  have bodies : ∀ n ∈ operationsOf ctx unit, (servantBodies ctx n).Follows c [] :=
    fun n listed => .seq lawful (types n listed) fun _ => .pure lawful _
  split
  · exact .pure lawful _
  · refine .seq lawful opens fun _ => .seq lawful parent fun parent => ?_
    refine .seq lawful (mapM_follows lawful specs) fun declarations => .getThen fun s _ => ?_
    refine .seq lawful (packages .implSpec _ _) fun spec => ?_
    split
    · exact .pure lawful _
    · refine .seq lawful opens fun _ => .seq lawful (itemsOfAll_follows lawful bodies) fun items => ?_
      exact .seq lawful (packages .implBody _ _) fun _ => .pure lawful _

theorem skeleton_follows : (skeleton ctx unit name).Follows c [] := by
  unfold skeleton
  have entries : ∀ n ∈ operationsOf ctx unit, (dispatchEntries ctx n).Follows c [] :=
    fun n listed => dispatchEntries_follows lawful (fits_of_operation listed)
  split
  · exact .pure lawful _
  · exact .seq lawful (mapM_follows lawful entries) fun _ => .pure lawful _

end Parts

theorem proxies_follows : (proxies ctx unit name).Follows c [] := by
  unfold proxies
  have types (n : Nat) : ∀ r ∈ ctx.tree.declarationRefs n, (nameType ctx r).Follows c [r] :=
    fun r refers => carries.refers refers .declaration
  have codecs (n : Nat) : ∀ r ∈ ctx.tree.declarationRefs n, (nameCodec ctx r).Follows c [r] :=
    fun r refers => carries.refers refers .marshalling
  have specs : ∀ n ∈ operationsOf ctx unit, (descriptors ctx n).Follows c [] :=
    fun n listed => descriptors_follows carries.allows (fits_of_operation listed) (types n)
  have bodies : ∀ n ∈ operationsOf ctx unit, (descriptorBodies ctx n).Follows c [] :=
    fun n listed => descriptorBodies_follows carries.allows (fits_of_operation listed) (types n) (codecs n)
  dsimp only
  split
  · exact .pure carries.lawful _
  · refine .seq carries.lawful carries.opens fun _ => ?_
    refine .seq carries.lawful (mapM_follows carries.lawful specs) fun parts => .getThen fun s _ => ?_
    refine .seq carries.lawful (carries.package name .proxiesSpec _ _) fun spec => ?_
    refine .seq carries.lawful carries.opens fun _ => ?_
    refine .seq carries.lawful (itemsOfAll_follows carries.lawful bodies) fun items => ?_
    exact .seq carries.lawful (carries.package name .proxiesBody _ _) fun _ => .pure carries.lawful _

theorem implementation_follows (interface : isInterface ctx unit = true) :
    (implementation ctx unit name).Follows c [] := by
  apply implementation_follows_of_parts name carries.lawful carries.opens
  · exact servantParent_follows carries.allows (.inl interface) trivial
  · exact fun n listed => subprogramsOf_follows carries.allows (fits_of_operation listed) fun r refers =>
      carries.refers refers .declaration
  · exact carries.package name

theorem children_follows : (children ctx unit name).Follows c [] := by
  unfold children
  split
  · next interface =>
    refine .seq carries.lawful (proxies_follows carries name) fun stubs => ?_
    refine .seq carries.lawful (implementation_follows carries name interface) fun servants => ?_
    exact .seq carries.lawful (skeleton_follows name carries.lawful) fun _ => .pure carries.lawful _
  · exact .pure carries.lawful _

include isUnit in
theorem unitWith_follows {others : String → Emit (List Artifact)} (more : ∀ name, (others name).Follows c []) :
    (unitWith ctx unit others).Follows c [] := by
  unfold unitWith
  refine .seq carries.lawful (carries.allows.unitNames isUnit) fun name => ?_
  refine .bindRun carries.lawful (specification_follows carries isUnit name) fun holds done => ?_
  have types := declared_types_of_specification carries isUnit name holds done
  refine .seq carries.lawful (packageBody_follows carries isUnit name) fun bodies => ?_
  refine .seq carries.lawful (marshalling_follows carries name types) fun codecs => ?_
  exact .seq carries.lawful (more name) fun _ => .pure carries.lawful _

include isUnit in
theorem generateUnit_follows : (generateUnit ctx unit).Follows c [] :=
  unitWith_follows carries isUnit (children_follows carries)

end Course

end Emit

end AdaStubs
