import AdaStubs.Proofs.Emission.Ready
import AdaStubs.Proofs.Generation.Clauses

/-!
# Servants and dispatchers

What an interface can be given besides its proxies. All that servants refer to has been referred to by the proxies,
and the servants of the first base are named where the references of that base have been named. So these artifacts
never fail, and leave the session as they find it.
-/

namespace AdaStubs

open Ada Run

namespace Emit

variable {ctx : Context} {unit : Nat} {name : String} {s s' : Session}

/-! ## Progress of the phases -/

/-- The conduct of forgetting nothing that has been written. -/
abbrev proceeding : Conduct Session := .along fun s s' => s.progress.Extends s'.progress

theorem proceeding_lawful : proceeding.Lawful := Conduct.along_lawful (fun _ => .refl _) .trans

variable (ctx) in
theorem proceeds_of_advances {α : Type} {act : Emit α} {nodes : List Nat}
    (advances : act.Follows (advancing ctx) nodes) : act.Follows proceeding nodes :=
  advances.along_mono Session.Advances.progress

section

variable (wf : ctx.tree.WellFormed)
include wf

theorem proceeding_allows : Allows ctx proceeding where
  lawful := proceeding_lawful
  wellFormed := wf
  localNames _ := proceeds_of_advances ctx (withNames_advances _)
  fullNames _ := proceeds_of_advances ctx (withNames_advances _)
  sizes _ := proceeds_of_advances ctx (isFixedSize_advances _)
  requires package := proceeds_of_advances ctx ((advancing_notes wf).requires package)
  uses package := proceeds_of_advances ctx ((advancing_notes wf).uses package)
  enumerators found listed := proceeds_of_advances ctx ((advancing_allows wf).enumerators found listed)
  bases among found first :=
    ((advancing_allows wf).bases among found first).imp (proceeds_of_advances ctx) (proceeds_of_advances ctx)
  bounds _ _ := trivial

theorem proceeding_carries : Carries ctx unit proceeding where
  allows := proceeding_allows wf
  opens := .modify fun _ => ⟨trivial, .refl _⟩
  hoists items := proceeds_of_advances ctx (hoist_advances items)
  takes _ := ⟨trivial, .refl _⟩
  declared _ _ _ := .inr fun _ => trivial
  units _ := .inr fun _ => trivial
  entries _ _ _ _ := .inr fun _ => trivial
  refers _ a := (proceeds_of_advances ctx (nameWithin_advances wf a _ _)).settle fun _ _ => trivial
  declares _ _ := proceeds_of_advances ctx (produce_advances wf fun r => nameWithin_advances wf .declaration _ r)
  encodes _ := proceeds_of_advances ctx (produce_advances wf fun r => nameWithin_advances wf .marshalling _ r)

end

/-! ## What servants need -/

/-- All that the servants of `unit` refer to is ready, and nothing is under way. -/
structure Equipped (ctx : Context) (unit : Nat) (s : Session) : Prop where
  rests : NameTable.Rests ctx s.names
  idle : s.progress.busy = []
  base : ∀ {kind base}, ctx.tree.kind? unit = some kind → base ∈ kind.firstBase? →
    ∃ name, NameTable.fullResult ctx base = .ok name
  types : ∀ o ∈ operationsOf ctx unit, ∀ r ∈ ctx.tree.declarationRefs o, Ready ctx unit r s

section

variable (wf : ctx.tree.WellFormed)
include wf

theorem base_of_declareReferences {kind : Kind} {base : Nat} (found : ctx.tree.kind? unit = some kind)
    (first : base ∈ kind.firstBase?) (rests : NameTable.Rests ctx s.names) (idle : s.progress.busy = [])
    (undone : s.progress.isDefined unit = false) (done : declareReferences ctx unit s = .ok () s') :
    ∃ name, NameTable.fullResult ctx base = .ok name := by
  cases kind with
  | interface bases =>
    obtain ⟨others, rfl⟩ := List.head?_eq_some_iff.mp first
    have interface : isInterface ctx unit = true := by simp [isInterface, Tree.hasKind, found]
    unfold declareReferences at done
    rw [if_pos interface] at done
    obtain ⟨items, written, produced, -⟩ := place_ok done
    rcases produce_ok produced with ⟨written | busy, -⟩ | ⟨-, -, inner, run, -⟩
    · simp [Aspect.isDone, undone] at written
    · simp [Progress.isBusy, idle] at busy
    · obtain ⟨declaration, last, declared, -⟩ := bind_eq_ok.mp run
      unfold declare at declared
      rw [kindOf_of_kind found, pure_bind] at declared
      obtain ⟨parent, named, derived, -⟩ := bind_eq_ok.mp declared
      obtain ⟨_, recorded, step, naming⟩ := bind_eq_ok.mp derived
      cases step
      refine ⟨parent, (withNames_answers (NameTable.fullName_run wf base) ?_ naming).1⟩
      exact rests
  | _ => cases first

variable (interface : isInterface ctx unit = true)
include interface

/-- The specification declares the references of the interface, for which its first base has to have a name. -/
theorem specification_declares_references (rests : NameTable.Rests ctx s.names) (idle : s.progress.busy = [])
    (undone : s.progress.isDefined unit = false) {artifacts : List Artifact} {declared : List Nat}
    (done : specification ctx unit name s = .ok (artifacts, declared) s') :
    s'.progress.isDefined unit = true ∧ ∀ {kind base}, ctx.tree.kind? unit = some kind → base ∈ kind.firstBase? →
      ∃ full, NameTable.fullResult ctx base = .ok full := by
  have carries : Carries ctx unit proceeding := proceeding_carries wf
  have isUnit := (isInterface_iff.mp interface).1
  obtain ⟨opened, members, filled, first, listed, written, -, packed⟩ := specification_ok done
  refine ⟨?_, fun found base =>
    base_of_declareReferences (s := opening ctx unit s) wf found base rests idle undone first⟩
  have begun : (opening ctx unit s).progress.Extends opened.progress :=
    ((declareReferences_follows carries isUnit).ok trivial first).2.1
  have referred : opened.progress.isDefined unit = true := by
    rcases declareReferences_done first unit (by simp [interface]) with defined | busy
    · exact (isDone_iff (a := .declaration)).mpr defined
    · rw [show opened.trace.busy = [] from begun.busy_eq.trans idle] at busy
      cases busy
  have further : opened.progress.Extends filled.progress :=
    ((declarations_follow carries isUnit listed).ok trivial written).2.1
  have last : filled.progress.Extends s'.progress := by
    rcases packed with ⟨-, -, rfl⟩ | ⟨artifact, -, made⟩
    · exact .refl _
    · exact ((carries.package name _ _ _).ok trivial made).2.1
  exact (further.trans last).done (a := .declaration) referred

theorem proxies_ready (rests : NameTable.Rests ctx s.names) (declared : s.progress.isDefined unit = true)
    {artifacts : List Artifact} (done : proxies ctx unit name s = .ok artifacts s') :
    ∀ o ∈ operationsOf ctx unit, ∀ r ∈ ctx.tree.declarationRefs o, Ready ctx unit r s' := by
  have carries : Carries ctx unit proceeding := proceeding_carries wf
  have isUnit := (isInterface_iff.mp interface).1
  rcases proxies_ok done with ⟨none, -⟩ | ⟨parts, described, spec, between, bodies, written, body, first, made, second,
    madeBody, -⟩
  · simp [none]
  · have start : Stubbing ctx unit (opening ctx unit s) := ⟨rests, opening_packaged unit s, fun _ => declared⟩
    have settles : ∀ o ∈ operationsOf ctx unit,
        (descriptors ctx o).Follows (preparing ctx unit) (ctx.tree.declarationRefs o) := fun o listed =>
      descriptors_settle (preparing_allows wf isUnit) (fits_of_operation listed) fun r _ =>
        nameWithin_preparing wf isUnit _ r
    obtain ⟨-, -, ready⟩ := (Follows.mapM preparing_lawful settles).ok start first
    -- Nothing that comes after the descriptors takes back what they have had written.
    have packed : described.progress.Extends between.progress := ((carries.package name _ _ _).ok trivial made).2.1
    have filled : between.progress.Extends written.progress :=
      ((mapM_follows carries.lawful fun o listed => descriptorBodies_follows carries.allows (fits_of_operation listed)
        (fun r refers => carries.refers refers .declaration) fun r refers => carries.refers refers .marshalling).ok
          trivial second).2.1
    have closed : written.progress.Extends s'.progress := ((carries.package name _ _ _).ok trivial madeBody).2.1
    intro o listed r refers
    exact (ready r (List.mem_flatMap.mpr ⟨o, listed, refers⟩)).mono ((packed.trans filled).trans closed)

/-! ## They never fail -/

variable (imports : ∀ e ∈ ctx.settings.imports, e ∈ ctx.tree.ids) (equipped : Equipped ctx unit s)
include imports equipped

theorem implementation_undisturbed : (implementation ctx unit name).Follows (undisturbed ctx unit s) [] := by
  have isUnit := (isInterface_iff.mp interface).1
  have bears : Bears ctx unit (undisturbed ctx unit s) := undisturbed_bears wf isUnit
  have units {node : Nat} (isUnit : ctx.tree.hasKind Kind.isUnit node = true) :
      (fullName ctx node).Follows (undisturbed ctx unit s) [] := by
    obtain ⟨full, given⟩ : ∃ full, NameTable.fullResult ctx node = .ok full := NameTable.fullResult_of_unit wf isUnit
    exact bears.named (NameTable.fullName_run wf node) given
  apply implementation_follows_of_parts name bears.lawful
  case opens =>
    exact .modify fun {t} ⟨⟨rests, sizes_eq, trace_eq⟩, _⟩ =>
      ⟨⟨⟨rests, sizes_eq, trace_eq⟩, opening_packaged unit t⟩, trivial⟩
  case parent =>
    apply servantParent_follows_of_name bears.lawful (.inl interface) bears.records.requires
    intro kind base found first
    obtain ⟨full, given⟩ := equipped.base found first
    exact bears.named (NameTable.fullName_run wf base) given
  case types =>
    intro o listed
    have operation : Fits ctx (undisturbed ctx unit s) Kind.isOperation o := fits_of_operation listed
    exact subprogramsOf_undisturbed wf isUnit equipped.idle (operation.resolve_right fun lenient => lenient .exhausted)
      (equipped.types o listed)
  case packages =>
    intro kind items hidden
    apply package_follows bears.lawful wf units
    intro t holds a e recorded
    rcases holds.2.packages recorded with known | isUnit
    · exact fits_of_mem_ids (imports e known)
    · exact fits_of_mem_ids (Tree.mem_ids_of_hasKind isUnit)

theorem implementation_succeeds (name : String) :
    ∃ artifacts s', implementation ctx unit name s = .ok artifacts s' ∧ Unmoved ctx s s' := by
  cases chosen : ctx.settings.implementation with
  | false =>
    refine ⟨[], s, ?_, .refl equipped.rests⟩
    rw [implementation, chosen]
    rfl
  | true =>
    have opened : implementation ctx unit name s = implementation ctx unit name (opening ctx unit s) := by
      rw [implementation, chosen]
      rfl
    have start : Unmoved ctx s (opening ctx unit s) := ⟨equipped.rests, rfl, rfl⟩
    obtain ⟨artifacts, s', done, unmoved, -⟩ :=
      (implementation_undisturbed wf interface imports equipped).exists_ok ⟨start, opening_packaged unit s⟩
    exact ⟨artifacts, s', opened.trans done, unmoved⟩

end

theorem skeleton_succeeds (ctx : Context) (unit : Nat) (name : String) (s : Session) :
    ∃ artifacts, skeleton ctx unit name s = .ok artifacts s := by
  have follows : (skeleton ctx unit name).Follows (.ensuring (· = s)) [] :=
    skeleton_follows name (Conduct.ensuring_lawful _)
  obtain ⟨artifacts, _, done, rfl⟩ := follows.exists_ok rfl
  exact ⟨artifacts, done⟩

end Emit

end AdaStubs
