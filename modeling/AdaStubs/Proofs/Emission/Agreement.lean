import AdaStubs.Proofs.Agreement
import AdaStubs.Proofs.Emission.Advance
import AdaStubs.Proofs.SizeVerdict

/-!
# What a session depends on

Two sessions may have come a different way, so that they hold different names and sizes and have written
different declarations, and still go on alike: names and sizes come out the same whenever they are asked for, and
whether something has been written is asked only of what belongs to the artifact's own package.
-/

namespace AdaStubs

open Ada Run

/-- The sessions are at the same point of the same artifact, as far as the nodes `own` go. Of the other nodes, what
has been written in `s` is known as `base`. -/
structure Session.Alike (ctx : Context) (own : Nat → Prop) (base : Aspect → Nat → Bool) (s t : Session) : Prop where
  names : NameTable.Rests ctx s.names ∧ NameTable.Rests ctx t.names
  sizes : (s.sizes.Sound ctx.tree ∧ s.sizes.busy = []) ∧ t.sizes.Sound ctx.tree ∧ t.sizes.busy = []
  deps_eq : s.deps = t.deps
  hoisted_eq : s.hoisted = t.hoisted
  declared_eq : s.declared = t.declared
  busy_eq : s.progress.busy = t.progress.busy
  done_eq : ∀ (a : Aspect) (n : Nat), own n → a.isDone s.progress n = a.isDone t.progress n
  frame : ∀ (a : Aspect) (n : Nat), ¬ own n → a.isDone s.progress n = base a n
  awaited : ∀ n ∈ s.declared, own n
  covers : ∀ n, ctx.tree.packageOf n = s.deps.unit → own n

namespace Session.Alike

variable {ctx : Context} {own : Nat → Prop} {base : Aspect → Nat → Bool} {s t : Session} {a : Aspect} {node : Nat}

theorem enter (alike : Alike ctx own base s t) (node : Nat) :
    Alike ctx own base { s with progress := s.progress.enter node } { t with progress := t.progress.enter node } :=
  { alike with busy_eq := congrArg (List.insert node) alike.busy_eq }

theorem finish (alike : Alike ctx own base s t) (among : own node) :
    Alike ctx own base
      { s with
        progress := a.markDone (s.progress.leave node) node,
        declared := s.declared ++ if Emit.awaitsMarshalling ctx a node then [node] else [] }
      { t with
        progress := a.markDone (t.progress.leave node) node,
        declared := t.declared ++ if Emit.awaitsMarshalling ctx a node then [node] else [] } :=
  { alike with
    declared_eq := congrArg (· ++ _) alike.declared_eq
    busy_eq := by
      have left := congrArg (List.erase · node) alike.busy_eq
      cases a <;> exact left
    done_eq := fun b n owned => by
      have same : b.isDone (s.progress.leave node) n = b.isDone (t.progress.leave node) n := alike.done_eq b n owned
      rw [Aspect.isDone_markDone, Aspect.isDone_markDone, same]
    frame := fun b n other => by
      have same : b.isDone (s.progress.leave node) n = base b n := alike.frame b n other
      have apart : n ≠ node := fun equal => other (equal ▸ among)
      simp [Aspect.isDone_markDone, same, apart]
    awaited := fun n listed => by
      rcases List.mem_append.mp listed with early | last
      · exact alike.awaited n early
      · split at last
        · exact List.mem_singleton.mp last ▸ among
        · cases last }

end Session.Alike

namespace Emit

open Session

variable {ctx : Context} {own : Nat → Prop} {base : Aspect → Nat → Bool} {a : Aspect} {node : Nat}

/-! ## Notes -/

theorem withNames_agrees {act : NameTable.Lookup String} {result : Except Fault String}
    (answers : NameTable.Answers ctx act result) : (withNames act).Agrees (Alike ctx own base) := by
  intro s t alike
  obtain ⟨names, rests, run⟩ := withNames_lift answers alike.names.1
  obtain ⟨names', rests', run'⟩ := withNames_lift answers alike.names.2
  cases result with
  | ok name => exact .inl ⟨name, _, _, run, run', { alike with names := ⟨rests, rests'⟩ }⟩
  | error fault => exact .inr ⟨fault, _, _, run, run'⟩

theorem isFixedSize_agrees (node : Nat) : (isFixedSize ctx node).Agrees (Alike ctx own base) := by
  intro s t alike
  have found := SizeTable.isFixed_finds ctx.tree node s.sizes alike.sizes.1.1 alike.sizes.1.2
  have found' := SizeTable.isFixed_finds ctx.tree node t.sizes alike.sizes.2.1 alike.sizes.2.2
  unfold isFixedSize withSizes
  cases run : SizeTable.isFixed ctx.tree node s.sizes <;> cases run' : SizeTable.isFixed ctx.tree node t.sizes
  all_goals
    rw [run] at found
    rw [run'] at found'
    cases found.1.unique found'.1
  · exact .inl ⟨_, _, _, rfl, rfl, { alike with sizes := ⟨found.2, found'.2⟩ }⟩
  · exact .inr ⟨_, _, _, rfl, rfl⟩

theorem updateDeps_agrees {f : Dependencies → Dependencies} (kept : ∀ d, (f d).unit = d.unit) :
    (updateDeps f).Agrees (Alike ctx own base) :=
  .modify fun alike => { alike with
    deps_eq := congrArg f alike.deps_eq
    covers := fun n home => alike.covers n (home.trans (kept _)) }

theorem require_agrees (package : String) : (require package).Agrees (Alike ctx own base) :=
  updateDeps_agrees fun _ => rfl

theorem use_agrees (package : String) : (use package).Agrees (Alike ctx own base) := updateDeps_agrees fun _ => rfl

theorem mention_agrees (a : Aspect) (node : Nat) : (mention a node).Agrees (Alike ctx own base) :=
  updateDeps_agrees fun _ => rfl

theorem hoist_agrees (items : List Item) : (hoist items).Agrees (Alike ctx own base) :=
  .modify fun alike => { alike with hoisted_eq := congrArg (· ++ items) alike.hoisted_eq }

theorem place_agrees {act : Emit (List Item)} (agrees : act.Agrees (Alike ctx own base)) :
    (place act).Agrees (Alike ctx own base) :=
  .bind agrees hoist_agrees

theorem markImported_agrees (a : Aspect) (node : Nat) :
    (updateProgress (a.markImported · node)).Agrees (Alike ctx own base) := by
  have still (p : Progress) (b : Aspect) (n : Nat) : b.isDone (a.markImported p node) n = b.isDone p n := by
    cases a <;> cases b <;> rfl
  exact .modify fun alike => { alike with
    busy_eq := by cases a <;> exact alike.busy_eq
    done_eq := fun b n among => by rw [still, still, alike.done_eq b n among]
    frame := fun b n other => by rw [still, alike.frame b n other] }

theorem kindOf_agrees (node : Nat) : (kindOf ctx node).Agrees (Alike ctx own base) :=
  .bind (.liftFault _) fun _ => .pure _

theorem refuse_agrees {α : Type} (node : Nat) (expected : String) (actual : Kind) :
    (refuse node expected actual : Emit α).Agrees (Alike ctx own base) := .throw _

theorem requireStream_agrees : (requireStream ctx).Agrees (Alike ctx own base) :=
  .bind (use_agrees _) fun _ => require_agrees _

theorem requireRuntimeType_agrees (package : String) :
    (requireRuntimeType ctx a package).Agrees (Alike ctx own base) := by
  unfold requireRuntimeType
  refine .bind (require_agrees _) fun _ => ?_
  split
  · exact requireStream_agrees
  · exact .pure _

theorem isExternal_agrees (node : Nat) : (isExternal ctx a node).Agrees (Alike ctx own base) := by
  have runtime (package : String) : (do
      requireRuntimeType ctx a package
      return true : Emit Bool).Agrees (Alike ctx own base) :=
    .bind (requireRuntimeType_agrees package) fun _ => .pure _
  have ordinary : (do
      let deps := (← get).deps
      if ← a.isImported deps ctx.tree node then return true
      let package := ctx.tree.packageOf node
      if package == deps.unit then return false
      updateDeps (a.recordPackage · package)
      return true : Emit Bool).Agrees (Alike ctx own base) := by
    refine .reads (fun alike => by rw [alike.deps_eq]) fun _ => .bind (.liftFault _) fun imported => ?_
    split
    · exact .pure _
    · dsimp only
      split
      · exact .pure _
      · exact .bind (updateDeps_agrees fun _ => by cases a <;> rfl) fun _ => .pure _
  unfold isExternal
  refine .bind (kindOf_agrees node) fun kind => ?_
  cases kind with
  | primitive p => exact runtime _
  | string bound wide =>
    cases bound with
    | none => exact runtime _
    | some bound => exact ordinary
  | _ => exact ordinary

theorem expectType_agrees (node : Nat) : (expectType ctx node).Agrees (Alike ctx own base) := by
  unfold expectType
  refine .bind (kindOf_agrees node) fun kind => ?_
  split
  · exact refuse_agrees _ _ _
  · exact .pure _

/-! ## Declarations and marshalling -/

section

variable (wf : ctx.tree.WellFormed)
include wf

theorem localName_agrees (node : Nat) : (localName ctx node).Agrees (Alike ctx own base) :=
  withNames_agrees (NameTable.localName_run wf node)

theorem fullName_agrees (node : Nat) : (fullName ctx node).Agrees (Alike ctx own base) :=
  withNames_agrees (NameTable.fullName_run wf node)

theorem typeName_agrees (node : Nat) (qualified : Bool) : (typeName ctx node qualified).Agrees (Alike ctx own base) := by
  unfold typeName
  split
  · exact .bind (fullName_agrees wf node) fun name => .bind (kindOf_agrees node) fun kind => by
      cases kind <;> exact .pure _
  · exact .bind (localName_agrees wf node) fun name => .bind (kindOf_agrees node) fun kind => by
      cases kind <;> exact .pure _

theorem externalName_agrees (node : Nat) : (externalName ctx a node).Agrees (Alike ctx own base) :=
  .bind (markImported_agrees a node) fun _ => .bind (typeName_agrees wf node true) fun _ =>
    .bind (mention_agrees a node) fun _ => .pure _

theorem enumeratorName_agrees (node : Nat) : (enumeratorName ctx node).Agrees (Alike ctx own base) := by
  unfold enumeratorName
  refine .bind (isExternal_agrees node) fun outside => ?_
  split
  · exact .bind (fullName_agrees wf node) fun _ => .bind (mention_agrees .declaration node) fun _ => .pure _
  · exact localName_agrees wf node

theorem literal_agrees (value : Value) : (literal ctx value).Agrees (Alike ctx own base) := by
  cases value with
  | string text => exact .bind (require_agrees _) fun _ => .pure _
  | wstring text => exact .bind (require_agrees _) fun _ => .pure _
  | enumerator node => exact enumeratorName_agrees wf node
  | _ => exact .pure _

theorem choices_agrees (labels : List Label) : (choices ctx labels).Agrees (Alike ctx own base) := by
  unfold choices
  split
  · exact .pure _
  · exact .bind (.mapM fun value _ => literal_agrees wf value) fun _ => .pure _

theorem parentPackage_agrees (bases : List Nat) : (parentPackage ctx bases).Agrees (Alike ctx own base) := by
  cases bases with
  | nil => exact .bind (require_agrees _) fun _ => .pure _
  | cons first others => exact .bind (updateDeps_agrees fun _ => rfl) fun _ => fullName_agrees wf first

section

variable {resolve : Nat → Emit String} (refs : ∀ r, (resolve r).Agrees (Alike ctx own base))
include refs

theorem components_agrees (node : Nat) : (components ctx resolve node).Agrees (Alike ctx own base) :=
  .mapM fun (field, type) _ => .bind (refs type) fun _ => .bind (localName_agrees wf field) fun _ => .pure _

theorem variants_agrees (node : Nat) : (variants ctx resolve node).Agrees (Alike ctx own base) :=
  .mapM fun (branch, labels, type) _ => .bind (refs type) fun _ => .bind (choices_agrees wf labels) fun _ =>
    .bind (localName_agrees wf branch) fun _ => .pure _

theorem subprograms_agrees (node : Nat) : (subprograms ctx resolve node).Agrees (Alike ctx own base) := by
  unfold subprograms
  refine .bind (kindOf_agrees node) fun kind => ?_
  cases kind with
  | «attribute» type readonly => exact .bind (localName_agrees wf node) fun _ => .bind (refs type) fun _ => .pure _
  | operation result oneway raises =>
    refine .bind (.mapM fun (argument, direction, type) _ => ?_) fun parameters => ?_
    · exact .bind (localName_agrees wf argument) fun _ => .bind (refs type) fun _ => .pure _
    · refine .bind (.option_mapM fun type _ => .bind (refs type) fun _ => .pure _) fun result => ?_
      exact .bind (localName_agrees wf node) fun _ => .pure _
  | _ => exact refuse_agrees _ _ _

theorem declare_agrees (node : Nat) : (declare ctx resolve node).Agrees (Alike ctx own base) := by
  unfold declare
  refine .bind (kindOf_agrees node) fun kind => ?_
  have named : (localName ctx node).Agrees (Alike ctx own base) := localName_agrees wf node
  have close (d : Declaration) : (do requireDeallocation; return some d : Emit _).Agrees (Alike ctx own base) :=
    .bind (require_agrees _) fun _ => .pure _
  have operations : (do
      return some (.operations (← subprograms ctx resolve node)) : Emit (Option Declaration)).Agrees (Alike ctx own base) :=
    .bind (subprograms_agrees wf refs node) fun _ => .pure _
  cases kind with
  | array dims element =>
    exact .bind named fun _ => .bind (.liftError _) fun _ => .bind (refs element) fun _ => close _
  | struct => exact .bind named fun _ => .bind (components_agrees wf refs node) fun _ => close _
  | exception =>
    refine .bind named fun _ => .bind (components_agrees wf refs node) fun _ => ?_
    exact .bind (require_agrees _) fun _ => .bind (require_agrees _) fun _ => .pure _
  | union discriminant =>
    exact .bind named fun _ => .bind (refs discriminant) fun _ => .bind (variants_agrees wf refs node) fun _ => close _
  | enum => exact .bind named fun _ => .bind (.mapM fun member _ => localName_agrees wf member) fun _ => close _
  | sequence element bound =>
    refine .bind named fun _ => .bind (refs element) fun _ => .bind (require_agrees _) fun _ => ?_
    exact .bind (.option_mapM fun _ _ => .liftError _) fun _ => close _
  | string bound wide =>
    cases bound with
    | none => exact .pure _
    | some bound =>
      exact .bind named fun _ => .bind (.liftError _) fun _ => .bind (require_agrees _) fun _ => close _
  | fixed digits scale => exact .bind named fun _ => close _
  | typedef type => exact .bind (refs type) fun _ => .bind named fun _ => close _
  | constant type value =>
    exact .bind (refs type) fun _ => .bind (literal_agrees wf value) fun _ => .bind named fun _ => .pure _
  | interface bases => exact .bind (parentPackage_agrees wf bases) fun _ => .bind (require_agrees _) fun _ => close _
  | «attribute» | operation => exact operations
  | module | primitive => exact .pure _
  | branch | enumerator | argument | field => exact refuse_agrees _ _ _

omit wf refs in
theorem arrayPlan_agrees (node : Nat) : (arrayPlan ctx node).Agrees (Alike ctx own base) := by
  unfold arrayPlan
  refine .bind (kindOf_agrees node) fun kind => ?_
  cases kind with
  | array dims element => exact .bind (.liftError _) fun _ => .bind (isFixedSize_agrees element) fun _ => .pure _
  | _ => exact refuse_agrees _ _ _

theorem encode_agrees (node : Nat) : (encode ctx resolve node).Agrees (Alike ctx own base) := by
  unfold encode
  refine .bind (kindOf_agrees node) fun kind => ?_
  have named : (localName ctx node).Agrees (Alike ctx own base) := localName_agrees wf node
  have typed : (typeName ctx node false).Agrees (Alike ctx own base) := typeName_agrees wf node false
  have close (c : Codec) : (do requireStream ctx; return some c : Emit _).Agrees (Alike ctx own base) :=
    .bind requireStream_agrees fun _ => .pure _
  have closeCorba (c : Codec) :
      (do requireStream ctx; require "Corba"; return some c : Emit _).Agrees (Alike ctx own base) :=
    .bind requireStream_agrees fun _ => .bind (require_agrees _) fun _ => .pure _
  cases kind with
  | array dims element =>
    exact .bind named fun _ => .bind (refs element) fun _ => .bind (arrayPlan_agrees node) fun _ => close _
  | struct | exception => exact .bind typed fun _ => .bind (components_agrees wf refs node) fun _ => close _
  | union discriminant =>
    exact .bind named fun _ => .bind (refs discriminant) fun _ => .bind (variants_agrees wf refs node) fun _ => close _
  | enum => exact .bind named fun _ => closeCorba _
  | sequence element bound => exact .bind named fun _ => .bind (refs element) fun _ => closeCorba _
  | string bound wide =>
    cases bound with
    | none => exact .pure _
    | some bound => exact .bind named fun _ => closeCorba _
  | fixed digits scale => exact .bind named fun _ => close _
  | typedef type => exact .bind (refs type) fun _ => .bind named fun _ => close _
  | interface bases => exact .bind typed fun _ => .bind (require_agrees _) fun _ => close _
  | module | constant | «attribute» | operation | primitive => exact .pure _
  | branch | enumerator | argument | field => exact refuse_agrees _ _ _

theorem item_agrees (a : Aspect) (node : Nat) : (a.item ctx resolve node).Agrees (Alike ctx own base) := by
  cases a with
  | declaration => exact .bind (declare_agrees wf refs node) fun _ => .pure _
  | marshalling => exact .bind (encode_agrees wf refs node) fun _ => .pure _

end

/-! ## Writing and referring -/

/-- The step: whether it has been written is asked only of a node that the sessions agree on. -/
theorem produce_agrees {resolve : Nat → Emit String} (refs : ∀ r, (resolve r).Agrees (Alike ctx own base))
    (among : own node) : (produce ctx a resolve node).Agrees (Alike ctx own base) := by
  intro s t alike
  have busy : s.progress.isBusy node = t.progress.isBusy node := congrArg (List.contains · node) alike.busy_eq
  rw [produce_run, produce_run, alike.done_eq a node among, busy]
  by_cases early : (a.isDone t.progress node || t.progress.isBusy node) = true
  · rw [if_pos early, if_pos early]
    exact .inl ⟨[], s, t, rfl, rfl, alike⟩
  · rw [if_neg early, if_neg early]
    rcases item_agrees wf refs a node _ _ (alike.enter node) with
      ⟨items, inner, inner', run, run', after⟩ | ⟨fault, inner, inner', run, run'⟩
    · rw [run, run']
      exact .inl ⟨items, _, _, rfl, rfl, after.finish among⟩
    · rw [run, run']
      exact .inr ⟨fault, _, _, rfl, rfl⟩

theorem refer_agrees {resolve : Nat → Emit String} (refs : ∀ r, (resolve r).Agrees (Alike ctx own base)) (node : Nat) :
    (refer ctx a resolve node).Agrees (Alike ctx own base) := by
  unfold refer
  refine .bind (expectType_agrees node) fun _ => ?_
  refine .bindRun (isExternal_agrees node) fun {s t outside seen} alike decided => ?_
  cases outside with
  | true => exact externalName_agrees wf node
  | false =>
    have among : own node := by
      cases isExternal_sighting decided with
      | own _ _ _ home => exact alike.covers node home
    exact .bind (place_agrees (produce_agrees wf refs among)) fun _ => typeName_agrees wf node false

theorem nameWithin_agrees (a : Aspect) (depth node : Nat) :
    (nameWithin ctx a depth node).Agrees (Alike ctx own base) := by
  induction depth generalizing node with
  | zero => exact .throw _
  | succ depth ih => exact refer_agrees wf ih node

theorem nameType_agrees (node : Nat) : (nameType ctx node).Agrees (Alike ctx own base) := nameWithin_agrees wf _ _ node

theorem nameCodec_agrees (node : Nat) : (nameCodec ctx node).Agrees (Alike ctx own base) := nameWithin_agrees wf _ _ node

theorem declaration_agrees (among : own node) : (declaration ctx node).Agrees (Alike ctx own base) :=
  produce_agrees wf (nameType_agrees wf) among

theorem marshalBody_agrees (among : own node) : (marshalBody ctx node).Agrees (Alike ctx own base) :=
  produce_agrees wf (nameCodec_agrees wf) among

theorem marshalProfiles_agrees (node : Nat) : (marshalProfiles ctx node).Agrees (Alike ctx own base) := by
  unfold marshalProfiles
  refine .bind (kindOf_agrees node) fun kind => ?_
  have written : (do
      let type ← typeName ctx node false
      requireStream ctx
      return [Item.profiles node type] : Emit (List Item)).Agrees (Alike ctx own base) :=
    .bind (typeName_agrees wf node false) fun _ => .bind requireStream_agrees fun _ => .pure _
  cases kind with
  | branch | enumerator | argument | field => exact refuse_agrees _ _ _
  | module | constant | «attribute» | operation | primitive => exact .pure _
  | _ => exact written

/-! ## Stubs -/

theorem subprogramsOf_agrees (node : Nat) : (subprogramsOf ctx node).Agrees (Alike ctx own base) :=
  subprograms_agrees wf (nameType_agrees wf) node

theorem enclosingName_agrees (node : Nat) : (enclosingName ctx node).Agrees (Alike ctx own base) :=
  .bind (kindOf_agrees node) fun _ => fullName_agrees wf _

theorem clientBody_agrees (node : Nat) : (clientBody ctx node).Agrees (Alike ctx own base) :=
  .bind (enclosingName_agrees wf node) fun _ => .bind (require_agrees _) fun _ => .bind (require_agrees _) fun _ =>
    .bind (subprogramsOf_agrees wf node) fun _ => .pure _

theorem body_agrees (node : Nat) : (body ctx node).Agrees (Alike ctx own base) := by
  unfold body
  refine .bind (kindOf_agrees node) fun kind => ?_
  cases kind with
  | exception =>
    refine .bind (localName_agrees wf node) fun _ => ?_
    exact .bind (require_agrees _) fun _ => .bind (require_agrees _) fun _ => .pure _
  | interface bases => exact .bind (require_agrees _) fun _ => .pure _
  | «attribute» | operation => exact .bind (clientBody_agrees wf node) fun _ => .pure _
  | branch | enumerator | argument | field => exact refuse_agrees _ _ _
  | _ => exact .pure _

theorem descriptors_agrees (node : Nat) : (descriptors ctx node).Agrees (Alike ctx own base) :=
  .bind (require_agrees _) fun _ => .bind (require_agrees _) fun _ => .bind (require_agrees _) fun _ =>
    .bind (subprogramsOf_agrees wf node) fun _ => .pure _

theorem descriptorBodies_agrees (node : Nat) : (descriptorBodies ctx node).Agrees (Alike ctx own base) := by
  unfold descriptorBodies
  refine .bind (enclosingName_agrees wf node) fun _ => .bind (use_agrees _) fun _ => ?_
  refine .bind requireStream_agrees fun _ => .bind (subprogramsOf_agrees wf node) fun list => ?_
  exact .bind (.forM fun p _ => .map (nameCodec_agrees wf p.type) _) fun _ => .pure _

theorem servants_agrees (node : Nat) : (servants ctx node).Agrees (Alike ctx own base) :=
  .bind (subprogramsOf_agrees wf node) fun _ => .pure _

theorem servantBodies_agrees (node : Nat) : (servantBodies ctx node).Agrees (Alike ctx own base) :=
  .bind (subprogramsOf_agrees wf node) fun _ => .pure _

theorem servantParent_agrees (node : Nat) : (servantParent ctx node).Agrees (Alike ctx own base) := by
  unfold servantParent
  refine .bind (kindOf_agrees node) fun kind => ?_
  cases kind with
  | interface bases =>
    cases bases with
    | nil => exact .bind (require_agrees _) fun _ => .pure _
    | cons first others => exact .bind (fullName_agrees wf first) fun _ => .bind (require_agrees _) fun _ => .pure _
  | _ => exact refuse_agrees _ _ _

omit wf in
theorem dispatchEntries_agrees (node : Nat) : (dispatchEntries ctx node).Agrees (Alike ctx own base) := by
  refine .bind (.bind (kindOf_agrees node) fun kind => ?_) fun _ => .pure _
  split
  · exact .pure _
  · exact refuse_agrees _ _ _

end

end Emit

end AdaStubs
