import AdaStubs.Proofs.Emission.History
import AdaStubs.Proofs.FixedSize

/-!
# How a session advances

Whatever a session is asked for, and whether or not it can answer, it adds to what it has recorded, hoisted
and marked, and takes nothing of it back; what was under way before is under way after, and the types that
come to be declared are those that come to be marked so.
-/

namespace AdaStubs

open Ada Run

/-! ## Dependencies -/

namespace Dependencies

/-- The dependencies `d'` have everything that `d` has, in the same places. -/
structure Extends (d d' : Dependencies) : Prop where
  unit_eq : d'.unit = d.unit
  recorded : ∀ a : Aspect, a.recorded d <+: a.recorded d'
  distinct : ∀ a : Aspect, (a.recorded d).Nodup → (a.recorded d').Nodup
  runtime : ∀ (i : Nat) (r : RuntimeImport), d.runtime[i]? = some r →
    ∃ r', d'.runtime[i]? = some r' ∧ r'.package = r.package ∧ (r.isUsed = true → r'.isUsed = true)
  packages : (d.runtime.map (·.package)).Nodup → (d'.runtime.map (·.package)).Nodup
  mentions : d.mentions <+: d'.mentions

namespace Extends

variable {d d' d'' : Dependencies}

theorem refl (d : Dependencies) : d.Extends d :=
  ⟨rfl, fun _ => List.prefix_rfl, fun _ => id, fun _ r found => ⟨r, found, rfl, id⟩, id, List.prefix_rfl⟩

theorem trans (first : d.Extends d') (second : d'.Extends d'') : d.Extends d'' where
  unit_eq := second.unit_eq.trans first.unit_eq
  recorded a := (first.recorded a).trans (second.recorded a)
  distinct a := second.distinct a ∘ first.distinct a
  runtime i r found := by
    obtain ⟨r', found', same, stays⟩ := first.runtime i r found
    obtain ⟨r'', found'', same', stays'⟩ := second.runtime i r' found'
    exact ⟨r'', found'', same'.trans same, stays' ∘ stays⟩
  packages := second.packages ∘ first.packages
  mentions := first.mentions.trans second.mentions

end Extends

theorem prefix_appendNew (list : List Nat) (node : Nat) : list <+: appendNew list node := by
  unfold appendNew
  split <;> simp

theorem nodup_appendNew {list : List Nat} {node : Nat} (distinct : list.Nodup) : (appendNew list node).Nodup := by
  unfold appendNew
  split
  · exact distinct
  · next fresh =>
    rw [List.contains_iff_mem] at fresh
    exact List.nodup_append.mpr ⟨distinct, by simp, by simp; grind⟩

theorem addRuntime_keeps (package : String) (isUsed : Bool) (list : List RuntimeImport) (i : Nat) (r : RuntimeImport)
    (found : list[i]? = some r) : ∃ r', (addRuntime package isUsed list)[i]? = some r' ∧ r'.package = r.package ∧
      (r.isUsed = true → r'.isUsed = true) := by
  induction list generalizing i with
  | nil => simp at found
  | cons first rest ih =>
    unfold addRuntime
    split
    · cases i with
      | zero =>
        simp only [List.getElem?_cons_zero, Option.some.injEq] at found
        subst found
        exact ⟨_, rfl, rfl, fun used => by simp [used]⟩
      | succ i => exact ⟨r, found, rfl, id⟩
    · cases i with
      | zero => exact ⟨r, found, rfl, id⟩
      | succ i => exact ih i found

theorem addRuntime_packages (package : String) (isUsed : Bool) (list : List RuntimeImport) :
    (addRuntime package isUsed list).map (·.package) =
      if package ∈ list.map (·.package) then list.map (·.package) else list.map (·.package) ++ [package] := by
  induction list with
  | nil => simp [addRuntime]
  | cons first rest ih =>
    unfold addRuntime
    split
    · next same => simp_all
    · next other =>
      simp only [beq_iff_eq] at other
      rw [List.map_cons, ih]
      by_cases listed : package ∈ rest.map (·.package)
      · simp [listed]
      · simp [listed, Ne.symm other]

theorem nodup_addRuntime {package : String} {isUsed : Bool} {list : List RuntimeImport}
    (distinct : (list.map (·.package)).Nodup) : ((addRuntime package isUsed list).map (·.package)).Nodup := by
  rw [addRuntime_packages]
  split
  · exact distinct
  · next fresh => exact List.nodup_append.mpr ⟨distinct, by simp, by simp; grind⟩

theorem extends_addRuntime (d : Dependencies) (package : String) (isUsed : Bool) :
    d.Extends { d with runtime := addRuntime package isUsed d.runtime } where
  unit_eq := rfl
  recorded a := by cases a <;> exact List.prefix_rfl
  distinct a := by cases a <;> exact id
  runtime := addRuntime_keeps package isUsed d.runtime
  packages := nodup_addRuntime
  mentions := List.prefix_rfl

theorem extends_mention (d : Dependencies) (m : Mention) : d.Extends (d.mention m) :=
  { Extends.refl d with
    recorded := fun a => by cases a <;> exact List.prefix_rfl
    distinct := fun a => by cases a <;> exact id
    mentions := List.prefix_append _ _ }

theorem extends_record (d : Dependencies) (node : Nat) : d.Extends (d.record node) :=
  { Extends.refl d with
    recorded := fun a => by
      cases a with
      | declaration => exact prefix_appendNew _ _
      | marshalling => exact List.prefix_rfl
    distinct := fun a => by
      cases a with
      | declaration => exact nodup_appendNew
      | marshalling => exact id }

theorem extends_recordMarshal (d : Dependencies) (node : Nat) : d.Extends (d.recordMarshal node) :=
  { Extends.refl d with
    recorded := fun a => by
      cases a with
      | declaration => exact List.prefix_rfl
      | marshalling => exact prefix_appendNew _ _
    distinct := fun a => by
      cases a with
      | declaration => exact id
      | marshalling => exact nodup_appendNew }

theorem extends_recordPackage (d : Dependencies) (a : Aspect) (package : Nat) :
    d.Extends (a.recordPackage d package) := by
  cases a with
  | declaration => exact extends_record d package
  | marshalling => exact (extends_record d package).trans (extends_recordMarshal _ package)

end Dependencies

/-! ## Marks -/

/-- Every flag that `f` has set is set in `f'`. -/
instance : LE Flags where
  le f f' := f.defined ≤ f'.defined ∧ f.imported ≤ f'.imported ∧ f.marshalDefined ≤ f'.marshalDefined ∧
    f.marshalImported ≤ f'.marshalImported

namespace Flags

theorem le_rfl {f : Flags} : f ≤ f := ⟨Bool.le_refl _, Bool.le_refl _, Bool.le_refl _, Bool.le_refl _⟩

theorem le_trans {f f' f'' : Flags} (first : f ≤ f') (second : f' ≤ f'') : f ≤ f'' :=
  ⟨Bool.le_trans first.1 second.1, Bool.le_trans first.2.1 second.2.1, Bool.le_trans first.2.2.1 second.2.2.1,
    Bool.le_trans first.2.2.2 second.2.2.2⟩

end Flags

namespace Aspect

variable {p : Progress} {node n : Nat}

theorem flags_le_markDone (a : Aspect) : p.flags n ≤ (a.markDone p node).flags n := by
  cases a <;> simp +contextual [LE.le, Progress.flags, markDone, Progress.markDefined, Progress.markMarshalDefined]

theorem flags_le_markImported (a : Aspect) : p.flags n ≤ (a.markImported p node).flags n := by
  cases a <;> simp +contextual [LE.le, Progress.flags, markImported, Progress.markImported, Progress.markMarshalImported]

theorem isDone_markDone (a b : Aspect) :
    b.isDone (a.markDone p node) n = (b.isDone p n || decide (b = a ∧ n = node)) := by
  cases a <;> cases b <;> simp [isDone, markDone, Progress.isDefined, Progress.isMarshalDefined,
    Progress.markDefined, Progress.markMarshalDefined, Bool.or_comm]

theorem isDone_of_flags_le {p p' : Progress} {a : Aspect} (grows : p.flags n ≤ p'.flags n) (done : a.isDone p n = true) :
    a.isDone p' n = true := by
  cases a with
  | declaration => exact grows.1 done
  | marshalling => exact grows.2.2.1 done

end Aspect

/-! ## Sessions -/

/-- The session `s'` comes from `s` by calls for the same artifact. -/
structure Session.Advances (ctx : Context) (s s' : Session) : Prop where
  deps : s.deps.Extends s'.deps
  hoisted : s.hoisted <+: s'.hoisted
  flags : ∀ n, s.progress.flags n ≤ s'.progress.flags n
  busy_eq : s'.progress.busy = s.progress.busy
  sizing_eq : s'.sizes.busy = s.sizes.busy
  untouched : ∀ (a : Aspect) (n : Nat), n ∈ s.progress.busy → a.isDone s'.progress n = a.isDone s.progress n
  declared : ∃ new, s'.declared = s.declared ++ new ∧ new.Nodup ∧ ∀ n, n ∈ new ↔
    s'.progress.isDefined n = true ∧ s.progress.isDefined n = false ∧ Emit.awaitsMarshalling ctx .declaration n = true

namespace Session.Advances

variable {ctx : Context} {s s' s'' : Session}

/-- The form for what marks nothing as written. -/
theorem of_still (deps : s.deps.Extends s'.deps) (hoisted : s.hoisted <+: s'.hoisted)
    (flags : ∀ n, s.progress.flags n ≤ s'.progress.flags n) (busy_eq : s'.progress.busy = s.progress.busy)
    (sizing_eq : s'.sizes.busy = s.sizes.busy) (still : ∀ (a : Aspect) (n : Nat), a.isDone s'.progress n = a.isDone s.progress n)
    (declared : s'.declared = s.declared) : s.Advances ctx s' := by
  refine ⟨deps, hoisted, flags, busy_eq, sizing_eq, fun a n _ => still a n, [], by simpa using declared, by simp, ?_⟩
  intro n
  have same : s'.progress.isDefined n = s.progress.isDefined n := still .declaration n
  simp +contextual [same]

theorem refl (s : Session) : s.Advances ctx s :=
  of_still (.refl _) List.prefix_rfl (fun _ => Flags.le_rfl) rfl rfl (fun _ _ => rfl) rfl

theorem trans (first : s.Advances ctx s') (second : s'.Advances ctx s'') : s.Advances ctx s'' where
  deps := first.deps.trans second.deps
  hoisted := first.hoisted.trans second.hoisted
  flags n := Flags.le_trans (first.flags n) (second.flags n)
  busy_eq := second.busy_eq.trans first.busy_eq
  sizing_eq := second.sizing_eq.trans first.sizing_eq
  untouched a n busy :=
    (second.untouched a n (first.busy_eq ▸ busy)).trans (first.untouched a n busy)
  declared := by
    obtain ⟨early, list, distinct, mem_early⟩ := first.declared
    obtain ⟨late, list', distinct', mem_late⟩ := second.declared
    have grows (n : Nat) : s.progress.isDefined n = true → s'.progress.isDefined n = true := (first.flags n).1
    have grows' (n : Nat) : s'.progress.isDefined n = true → s''.progress.isDefined n = true := (second.flags n).1
    refine ⟨early ++ late, by rw [list', list, List.append_assoc], ?_, fun n => ?_⟩
    · refine List.nodup_append.mpr ⟨distinct, distinct', ?_⟩
      rintro n listed _ again rfl
      simp_all
    · rw [List.mem_append, mem_early, mem_late]
      grind

theorem leave {node : Nat} (idle : node ∉ s.progress.busy)
    (inside : Advances ctx { s with progress := s.progress.enter node } s') :
    s.Advances ctx { s' with progress := s'.progress.leave node } where
  deps := inside.deps
  hoisted := inside.hoisted
  flags := inside.flags
  busy_eq := by
    have entered : s'.progress.busy = node :: s.progress.busy := inside.busy_eq.trans (List.insert_of_not_mem idle)
    simp [Progress.leave, entered]
  sizing_eq := inside.sizing_eq
  untouched a n busy := inside.untouched a n (List.mem_insert_of_mem busy)
  declared := inside.declared

/-- A node under way has not been marked when it is left. -/
theorem undone {a : Aspect} {node : Nat} (inside : Advances ctx { s with progress := s.progress.enter node } s')
    (undone : a.isDone s.progress node = false) : a.isDone s'.progress node = false :=
  (inside.untouched a node List.mem_insert_self).trans undone

theorem mark {a : Aspect} {node : Nat} (idle : node ∉ s.progress.busy) (undone : a.isDone s.progress node = false) :
    s.Advances ctx { s with
      progress := a.markDone s.progress node,
      declared := s.declared ++ if Emit.awaitsMarshalling ctx a node then [node] else [] } where
  deps := .refl _
  hoisted := List.prefix_rfl
  flags _ := a.flags_le_markDone
  busy_eq := by cases a <;> rfl
  sizing_eq := rfl
  untouched b n busy := by
    have apart : n ≠ node := fun same => idle (same ▸ busy)
    simp [Aspect.isDone_markDone, apart]
  declared := by
    refine ⟨_, rfl, by split <;> simp, fun n => ?_⟩
    have marked : (a.markDone s.progress node).isDefined n =
        (s.progress.isDefined n || decide (Aspect.declaration = a ∧ n = node)) := a.isDone_markDone .declaration
    rw [marked]
    cases a with
    | declaration =>
      have undone : s.progress.isDefined node = false := undone
      by_cases same : n = node
      · simp [same, undone]
      · simp +contextual [same]
    | marshalling => simp +contextual [Emit.awaitsMarshalling]

end Session.Advances

namespace Emit

abbrev advancing (ctx : Context) : Conduct Session := .along (Session.Advances ctx)

variable {ctx : Context}

theorem advancing_lawful : (advancing ctx).Lawful := Conduct.along_lawful .refl .trans

theorem withNames_final {α : Type} (act : NameTable.Lookup α) (s : Session) :
    (withNames act).final s = { s with names := act.final s.names } := by
  simp only [final, withNames]
  cases act s.names <;> rfl

theorem withSizes_final {α : Type} (act : SizeTable.Sizing α) (s : Session) :
    (withSizes act).final s = { s with sizes := act.final s.sizes } := by
  simp only [final, withSizes]
  cases act s.sizes <;> rfl

theorem withNames_advances {α : Type} (act : NameTable.Lookup α) : (withNames act).Follows (advancing ctx) [] := by
  refine follows_along_iff.mpr fun s => ?_
  rw [withNames_final]
  exact .of_still (.refl _) List.prefix_rfl (fun _ => Flags.le_rfl) rfl rfl (fun _ _ => rfl) rfl

theorem isFixedSize_advances (node : Nat) : (isFixedSize ctx node).Follows (advancing ctx) [] := by
  refine follows_along_iff.mpr fun s => ?_
  have kept := SizeTable.isFixedWithin_busy (t := ctx.tree) (ctx.tree.size + 1) node s.sizes
  rw [isFixedSize, withSizes_final]
  exact .of_still (.refl _) List.prefix_rfl (fun _ => Flags.le_rfl) rfl kept (fun _ _ => rfl) rfl

theorem updateDeps_advances {f : Dependencies → Dependencies} (grows : ∀ d : Dependencies, d.Extends (f d)) :
    (updateDeps f).Follows (advancing ctx) [] :=
  .modify fun {s} _ => ⟨trivial,
    .of_still (grows s.deps) List.prefix_rfl (fun _ => Flags.le_rfl) rfl rfl (fun _ _ => rfl) rfl⟩

theorem hoist_advances (items : List Item) : (hoist items).Follows (advancing ctx) [] :=
  .modify fun _ => ⟨trivial,
    .of_still (.refl _) (List.prefix_append _ _) (fun _ => Flags.le_rfl) rfl rfl (fun _ _ => rfl) rfl⟩

theorem markImported_advances (a : Aspect) (node : Nat) :
    (updateProgress (a.markImported · node)).Follows (advancing ctx) [] :=
  .modify fun _ => ⟨trivial, .of_still (.refl _) List.prefix_rfl (fun _ => a.flags_le_markImported)
    (by cases a <;> rfl) rfl (fun b _ => by cases a <;> cases b <;> rfl) rfl⟩

variable (wf : ctx.tree.WellFormed)
include wf

theorem advancing_notes : Notes ctx (advancing ctx) where
  lawful := advancing_lawful
  wellFormed := wf
  localNames _ := withNames_advances _
  fullNames _ := withNames_advances _
  requires package := updateDeps_advances fun d => d.extends_addRuntime package false
  uses package := updateDeps_advances fun d => d.extends_addRuntime package true
  records a _ := updateDeps_advances fun d => d.extends_recordPackage a _
  mentions _ _ := updateDeps_advances fun d => d.extends_mention _
  marks := markImported_advances
  units _ := .inr fun _ => trivial

theorem advancing_allows : Allows ctx (advancing ctx) := by
  apply (advancing_notes wf).allows
  case sizes => exact fun _ => isFixedSize_advances _
  case enumerators => exact fun _ _ => .inr fun _ => trivial
  case bases => exact fun _ _ _ => ⟨updateDeps_advances fun d => d.extends_record _, withNames_advances _⟩
  case bounds => exact fun _ _ => trivial

/-- The step: a node that is not under way is marked as written once that has been done, and at no other time. -/
theorem produce_advances {a : Aspect} {resolve : Nat → Emit String} {node : Nat}
    (refs : ∀ r, (resolve r).Follows (advancing ctx) []) : (produce ctx a resolve node).Follows (advancing ctx) [] := by
  have item : (a.item ctx resolve node).Follows (advancing ctx) _ :=
    item_follows (advancing_allows wf) (.inr fun _ => trivial) trivial fun r _ => (refs r).settle fun _ _ => trivial
  refine follows_along_iff.mpr fun s => ?_
  have moved := follows_along_iff.mp item { s with progress := s.progress.enter node }
  unfold final at moved ⊢
  rw [produce_run]
  by_cases early : (a.isDone s.progress node || s.progress.isBusy node) = true
  · rw [if_pos early]
    exact .refl s
  · rw [if_neg early]
    simp only [Bool.or_eq_true, not_or, Bool.not_eq_true, isBusy_eq_false] at early
    obtain ⟨undone, idle⟩ := early
    cases run : a.item ctx resolve node { s with progress := s.progress.enter node } with
    | error fault inner =>
      rw [run] at moved
      exact moved.leave idle
    | ok items inner =>
      rw [run] at moved
      have left := moved.leave idle
      exact left.trans (.mark (left.busy_eq ▸ idle) (moved.undone undone))

theorem nameWithin_advances (a : Aspect) (depth node : Nat) :
    (nameWithin ctx a depth node).Follows (advancing ctx) [] := by
  induction depth generalizing node with
  | zero => exact .throw advancing_lawful trivial
  | succ depth ih =>
    apply refer_follows (advancing_notes wf) (advancing_allows wf)
    · exact expectType_follows advancing_lawful (.inr fun _ => trivial) fun _ _ => trivial
    · intro _ s seen _ _
      exact place_follows advancing_lawful hoist_advances (produce_advances wf ih)

theorem perform_advances {call : Call} (keeps : call ≠ .takeDeclared) (s : Session) :
    s.Advances ctx ((call.perform ctx).final s) := by
  have follows : (call.perform ctx).Follows (advancing ctx) [] := by
    apply perform_follows (advancing_allows wf) (fun _ => trivial)
    · exact fun a node => (nameWithin_advances wf a _ node).settle fun _ _ => trivial
    · exact fun a node => produce_advances wf fun r => nameWithin_advances wf a _ r
    · exact isFixedSize_advances
    · exact fun taken => absurd taken keeps
  exact follows_along_iff.mp follows s

end Emit

end AdaStubs
