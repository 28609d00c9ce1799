import AdaStubs.Proofs.Generation.Standing

/-!
# Single emission

Where the parts of a declaration stand in the output of a generation. Every declaration with a name is
declared once, in the specification of its package, and an anonymous type at most once; a type that is
declared has its marshalling profiles and bodies once, in the marshalling package that belongs to it.

Main statement: `declared_and_marshalled_once`.
-/

namespace AdaStubs

open Ada Run

namespace Emit

open Dependencies

variable {ctx : Context} {unit : Nat} {τ : Trace}

/-! ## Units -/

theorem Resting.declare {allowed : Nat → Prop} {new : List Nat} {τ' : Trace} (resting : Resting ctx τ)
    (written : Written ctx .declaration unit allowed new τ τ') : Resting ctx { τ' with declared := [] } := by
  have idle : τ'.busy = [] := written.busy_eq.trans resting.idle
  refine ⟨idle, rfl, ?_, ?_⟩
  · show (Aspect.declaration.done τ').Nodup
    rw [written.done_eq]
    refine List.nodup_append.mpr ⟨List.pairwise_reverse.mpr (written.distinct.imp Ne.symm),
      resting.distinct, ?_⟩
    rintro n listed _ earlier rfl
    exact (written.fresh n (List.mem_reverse.mp listed)).1 earlier
  · intro n defined r refers isLocal
    apply written.mem_done.mpr
    rcases written.mem_done.mp defined with listed | earlier
    · rw [(written.owned n listed).1.2] at isLocal
      have settled := written.closed n listed r refers isLocal
      rw [idle, written.mem_done] at settled
      simpa using settled
    · exact .inr (resting.closed n earlier r refers isLocal)

theorem Written.types_eq {allowed : Nat → Prop} {new : List Nat} {τ' : Trace}
    (written : Written ctx .declaration unit allowed new τ τ') :
    new.filter (awaitsMarshalling ctx .declaration) = new.filter (ctx.tree.hasKind Kind.isType) := by
  apply List.filter_congr
  intro n listed
  obtain ⟨present, found, writes⟩ := Tree.exists_of_hasKind (written.owned n listed).1.1
  rw [awaitsMarshalling, Tree.hasKind_eq found, Tree.hasKind_eq found]
  cases shape : present.kind <;> simp_all [Aspect.writes, Kind.isPrimitive]

theorem owns_marshalling_of_type {node : Nat} (owns : ctx.tree.Owns unit .declaration node)
    (isType : ctx.tree.hasKind Kind.isType node = true) : ctx.tree.Owns unit .marshalling node := by
  obtain ⟨writes, home⟩ := owns
  obtain ⟨present, found, kind⟩ := Tree.exists_of_hasKind isType
  rw [Tree.hasKind_eq found, Aspect.writes_of_type kind] at writes
  refine ⟨?_, home⟩
  rw [Tree.hasKind_eq found, Aspect.writes_of_type kind, writes]

section Levels

variable {allowed : Nat → Prop} {new : List Nat} {τ' : Trace} (level : Level ctx τ)
  (written : Written ctx .declaration unit allowed new τ τ')
include level written

theorem Level.fresh : ∀ n ∈ new.filter (ctx.tree.hasKind Kind.isType),
    n ∈ τ'.defined ∧ ctx.tree.Owns unit .marshalling n ∧ n ∉ τ'.marshalDefined := by
  intro n listed
  obtain ⟨declared, isType⟩ := List.mem_filter.mp listed
  refine ⟨written.mem_done.mpr (.inl declared), ?_, ?_⟩
  · exact owns_marshalling_of_type (written.owned n declared).1 isType
  · rw [show τ'.marshalDefined = τ.marshalDefined from written.other_eq, level.marshalled]
    exact fun earlier => (written.fresh n declared).1 earlier.1

theorem Level.marshalled_iff (n : Nat) : n ∈ τ'.defined ∧ ctx.tree.hasKind Kind.isType n = true ↔
    n ∈ new.filter (ctx.tree.hasKind Kind.isType) ∨ n ∈ τ'.marshalDefined := by
  have defined : n ∈ τ'.defined ↔ n ∈ new ∨ n ∈ τ.defined := written.mem_done
  rw [show τ'.marshalDefined = τ.marshalDefined from written.other_eq, level.marshalled, defined,
    List.mem_filter, or_and_right]

end Levels

end Emit

open Emit

/-- The output has the parts of `new`, each where it belongs and as often as it is listed. -/
structure Emits (ctx : Context) (outputs : List UnitOutput) (new : List Nat) : Prop where
  declarations : ∀ n, sites outputs .declaration n =
    List.replicate (new.count n) (ctx.tree.packageOf n, .spec)
  profiles : ∀ n, sites outputs .profiles n =
    List.replicate ((new.filter (ctx.tree.hasKind Kind.isType)).count n) (ctx.tree.packageOf n, .marshalSpec)
  codecs : ∀ n, sites outputs .codec n =
    List.replicate ((new.filter (ctx.tree.hasKind Kind.isType)).count n) (ctx.tree.packageOf n, .marshalBody)

theorem sites_append (outputs others : List UnitOutput) (part : Part) (node : Nat) :
    sites (outputs ++ others) part node = sites outputs part node ++ sites others part node :=
  List.flatMap_append

theorem Emits.append {ctx : Context} {outputs others : List UnitOutput} {new more : List Nat}
    (first : Emits ctx outputs new) (second : Emits ctx others more) :
    Emits ctx (outputs ++ others) (new ++ more) := by
  constructor <;> intro n
  · rw [sites_append, first.declarations, second.declarations, List.replicate_append_replicate,
      List.count_append]
  · rw [sites_append, first.profiles, second.profiles, List.replicate_append_replicate, List.filter_append,
      List.count_append]
  · rw [sites_append, first.codecs, second.codecs, List.replicate_append_replicate, List.filter_append,
      List.count_append]

theorem count_map_part (part other : Part) (node : Nat) (nodes : List Nat) :
    (nodes.map fun n => (part, n)).count (other, node) = if part = other then nodes.count node else 0 := by
  induction nodes with
  | nil => simp
  | cons n nodes ih =>
    by_cases same : part = other
    · subst same
      rw [if_pos rfl] at ih ⊢
      simp [List.count_cons, ih]
    · rw [if_neg same] at ih ⊢
      simp [ih, same]

theorem replicate_home {t : Tree} {unit : Nat} {nodes : List Nat}
    (home : ∀ n ∈ nodes, t.packageOf n = unit) (node : Nat) (kind : ArtifactKind) :
    List.replicate (nodes.count node) (unit, kind) =
      List.replicate (nodes.count node) (t.packageOf node, kind) := by
  by_cases listed : node ∈ nodes
  · rw [home node listed]
  · rw [List.count_eq_zero.mpr listed]
    rfl

theorem Emits.of_standing {ctx : Context} {output : UnitOutput} {new : List Nat}
    (home : ∀ n ∈ new, ctx.tree.packageOf n = output.node)
    (standing_eq : ∀ part, standing output.node output.artifacts part =
      List.replicate ((new.map fun n => (Part.declaration, n)).count part) (output.node, .spec) ++
      (List.replicate (((new.filter (ctx.tree.hasKind Kind.isType)).map fun n => (Part.profiles, n)).count part)
        (output.node, .marshalSpec) ++
      List.replicate (((new.filter (ctx.tree.hasKind Kind.isType)).map fun n => (Part.codec, n)).count part)
        (output.node, .marshalBody))) : Emits ctx [output] new := by
  have homeTypes : ∀ n ∈ new.filter (ctx.tree.hasKind Kind.isType), ctx.tree.packageOf n = output.node :=
    fun n listed => home n (List.mem_filter.mp listed).1
  constructor <;> intro n <;>
    simp [sites, standing_eq, count_map_part, replicate_home home, replicate_home homeTypes]

theorem generateUnit_emits {ctx : Context} (regular : Regular ctx) {unit : Nat}
    (isUnit : ctx.tree.hasKind Kind.isUnit unit = true) {s s' : Session} (level : Level ctx s.trace.cleared)
    {output : UnitOutput} (done : generateUnit ctx unit s = .ok output s') :
    ∃ new, s'.trace.cleared.defined = new.reverse ++ s.trace.cleared.defined ∧ Level ctx s'.trace.cleared ∧
      Complete ctx unit s'.trace.cleared ∧ Emits ctx [output] new := by
  obtain ⟨named, specs, declared, specified, bodies, bodied, codecs, coded, others, naming, first, second, third,
    fourth, rfl, together⟩ := generateUnit_ok done
  obtain ⟨names, renamed⟩ := withNames_run naming
  have same : named.trace = s.trace := by rw [renamed]; rfl
  rw [← same] at level ⊢
  obtain ⟨new, filled, written, complete, rfl, specifiedAt, specStanding⟩ :=
    specification_emits regular isUnit level.idle first
  have specifiedAt : specified.trace.cleared = { filled with declared := [] }.cleared := by rw [specifiedAt]
  -- From here to the end of the unit nothing more is declared: every stage starts from this trace.
  have declares := level.toResting.declare written
  have resting : Resting ctx { filled with declared := [] }.cleared :=
    ⟨declares.idle, declares.taken, declares.distinct, declares.closed⟩
  have types : filled.declared = new.filter (ctx.tree.hasKind Kind.isType) := by
    rw [written.declared_eq, level.taken, written.types_eq]
    rfl
  rw [types] at third
  obtain ⟨bodySilent, bodiedAt⟩ := packageBody_silent regular isUnit resting complete specifiedAt second
  have distinct : (new.filter (ctx.tree.hasKind Kind.isType)).Nodup := written.distinct.filter _
  have fresh : ∀ n ∈ new.filter (ctx.tree.hasKind Kind.isType), n ∈ filled.defined ∧
      ctx.tree.Owns output.node .marshalling n ∧ n ∉ filled.marshalDefined := level.fresh written
  obtain ⟨⟨marshalled, codedAt, mem_marshalled⟩, codecStanding⟩ :=
    marshalling_emits regular resting distinct fresh
      (fun n defined isType => (level.marshalled_iff written n).mp ⟨defined, isType⟩) bodiedAt third
  have levelLast : Level ctx { filled with declared := [], marshalDefined := marshalled, parts := [] } :=
    ⟨⟨resting.idle, rfl, resting.distinct, resting.closed⟩,
      fun n => (mem_marshalled n).trans (level.marshalled_iff written n).symm⟩
  have completeLast : Complete ctx output.node
      { filled with declared := [], marshalDefined := marshalled, parts := [] } := complete
  obtain ⟨childSilent, lastAt⟩ := children_silent regular isUnit completeLast levelLast codedAt fourth
  rw [lastAt]
  refine ⟨new, written.done_eq, levelLast, completeLast, ?_⟩
  refine Emits.of_standing (fun n listed => (written.owned n listed).1.2) fun part => ?_
  rw [together, standing_append, standing_append, standing_append, specStanding, bodySilent, codecStanding,
    childSilent, List.append_nil, List.append_nil]

/-! ## Generations -/

theorem mapM_generateUnit_emits {ctx : Context} (regular : Regular ctx) {units : List Nat}
    (areUnits : ∀ u ∈ units, ctx.tree.hasKind Kind.isUnit u = true) {s s' : Session}
    (level : Level ctx s.trace.cleared) {outputs : List UnitOutput}
    (done : units.mapM (generateUnit ctx) s = .ok outputs s') :
    ∃ new, s'.trace.cleared.defined = new.reverse ++ s.trace.cleared.defined ∧ Level ctx s'.trace.cleared ∧
      (∀ u ∈ units, Complete ctx u s'.trace.cleared) ∧ Emits ctx outputs new := by
  induction units generalizing s outputs with
  | nil =>
    rw [List.mapM_nil] at done
    cases done
    refine ⟨[], rfl, level, fun u listed => absurd listed List.not_mem_nil, ?_⟩
    constructor <;> intro n <;> rfl
  | cons unit units ih =>
    rw [List.mapM_cons] at done
    obtain ⟨output, middle, first, rest⟩ := bind_eq_ok.mp done
    obtain ⟨others, last, later, returned⟩ := bind_eq_ok.mp rest
    cases returned
    obtain ⟨new, defined, levelMiddle, complete, emits⟩ :=
      generateUnit_emits regular (areUnits unit List.mem_cons_self) level first
    obtain ⟨more, definedLast, levelLast, completeLast, emitsLast⟩ :=
      ih (fun u listed => areUnits u (List.mem_cons_of_mem _ listed)) levelMiddle later
    refine ⟨new ++ more, ?_, levelLast, ?_, emits.append emitsLast⟩
    · rw [definedLast, defined, List.reverse_append, List.append_assoc]
    · intro u listed
      rcases List.mem_cons.mp listed with rfl | further
      · intro n declared home
        rw [definedLast]
        exact List.mem_append_right _ (complete n declared home)
      · exact completeLast u further

theorem generate_emits {ctx : Context} (regular : Regular ctx) {outputs : List UnitOutput}
    (done : generate ctx = .ok outputs) :
    ∃ new : List Nat, new.Nodup ∧ (∀ n, ctx.tree.hasKind Kind.isDeclared n = true → n ∈ new) ∧
      Emits ctx outputs new := by
  have wf := regular.wellFormed
  obtain ⟨all, last, each, rfl⟩ := generate_ok done
  have start : Level ctx Session.start.trace.cleared :=
    ⟨⟨rfl, rfl, List.nodup_nil, fun n defined => absurd defined List.not_mem_nil⟩,
      fun n => ⟨fun listed => absurd listed List.not_mem_nil, fun found => absurd found.1 List.not_mem_nil⟩⟩
  have areUnits : ∀ u ∈ ctx.tree.units Tree.root, ctx.tree.hasKind Kind.isUnit u = true :=
    fun u listed => Tree.isUnit_of_mem_units wf.isUnit_root listed
  obtain ⟨new, defined, level, complete, emits⟩ := mapM_generateUnit_emits regular areUnits start each
  have defined : last.trace.cleared.defined = new.reverse := defined.trans (List.append_nil _)
  refine ⟨new, ?_, ?_, ?_⟩
  · have distinct := level.distinct
    rw [defined] at distinct
    exact (List.pairwise_reverse.mp distinct).imp Ne.symm
  · intro n declared
    have listed := complete _ (wf.mem_units (wf.isUnit_packageOf n)) n declared rfl
    rwa [defined, List.mem_reverse] at listed
  · constructor <;> intro n <;> rw [sites_filter]
    · exact emits.declarations n
    · exact emits.profiles n
    · exact emits.codecs n

theorem replicate_count {α : Type} {nodes : List Nat} (distinct : nodes.Nodup) (node : Nat) (x : α) :
    List.replicate (nodes.count node) x = if node ∈ nodes then [x] else [] := by
  split
  · next listed => rw [distinct.count, if_pos listed]; rfl
  · next absent => rw [List.count_eq_zero.mpr absent]; rfl

/-- A structure that holds a sequence of itself and an enumeration, and an operation that gives it. -/
def recursiveStruct : List Step :=
  [.module 0 "M", .struct 1 "Tree", .enum 2 "Colour" ["red"], .field 2 "colour" 3, .sequence 2 2 none,
    .field 2 "children" 6, .interface 1 "Base" [], .interface 1 "Forest" [8], .operation 9 "first" (some 2) false []]

end AdaStubs
