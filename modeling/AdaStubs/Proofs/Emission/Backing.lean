import AdaStubs.Proofs.Emission.External

/-!
# What is named in full is recorded

Whatever an artifact names in full has an entry among its dependencies: the package of the declaration, or a
scope on the way to it. Nothing that is written for a declaration breaks this.
-/

namespace AdaStubs

open Ada Run

namespace Dependencies

structure Backed (t : Tree) (unit : Nat) (d : Dependencies) : Prop where
  unit_eq : d.unit = unit
  together : ∀ {e}, e ∈ d.marshalImports → e ∈ d.imports
  types : ∀ {m kind}, m ∈ d.mentions → t.kind? m.node = some kind → kind.isRuntime = false →
    Reaches t unit d.imports m.node
  codecs : ∀ {m kind}, m ∈ d.mentions → m.forMarshalling = true → t.kind? m.node = some kind →
    kind.isRuntime = false → Reaches t unit d.marshalImports m.node

namespace Backed

variable {t : Tree} {unit node : Nat} {d : Dependencies}

theorem record (backed : Backed t unit d) (node : Nat) : Backed t unit (d.record node) := by
  have grows : ∀ e ∈ d.imports, e ∈ (d.record node).imports := fun e listed => mem_appendNew.mpr (.inl listed)
  constructor
  · exact backed.unit_eq
  · intro e listed
    exact grows e (backed.together listed)
  · intro m kind listed found ordinary
    exact (backed.types listed found ordinary).mono grows
  · exact backed.codecs

theorem recordPackage (backed : Backed t unit d) (a : Aspect) (package : Nat) :
    Backed t unit (a.recordPackage d package) := by
  cases a with
  | declaration => exact backed.record package
  | marshalling =>
    have recorded := backed.record package
    have grows : ∀ e ∈ d.marshalImports, e ∈ appendNew d.marshalImports package :=
      fun e listed => mem_appendNew.mpr (.inl listed)
    constructor
    · exact recorded.unit_eq
    · intro e listed
      rcases mem_appendNew.mp listed with earlier | rfl
      · exact recorded.together earlier
      · exact mem_appendNew.mpr (.inr rfl)
    · exact recorded.types
    · intro m kind listed marshalled found ordinary
      exact (recorded.codecs listed marshalled found ordinary).mono grows

theorem setRuntime (backed : Backed t unit d) (packages : List RuntimeImport) :
    Backed t unit { d with runtime := packages } :=
  ⟨backed.unit_eq, backed.together, backed.types, backed.codecs⟩

theorem mention (backed : Backed t unit d) {a : Aspect}
    (reaches : ∀ {kind}, t.kind? node = some kind → kind.isRuntime = false →
      Reaches t unit (a.recorded d) node) :
    Backed t unit (d.mention ⟨node, decide (a = .marshalling)⟩) := by
  have listed_cases : ∀ {m}, m ∈ (d.mention ⟨node, decide (a = .marshalling)⟩).mentions →
      m ∈ d.mentions ∨ m = ⟨node, decide (a = .marshalling)⟩ := by
    intro m listed
    simpa [Dependencies.mention] using listed
  constructor
  · exact backed.unit_eq
  · exact backed.together
  · intro m kind listed found ordinary
    rcases listed_cases listed with earlier | rfl
    · exact backed.types earlier found ordinary
    · have reached := reaches found ordinary
      cases a with
      | declaration => exact reached
      | marshalling => exact reached.mono fun e listed => backed.together listed
  · intro m kind listed marshalled found ordinary
    rcases listed_cases listed with earlier | rfl
    · exact backed.codecs earlier marshalled found ordinary
    · have reached := reaches found ordinary
      cases a with
      | declaration => simp at marshalled
      | marshalling => exact reached

end Backed

end Dependencies

namespace Emit

open Dependencies

variable {ctx : Context} {a : Aspect} {unit node : Nat} {s s' : Session} {outside : Bool}

theorem Sighting.backed (sighting : Sighting ctx a node s outside s') (backed : Backed ctx.tree unit s.deps) :
    Backed ctx.tree unit s'.deps ∧ (outside = true → ∀ {kind}, ctx.tree.kind? node = some kind →
      kind.isRuntime = false → Reaches ctx.tree unit (a.recorded s'.deps) node) := by
  have unit_eq := backed.unit_eq
  cases sighting with
  | runtime found isRuntime packages =>
    refine ⟨backed.setRuntime packages, ?_⟩
    intro _ kind again ordinary
    cases found.symm.trans again
    exact absurd isRuntime (by simp [ordinary])
  | reached found ordinary reaches =>
    rw [unit_eq] at reaches
    exact ⟨backed, fun _ _ _ _ => reaches⟩
  | own found ordinary unreached home => exact ⟨backed, fun outside => absurd outside (by simp)⟩
  | recorded found ordinary unreached away =>
    refine ⟨backed.recordPackage a _, fun _ _ _ _ => .inl ⟨unit_eq ▸ away, ?_⟩⟩
    cases a <;> exact mem_appendNew.mpr (.inr rfl)

theorem Sighting.names (sighting : Sighting ctx a node s outside s') : s'.names = s.names := by
  cases sighting <;> rfl

/-- Names are asked for between calls, and what is named in full is recorded. -/
structure Sound (ctx : Context) (unit : Nat) (s : Session) : Prop where
  rests : NameTable.Rests ctx s.names
  backed : Backed ctx.tree unit s.deps

abbrev soundly (ctx : Context) (unit : Nat) : Conduct Session := .keeping (Sound ctx unit)

theorem soundly_of_names {act : NameTable.Lookup String} {result : Except Fault String}
    (answers : NameTable.Answers ctx act result) : (withNames act).Follows (soundly ctx unit) [] := by
  apply Follows.keeping
  intro s name s' sound done
  obtain ⟨-, names, rests, rfl⟩ := withNames_answers answers sound.rests done
  exact ⟨rests, sound.backed⟩

theorem soundly_of_runtime (package : String) (isUsed : Bool) :
    (updateDeps fun d => { d with runtime := addRuntime package isUsed d.runtime }).Follows
      (soundly ctx unit) [] := by
  apply Follows.keeping
  intro s _ s' sound done
  cases done
  exact ⟨sound.rests, sound.backed.setRuntime _⟩

theorem soundly_allows (wf : ctx.tree.WellFormed) : Allows ctx (soundly ctx unit) := by
  have fullNames : ∀ node, (fullName ctx node).Follows (soundly ctx unit) [] :=
    fun node => soundly_of_names (NameTable.fullName_run wf node)
  have localNames : ∀ node, (localName ctx node).Follows (soundly ctx unit) [] :=
    fun node => soundly_of_names (NameTable.localName_run wf node)
  constructor
  case lawful => exact Conduct.keeping_lawful _
  case wellFormed => exact wf
  case localNames => exact fun _ => localNames _
  case fullNames => exact fun _ => fullNames _
  case requires => exact fun package => soundly_of_runtime package false
  case uses => exact fun package => soundly_of_runtime package true
  case bounds => exact fun _ _ => trivial
  case sizes =>
    intro node dims element found
    apply Follows.keeping
    intro s fixed s' sound done
    obtain ⟨sizes, rfl⟩ := isFixedSize_run done
    exact ⟨sound.rests, sound.backed⟩
  case enumerators =>
    intro node kind e found listed
    apply Follows.keeping
    intro s name s' sound done
    obtain ⟨outside, seen, sighting, rest⟩ := enumeratorName_run done
    obtain ⟨backed, reaches⟩ := sighting.backed sound.backed
    have seenSound : Sound ctx unit seen := ⟨sighting.names ▸ sound.rests, backed⟩
    rcases rest with ⟨-, short⟩ | ⟨rfl, named, full, rfl⟩
    · exact ((localNames e).ok seenSound short).1
    · obtain ⟨-, names, rests, rfl⟩ :=
        withNames_answers (NameTable.fullName_run wf e) seenSound.rests full
      exact ⟨rests, backed.mention (a := .declaration) (reaches rfl)⟩
  case bases =>
    intro node kind base _ found first
    refine ⟨?_, fullNames base⟩
    apply Follows.keeping
    intro s _ s' sound done
    cases done
    exact ⟨sound.rests, sound.backed.record base⟩

/-! ## References -/

theorem place_soundly {act : Emit (List Item)} {nodes : List Nat}
    (follows : act.Follows (soundly ctx unit) nodes) : (place act).Follows (soundly ctx unit) [] := by
  apply Follows.keeping
  intro s _ s' sound done
  obtain ⟨items, written, run, rfl⟩ := place_ok done
  have kept := (follows.ok sound run).1
  exact ⟨kept.rests, kept.backed⟩

theorem produce_soundly (wf : ctx.tree.WellFormed) {resolve : Nat → Emit String}
    (refs : ∀ r, (resolve r).Follows (soundly ctx unit) [r]) (a : Aspect) (node : Nat) :
    (produce ctx a resolve node).Follows (soundly ctx unit) [] := by
  have allows : Allows ctx (soundly ctx unit) := soundly_allows wf
  have item : (a.item ctx resolve node).Follows (soundly ctx unit) _ :=
    item_follows allows fits_keeping trivial fun r _ => refs r
  apply Follows.keeping
  intro s items s' sound done
  rcases produce_ok done with ⟨-, -, rfl⟩ | ⟨-, -, inner, run, rfl⟩
  · exact sound
  · have entered : Sound ctx unit { s with progress := s.progress.enter node } := ⟨sound.rests, sound.backed⟩
    have kept := (item.ok entered run).1
    exact ⟨kept.rests, kept.backed⟩

theorem nameWithin_soundly (wf : ctx.tree.WellFormed) (a : Aspect) (depth node : Nat) :
    (nameWithin ctx a depth node).Follows (soundly ctx unit) [node] := by
  induction depth generalizing node with
  | zero => exact .throw (Conduct.keeping_lawful _) trivial
  | succ depth ih =>
    have allows : Allows ctx (soundly ctx unit) := soundly_allows wf
    apply Follows.keeping
    intro s name s' sound done
    unfold nameWithin refer at done
    obtain ⟨_, start, typed, rest⟩ := bind_eq_ok.mp done
    obtain ⟨rfl, isType⟩ := expectType_run typed
    obtain ⟨present, found, -⟩ := Tree.exists_of_hasKind isType
    have names := typeName_follows allows (Tree.kind?_eq found)
    obtain ⟨outside, seen, decided, last⟩ := bind_eq_ok.mp rest
    have sighting := isExternal_sighting decided
    obtain ⟨backed, reaches⟩ := sighting.backed sound.backed
    have seenSound : Sound ctx unit seen := ⟨sighting.names ▸ sound.rests, backed⟩
    cases outside with
    | true =>
      unfold externalName at last
      obtain ⟨_, marked, first, naming⟩ := bind_eq_ok.mp last
      cases first
      obtain ⟨full, named, second, mentioned⟩ := bind_eq_ok.mp naming
      have markedSound : Sound ctx unit { seen with progress := a.markImported seen.progress node } :=
        ⟨seenSound.rests, backed⟩
      have kept := ((names true).ok markedSound second).1
      obtain ⟨table, rfl⟩ := typeName_run second
      cases mentioned
      exact ⟨kept.rests, backed.mention (reaches rfl)⟩
    | false =>
      obtain ⟨_, placed, written, naming⟩ := bind_eq_ok.mp last
      have placedSound := ((place_soundly (produce_soundly wf ih a node)).ok seenSound written).1
      exact ((names false).ok placedSound naming).1

end Emit

end AdaStubs
