import AdaStubs.Proofs.Ada.Letters
import AdaStubs.Proofs.Naming.Queries

/-!
# Words in a namespace

Whether a word is given out in a namespace is seen from the declarations alone, if it has no underscore: no number is
added to come to it, so it goes to the first declaration that is called so. Names that are listed in order are spelled
apart from each other and from the seeds.
-/

namespace AdaStubs

namespace Ada

theorem underscore_mem_fold_iff {s : String} : '_' ∈ (fold s).toList ↔ '_' ∈ s.toList :=
  mark_mem_fold_iff (by decide)

theorem underscore_mem_squeeze {text : List Char} (listed : '_' ∈ text) : '_' ∈ squeeze text := by
  induction text with
  | nil => exact listed
  | cons c rest ih =>
    rw [squeeze]
    split
    · next doubled =>
      rw [Bool.and_eq_true, beq_iff_eq, beq_iff_eq] at doubled
      exact ih (List.mem_of_mem_head? doubled.2)
    · rcases List.mem_cons.mp listed with rfl | later
      · exact List.mem_cons_self
      · exact List.mem_cons_of_mem _ (ih later)

theorem squeeze_of_not_mem {text : List Char} (plain : '_' ∉ text) : squeeze text = text := by
  induction text with
  | nil => rfl
  | cons c rest ih =>
    rw [List.mem_cons, not_or] at plain
    simp [squeeze, Ne.symm plain.1, ih plain.2]

theorem closeEnd_of_not_mem {text : List Char} (plain : '_' ∉ text) : closeEnd text = text := by
  rw [closeEnd, if_neg]
  rw [beq_iff_eq]
  exact fun last => plain (List.mem_of_getLast? last)

theorem underscore_mem_identifier {idl : String} (listed : '_' ∈ unescape idl.toList) :
    '_' ∈ (identifier idl).toList := by
  have kept : '_' ∈ closeEnd (squeeze (unescape idl.toList)) := by
    unfold closeEnd
    split
    · exact List.mem_append_left _ (underscore_mem_squeeze listed)
    · exact underscore_mem_squeeze listed
  simp only [identifier]
  split
  · simp
  · simpa using kept

theorem identifier_of_plain {idl : String} (plain : '_' ∉ unescape idl.toList) :
    identifier idl = String.ofList (unescape idl.toList) ∨ '_' ∈ (identifier idl).toList := by
  simp only [identifier, squeeze_of_not_mem plain, closeEnd_of_not_mem plain]
  split
  · simp
  · exact .inl rfl

section Word

variable {word : String} (plain : '_' ∉ word.toList)
include plain

theorem fold_identifier_iff_unescape (free : word ∉ reservedWords) (idl : String) :
    fold (identifier idl) = word ↔ fold (String.ofList (unescape idl.toList)) = word := by
  constructor
  · intro called
    rw [← called, underscore_mem_fold_iff] at plain
    have inside : '_' ∉ unescape idl.toList := mt underscore_mem_identifier plain
    rcases identifier_of_plain inside with same | marked
    · rw [← same, called]
    · exact absurd marked plain
  · intro called
    have inside : '_' ∉ unescape idl.toList := by
      rwa [← called, underscore_mem_fold_iff, String.toList_ofList] at plain
    have unreserved : isReserved (String.ofList (unescape idl.toList)) = false := by
      rw [isReserved, called, List.contains_eq_mem, decide_eq_false free]
    simpa [identifier, squeeze_of_not_mem inside, closeEnd_of_not_mem inside, unreserved] using called

theorem fold_unescape_eq_iff (idl : String) :
    fold (String.ofList (unescape idl.toList)) = word ↔ fold idl = word ∨ fold idl = "_" ++ word := by
  simp only [← String.toList_inj, toList_fold, String.toList_ofList, String.toList_append]
  generalize idl.toList = text
  cases text with
  | nil => simp [unescape]
  | cons c rest =>
    by_cases escaped : c = '_'
    · subst escaped
      have foreign : '_' :: rest.map Char.toLower ≠ word.toList := fun same => plain (same ▸ List.mem_cons_self)
      simp [unescape, foreign]
    · have solid : c.toLower ≠ '_' := mt (eq_of_toLower_eq (by decide)) escaped
      simp [unescape, escaped, solid]

/-- An identifier becomes such a word only if it is spelled so, maybe after an escape. -/
theorem fold_identifier_eq_iff (free : word ∉ reservedWords) (idl : String) :
    fold (identifier idl) = word ↔ fold idl = word ∨ fold idl = "_" ++ word := by
  rw [fold_identifier_iff_unescape plain free, fold_unescape_eq_iff plain]

theorem fold_base_of_distinct {used : List String} {base : String} (called : fold (distinct used base) = word) :
    fold base = word := by
  rcases distinct_eq used base with same | ⟨k, -, numbered⟩
  · rwa [same] at called
  · rw [numbered] at called
    refine absurd ?_ plain
    rw [← called, toList_fold_numbered]
    simp

end Word

theorem distinct_of_not_mem {used : List String} {base : String} (free : fold base ∉ used) :
    distinct used base = base := by
  rw [distinct, if_neg]
  simpa using free

end Ada

namespace Namespace

open Ada

variable {t : Tree} {word : String}

theorem exists_name_iff (plain : '_' ∉ word.toList) {ids : List Nat} (apart : ids.Nodup) {ns : Namespace}
    (free : word ∉ ns.used) :
    (∃ id ∈ ids, ∃ name, (ns.enterAll t ids).name? id = some name ∧ fold name = word) ↔
      ∃ id ∈ ids, fold (identifier (t.name id)) = word := by
  -- Until a declaration is called so, the word stays free, whatever is numbered meanwhile.
  induction ids generalizing ns with
  | nil => simp
  | cons first ids ih =>
    obtain ⟨absent, apart⟩ := List.nodup_cons.mp apart
    let base := identifier (t.name first)
    have kept : (ns.enterAll t (first :: ids)).name? first = some (distinct ns.used base) :=
      (name?_enterAll_of_not_mem absent _).trans (by simp [name?_enter, base])
    by_cases called : fold base = word
    · have own : distinct ns.used base = base := distinct_of_not_mem (called ▸ free)
      rw [own] at kept
      exact iff_of_true ⟨first, List.mem_cons_self, base, kept, called⟩ ⟨first, List.mem_cons_self, called⟩
    · have other : fold (distinct ns.used base) ≠ word := mt (fold_base_of_distinct plain) called
      have still : word ∉ (ns.enter first base).used := by
        simpa [enter] using ⟨other.symm, free⟩
      simp only [List.mem_cons, exists_eq_or_imp]
      rw [or_iff_right, or_iff_right called]
      · exact ih apart still
      · rintro ⟨name, given, same⟩
        cases kept.symm.trans given
        exact other same

/-! ## Names in order -/

section Names

variable {seeds : List String} {ns : Namespace} {ids : List Nat} {names : List String}

theorem mem_names_iff (given : ids.map ns.name? = names.map some) {name : String} :
    name ∈ names ↔ ∃ id ∈ ids, ns.name? id = some name := by
  have among : some name ∈ names.map some ↔ name ∈ names := by simp
  rw [← among, ← given, List.mem_map]

theorem Apart.nodup_names (apart : Apart seeds ns) (distinct : ids.Nodup) (given : ids.map ns.name? = names.map some) :
    (names.map fold).Nodup := by
  induction ids generalizing names with
  | nil =>
    cases names with
    | nil => exact .nil
    | cons name names => cases given
  | cons id ids ih =>
    cases names with
    | nil => cases given
    | cons name names =>
      rw [List.map_cons, List.map_cons, List.cons.injEq] at given
      obtain ⟨absent, distinct⟩ := List.nodup_cons.mp distinct
      apply List.nodup_cons.mpr
      refine ⟨fun listed => ?_, ih distinct given.2⟩
      obtain ⟨other, among, same⟩ := List.mem_map.mp listed
      obtain ⟨later, inside, called⟩ := (mem_names_iff given.2).mp among
      refine apart.names_differ called given.1 ?_ same
      rintro rfl
      exact absent inside

theorem Apart.nodup_seeds_names (apart : Apart seeds ns) (distinct : ids.Nodup)
    (given : ids.map ns.name? = names.map some) (seedsApart : seeds.Nodup) : (seeds ++ names.map fold).Nodup := by
  apply List.nodup_append.mpr
  refine ⟨seedsApart, apart.nodup_names distinct given, ?_⟩
  rintro seed isSeed _ listed rfl
  obtain ⟨name, among, rfl⟩ := List.mem_map.mp listed
  obtain ⟨id, -, called⟩ := (mem_names_iff given).mp among
  exact apart.name_not_seed called isSeed

end Names

end Namespace

end AdaStubs
