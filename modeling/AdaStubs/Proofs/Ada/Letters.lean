import AdaStubs.Proofs.Ada.Spelling

/-!
# The characters of a spelling

Identifiers of the two languages are made of the same characters. A mark that is not one of them, such as the
point between the parts of a name, gets into no spelling: not by mapping an identifier, not by numbering it and
not by folding it.
-/

namespace AdaStubs

/-- An ASCII letter with letters, digits and underscores after it. One underscore may stand in front. -/
def Idl.isIdentifier (name : String) : Bool :=
  match name.toList with
  | '_' :: first :: rest | first :: rest => first.isAlpha && rest.all fun c => c.isAlphanum || c == '_'
  | [] => false

namespace Ada

def isWordChar (c : Char) : Bool := c.isAlphanum || c == '_'

theorem isAlpha_iff {c : Char} : c.isAlpha = true ↔
    (c.val ≥ 'A'.val ∧ c.val ≤ 'Z'.val) ∨ (c.val ≥ 'a'.val ∧ c.val ≤ 'z'.val) := by
  change (decide (c.val ≥ 'A'.val ∧ c.val ≤ 'Z'.val) ||
    decide (c.val ≥ 'a'.val) && decide (c.val ≤ 'z'.val)) = true ↔ _
  simp only [Bool.or_eq_true, Bool.and_eq_true, decide_eq_true_eq]

theorem exists_unescape {idl : String} (valid : Idl.isIdentifier idl = true) :
    ∃ first rest, unescape idl.toList = first :: rest ∧ first.isAlpha = true ∧ ∀ c ∈ rest, isWordChar c = true := by
  unfold Idl.isIdentifier at valid
  split at valid
  · next first rest text =>
    rw [Bool.and_eq_true, List.all_eq_true] at valid
    exact ⟨first, rest, by rw [text]; rfl, valid⟩
  · next first rest _ text =>
    rw [Bool.and_eq_true, List.all_eq_true] at valid
    have plain : first ≠ '_' := by
      rintro rfl
      cases valid.1
    exact ⟨first, rest, by simp [text, unescape, plain], valid⟩
  · cases valid

theorem isWordChar_of_mem_unescape {idl : String} (valid : Idl.isIdentifier idl = true) :
    ∀ c ∈ unescape idl.toList, isWordChar c = true := by
  obtain ⟨first, rest, text, letter, words⟩ := exists_unescape valid
  rw [text]
  intro c listed
  rcases List.mem_cons.mp listed with rfl | later
  · simp [isWordChar, Char.isAlphanum, letter]
  · exact words c later

theorem mem_of_mem_squeeze {c : Char} {text : List Char} (listed : c ∈ squeeze text) : c ∈ text := by
  induction text with
  | nil => exact listed
  | cons first rest ih =>
    unfold squeeze at listed
    split at listed
    · exact List.mem_cons_of_mem _ (ih listed)
    · rcases List.mem_cons.mp listed with rfl | later
      · exact List.mem_cons_self
      · exact List.mem_cons_of_mem _ (ih later)

theorem isWordChar_of_mem_identifier {idl : String} (valid : Idl.isIdentifier idl = true) :
    ∀ c ∈ (identifier idl).toList, isWordChar c = true := by
  have plain : ∀ c ∈ closeEnd (squeeze (unescape idl.toList)), isWordChar c = true := by
    have kept : ∀ c ∈ squeeze (unescape idl.toList), isWordChar c = true :=
      fun c listed => isWordChar_of_mem_unescape valid c (mem_of_mem_squeeze listed)
    intro c listed
    unfold closeEnd at listed
    split at listed
    · rcases List.mem_append.mp listed with inside | last
      · exact kept c inside
      · rw [List.mem_singleton.mp last]
        decide
    · exact kept c listed
  intro c listed
  simp only [identifier] at listed
  split at listed
  · rw [String.toList_append, String.toList_ofList] at listed
    rcases List.mem_append.mp listed with inside | suffix
    · exact plain c inside
    · have words : "_IDL".toList.all isWordChar = true := rfl
      exact List.all_eq_true.mp words c suffix
  · rw [String.toList_ofList] at listed
    exact plain c listed

theorem distinct_eq (used : List String) (base : String) :
    distinct used base = base ∨ ∃ k ≥ 1, distinct used base = numbered base k := by
  have free : ∀ tries k, ∃ j ≥ k, firstFree used base tries k = numbered base j := by
    intro tries
    induction tries with
    | zero => exact fun k => ⟨k, Nat.le_refl k, rfl⟩
    | succ tries ih =>
      intro k
      unfold firstFree
      split
      · obtain ⟨j, later, found⟩ := ih (k + 1)
        exact ⟨j, Nat.le_of_succ_le later, found⟩
      · exact ⟨k, Nat.le_refl k, rfl⟩
  unfold distinct
  split
  · exact .inr (free _ _)
  · exact .inl rfl

/-! ## Marks -/

section Marks

variable {mark : Char} (foreign : isWordChar mark = false)
include foreign

theorem mark_not_mem_identifier {idl : String} (valid : Idl.isIdentifier idl = true) :
    mark ∉ (identifier idl).toList := by
  intro listed
  have word := isWordChar_of_mem_identifier valid mark listed
  simp [foreign] at word

theorem mark_not_mem_numbered {base : String} (plain : mark ∉ base.toList) (k : Nat) :
    mark ∉ (numbered base k).toList := by
  rw [toList_numbered]
  intro listed
  rcases List.mem_append.mp listed with inside | added
  · exact plain inside
  · rcases List.mem_cons.mp added with rfl | digit
    · cases foreign
    · have isDigit := Nat.isDigit_of_mem_toDigits (by decide) (by decide) digit
      simp [isWordChar, Char.isAlphanum, isDigit] at foreign

end Marks

section Unlettered

variable {mark : Char} (unlettered : mark.isAlpha = false)
include unlettered

theorem toLower_mark : mark.toLower = mark := by
  unfold Char.toLower
  split
  · next capital =>
    rw [isAlpha_iff.mpr (.inl capital)] at unlettered
    cases unlettered
  · rfl

theorem eq_of_toLower_eq {c : Char} (same : c.toLower = mark) : c = mark := by
  subst same
  unfold Char.toLower at unlettered ⊢
  split at unlettered
  · next capital =>
    refine absurd (isAlpha_iff.mpr (.inr ?_)) (Bool.eq_false_iff.mp unlettered)
    simp [UInt32.le_iff_toNat_le] at capital ⊢
    omega
  · next small => rw [dif_neg small]

theorem mark_mem_fold_iff {s : String} : mark ∈ (fold s).toList ↔ mark ∈ s.toList := by
  rw [toList_fold]
  constructor
  · intro listed
    obtain ⟨c, inside, same⟩ := List.mem_map.mp listed
    rwa [← eq_of_toLower_eq unlettered same]
  · intro listed
    exact List.mem_map.mpr ⟨mark, listed, toLower_mark unlettered⟩

end Unlettered

end Ada

end AdaStubs
