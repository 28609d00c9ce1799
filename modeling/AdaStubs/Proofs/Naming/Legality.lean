import Mathlib.Data.List.Chain
import AdaStubs.Proofs.Naming.Qualified

/-!
# Legal identifiers

What Ada asks of an identifier, and why every name of a namespace has it: an IDL identifier is mapped to a legal
one, and a legal one stays legal when it is numbered or given the ending of an anonymous type. Such a name is one
that the mapping leaves alone.

Main statement: `localName_legal`.
-/

namespace AdaStubs

namespace Ada

/-- At most one of two neighbours is an underscore. -/
abbrev Spaced (a b : Char) : Prop := a ≠ '_' ∨ b ≠ '_'

/-- A letter, then letters, digits and underscores, of which none follows another and none is last. -/
structure Shaped (text : List Char) : Prop where
  letter : ∃ first ∈ text.head?, first.isAlpha = true
  words : ∀ c ∈ text, isWordChar c = true
  spaced : text.IsChain Spaced
  closed : text.getLast? ≠ some '_'

/-- An identifier of Ada, where the reserved words are reserved in capitals too. -/
structure Legal (name : String) : Prop where
  shaped : Shaped name.toList
  unreserved : ∀ word ∈ reservedWords, fold name ≠ fold word

/-! ## Reserved words -/

theorem fold_reserved : ∀ word ∈ reservedWords, fold word = word := by
  simp only [fold_eq_iff]
  decide

theorem unreserved_iff {name : String} :
    (∀ word ∈ reservedWords, fold name ≠ fold word) ↔ isReserved name = false := by
  rw [isReserved, Bool.eq_false_iff, ne_eq, List.contains_iff_mem]
  constructor
  · intro unreserved listed
    exact unreserved _ listed (fold_reserved _ listed).symm
  · intro unlisted word listed same
    rw [same, fold_reserved word listed] at unlisted
    exact unlisted listed

theorem unreserved_of_underscore {name : String} (inside : '_' ∈ name.toList) :
    ∀ word ∈ reservedWords, fold name ≠ fold word := by
  have solid : ∀ word ∈ reservedWords, '_' ∉ word.toList := by decide
  intro word listed same
  rw [fold_reserved word listed] at same
  refine solid word listed ?_
  rw [← same, toList_fold]
  exact List.mem_map.mpr ⟨'_', inside, by decide⟩

/-! ## Adding a part -/

theorem isChain_spaced_of_plain {part : List Char} (plain : ∀ c ∈ part, c ≠ '_') (before : Char) :
    (before :: part).IsChain Spaced := by
  induction part generalizing before with
  | nil => exact .singleton before
  | cons c part ih =>
    refine .cons_cons (.inr (plain c List.mem_cons_self)) ?_
    exact ih (fun d later => plain d (List.mem_cons_of_mem _ later)) c

theorem Shaped.append {text part : List Char} (shaped : Shaped text) (filled : part ≠ [])
    (plain : ∀ c ∈ part, c.isAlphanum = true) : Shaped (text ++ '_' :: part) := by
  have unmarked : ∀ c ∈ part, c ≠ '_' := by
    rintro c listed rfl
    cases plain _ listed
  constructor
  · obtain ⟨first, head, letter⟩ := shaped.letter
    exact ⟨first, by rw [List.head?_append, head]; rfl, letter⟩
  · intro c listed
    rcases List.mem_append.mp listed with inside | added
    · exact shaped.words c inside
    · rcases List.mem_cons.mp added with rfl | later
      · rfl
      · simp [isWordChar, plain c later]
  · refine shaped.spaced.append (isChain_spaced_of_plain unmarked '_') fun last ends next _ => .inl ?_
    rintro rfl
    exact shaped.closed ends
  · rw [List.getLast?_append_of_ne_nil _ (List.cons_ne_nil _ _), List.getLast?_cons_of_ne_nil filled]
    exact fun ends => unmarked '_' (List.mem_of_getLast? ends) rfl

theorem Legal.append {name ending : String} (legal : Legal name) {part : List Char}
    (text : ending.toList = '_' :: part) (filled : part ≠ []) (plain : ∀ c ∈ part, c.isAlphanum = true) :
    Legal (name ++ ending) := by
  have parts : (name ++ ending).toList = name.toList ++ '_' :: part := by rw [String.toList_append, text]
  refine ⟨parts ▸ legal.shaped.append filled plain, unreserved_of_underscore ?_⟩
  simp [parts]

theorem Legal.numbered {base : String} (legal : Legal base) (k : Nat) : Legal (numbered base k) := by
  have text : (Ada.numbered base k) = base ++ String.ofList ('_' :: Nat.toDigits 10 k) := by
    rw [← String.toList_inj, toList_numbered]
    simp
  rw [text]
  refine legal.append String.toList_ofList Nat.toDigits_ne_nil fun c listed => ?_
  have digit : c.isDigit = true := Nat.isDigit_of_mem_toDigits (by decide) (by decide) listed
  simp [Char.isAlphanum, digit]

theorem Legal.suffixed {base : String} (legal : Legal base) (kind : Kind) : Legal (base ++ kind.suffix) := by
  obtain ⟨part, text, filled, plain⟩ : ∃ part, kind.suffix.toList = '_' :: part ∧ part ≠ [] ∧
      part.all Char.isAlphanum = true := by
    unfold Kind.suffix
    split <;> exact ⟨_, rfl, by simp, rfl⟩
  exact legal.append text filled (List.all_eq_true.mp plain)

/-! ## Mapping an identifier -/

theorem head?_squeeze (text : List Char) : (squeeze text).head? = text.head? := by
  induction text with
  | nil => rfl
  | cons c rest ih =>
    unfold squeeze
    split
    · next double =>
      simp only [Bool.and_eq_true, beq_iff_eq] at double
      rw [ih, double.2, double.1]
      rfl
    · rfl

theorem isChain_squeeze (text : List Char) : (squeeze text).IsChain Spaced := by
  induction text with
  | nil => exact .nil
  | cons c rest ih =>
    unfold squeeze
    split
    · exact ih
    · next single =>
      refine ih.cons fun next follows => ?_
      rw [head?_squeeze] at follows
      by_contra double
      simp only [Spaced, ne_eq, not_or, not_not] at double
      refine single ?_
      rw [double.1, follows, double.2]
      rfl

theorem squeeze_of_spaced {text : List Char} (spaced : text.IsChain Spaced) : squeeze text = text := by
  induction text with
  | nil => rfl
  | cons c rest ih =>
    obtain ⟨next, later⟩ := List.isChain_cons.mp spaced
    unfold squeeze
    rw [if_neg ?_, ih later]
    simp only [Bool.and_eq_true, beq_iff_eq]
    rintro ⟨rfl, follows⟩
    simpa using next '_' follows

/-- What is left of an identifier once its underscores are single. -/
theorem shaped_closeEnd {text : List Char} (letter : ∃ first ∈ text.head?, first.isAlpha = true)
    (words : ∀ c ∈ text, isWordChar c = true) (spaced : text.IsChain Spaced) : Shaped (closeEnd text) := by
  unfold closeEnd
  split
  · next ends =>
    -- The underscore at the end is the one before the new part.
    obtain ⟨front, rfl⟩ : ∃ front, text = front ++ ['_'] := List.getLast?_eq_some_iff.mp (by simpa using ends)
    rw [List.append_assoc]
    have shaped : Shaped front := by
      constructor
      · obtain ⟨first, head, letter⟩ := letter
        cases front with
        | nil =>
          cases head
          cases letter
        | cons c front => exact ⟨first, head, letter⟩
      · exact fun c listed => words c (List.mem_append_left _ listed)
      · exact spaced.left_of_append
      · intro ends
        have apart := (List.isChain_append.mp spaced).2.2 '_' ends '_' rfl
        simp at apart
    exact shaped.append (List.cons_ne_nil 'U' []) (by simp)
  · next closed => exact ⟨letter, words, spaced, by simpa using closed⟩

theorem legal_identifier {idl : String} (valid : Idl.isIdentifier idl = true) : Legal (identifier idl) := by
  have shaped : Shaped (closeEnd (squeeze (unescape idl.toList))) := by
    refine shaped_closeEnd ?_ ?_ (isChain_squeeze _)
    · obtain ⟨first, rest, text, letter, -⟩ := exists_unescape valid
      exact ⟨first, by rw [head?_squeeze, text]; rfl, letter⟩
    · exact fun c listed => isWordChar_of_mem_unescape valid c (mem_of_mem_squeeze listed)
  simp only [identifier]
  split
  · have text : ("_IDL" : String).toList = '_' :: ['I', 'D', 'L'] := rfl
    refine ⟨?_, unreserved_of_underscore ?_⟩
    · rw [String.toList_append, String.toList_ofList, text]
      exact shaped.append (List.cons_ne_nil _ _) (by simp)
    · rw [String.toList_append, text]
      simp
  · next free =>
    exact ⟨by rwa [String.toList_ofList], unreserved_iff.mpr (by simpa using free)⟩

theorem identifier_of_legal {name : String} (legal : Legal name) : identifier name = name := by
  obtain ⟨first, head, letter⟩ := legal.shaped.letter
  have whole : unescape name.toList = name.toList := by
    unfold unescape
    split
    · next rest text =>
      rw [text] at head
      cases head
      cases letter
    · rfl
  have plain : String.ofList (closeEnd (squeeze (unescape name.toList))) = name := by
    rw [whole, squeeze_of_spaced legal.shaped.spaced, closeEnd, if_neg (by simpa using legal.shaped.closed),
      String.ofList_toList]
  simp only [identifier]
  rw [plain, unreserved_iff.mp legal.unreserved]
  rfl

end Ada

/-! ## Names of a tree -/

namespace NameTable

theorem spells_legal {t : Tree} (spelled : t.isSpelled = true) : Namespace.Spells t none Ada.Legal where
  declared listed := Ada.legal_identifier (Tree.isIdentifier_of_member spelled listed)
  placeholder name given := by cases given
  numbered k legal := legal.numbered k
  suffixed kind legal := legal.suffixed kind

/-- Where declarations go by IDL identifiers and no placeholder is set, whatever gets its name in a namespace has a
name that is legal in Ada and that the mapping of identifiers leaves alone. -/
theorem localName_legal (script : List Step) (settings : Settings) (history : List NameQuery)
    (spelled : (Tree.ofSteps script).isSpelled = true) (bare : settings.placeholder = none) :
    let ctx : Context := ⟨.ofSteps script, settings⟩
    ∀ id node name, Shares ctx.tree id node → answer ctx history (.localName id) = .ok name →
      Ada.Legal name ∧ Ada.identifier name = name := by
  intro ctx id node name shares given
  have wf : ctx.tree.WellFormed := Tree.ofSteps_wellFormed script
  have spells : Namespace.Spells ctx.tree ctx.settings.placeholder Ada.Legal := by
    rw [show ctx.settings.placeholder = none from bare]
    exact spells_legal spelled
  have legal := shares.lives.spelled spells ((answer_eq_result wf history (.localName id)).symm.trans given)
  exact ⟨legal, Ada.identifier_of_legal legal⟩

/-- A reserved word that is escaped, a name with underscores at its end, and a type without a declaration. -/
theorem localName_legal_in_module :
    let script : List Step :=
      [.module 0 "M", .struct 1 "_Do", .struct 1 "a__", .sequence 3 2 none, .field 3 "b" 4]
    let name (id : Nat) := answer ⟨.ofSteps script, {}⟩ [] (.localName id)
    name 2 = .ok "Do_IDL" ∧ name 3 = .ok "a_U" ∧ name 4 = .ok "b_Seq" ∧
      Ada.Legal "Do_IDL" ∧ Ada.Legal "a_U" ∧ Ada.Legal "b_Seq" := by
  intro script name
  have first : name 2 = .ok "Do_IDL" := by decide +kernel
  have second : name 3 = .ok "a_U" := by decide +kernel
  have third : name 4 = .ok "b_Seq" := by decide +kernel
  have firstShares : Shares (.ofSteps script) 2 ⟨"_Do", some 1, .struct, [], []⟩ := by
    constructor <;> decide +kernel
  have secondShares : Shares (.ofSteps script) 3 ⟨"a__", some 1, .struct, [5], [4]⟩ := by
    constructor <;> decide +kernel
  have thirdShares : Shares (.ofSteps script) 4 ⟨"", some 3, .sequence 2 none, [], []⟩ := by
    constructor <;> decide +kernel
  have legal := localName_legal script {} [] (by decide +kernel) rfl
  refine ⟨first, second, third, ?_, ?_, ?_⟩
  · exact (legal 2 _ _ firstShares first).1
  · exact (legal 3 _ _ secondShares second).1
  · exact (legal 4 _ _ thirdShares third).1

end NameTable

end AdaStubs
