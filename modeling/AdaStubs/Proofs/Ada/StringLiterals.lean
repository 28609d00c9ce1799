import Mathlib.Logic.Function.Basic
import AdaStubs.Emission.Reference
import AdaStubs.Proofs.Run

/-!
# Reading string literals

A reader of Ada finds the end of a string literal by its quotes alone: two in a row stand for one, and one by itself
is the last character. Writing doubles every quote of a string, so the reader gets exactly the string and stops
exactly at the end, whatever comes behind, provided that this is not a quote.

Main statement: `stringLiteral_contained`.
-/

namespace AdaStubs

open Ada

namespace Ada

/-- Reads what is left of a string literal after its opening quote. Answers the string and the text behind the
literal, and nothing for a literal that has no end. -/
def readQuoted : List Char → Option (List Char × List Char)
  | [] => none
  | '"' :: '"' :: rest => (readQuoted rest).map fun read => ('"' :: read.1, read.2)
  | '"' :: rest => some ([], rest)
  | c :: rest => (readQuoted rest).map fun read => (c :: read.1, read.2)

/-- Reads the string literal at the beginning of a text. -/
def readLiteral (text : String) : Option (String × String) :=
  match text.toList with
  | '"' :: rest => (readQuoted rest).map fun read => (String.ofList read.1, String.ofList read.2)
  | _ => none

theorem readQuoted_quote {rest : List Char} (single : rest.head? ≠ some '"') :
    readQuoted ('"' :: rest) = some ([], rest) := by
  cases rest with
  | nil => simp [readQuoted]
  | cons c rest => simp_all [readQuoted]

theorem readQuoted_plain {c : Char} (plain : c ≠ '"') (rest : List Char) :
    readQuoted (c :: rest) = (readQuoted rest).map fun read => (c :: read.1, read.2) := by
  simp [readQuoted, plain]

theorem readQuoted_doubleQuotes (text : List Char) {rest : List Char} (single : rest.head? ≠ some '"') :
    readQuoted (doubleQuotes text ++ '"' :: rest) = some (text, rest) := by
  induction text with
  | nil => exact readQuoted_quote single
  | cons c text ih =>
    by_cases quote : c = '"'
    · simp [doubleQuotes, readQuoted, quote, ih]
    · simp [doubleQuotes, quote, readQuoted_plain, ih]

/-- Nothing else is read as `text`. -/
theorem eq_doubleQuotes_of_readQuoted {input text rest : List Char} (read : readQuoted input = some (text, rest)) :
    input = doubleQuotes text ++ '"' :: rest ∧ rest.head? ≠ some '"' := by
  fun_induction readQuoted input generalizing text with
  | case1 => cases read
  | case2 after ih =>
    obtain ⟨⟨inner, behind⟩, inside, same⟩ := Option.map_eq_some_iff.mp read
    cases same
    obtain ⟨written, single⟩ := ih inside
    exact ⟨by simp [doubleQuotes, written], single⟩
  | case3 after single =>
    cases read
    refine ⟨rfl, ?_⟩
    cases rest with
    | nil => simp
    | cons c rest => simpa using single
  | case4 c after _ plain ih =>
    obtain ⟨⟨inner, behind⟩, inside, same⟩ := Option.map_eq_some_iff.mp read
    cases same
    obtain ⟨written, single⟩ := ih inside
    have other : c ≠ '"' := plain
    exact ⟨by simp [doubleQuotes, other, written], single⟩

theorem toList_stringLiteral (s : String) : (stringLiteral s).toList = '"' :: (doubleQuotes s.toList ++ ['"']) :=
  String.toList_ofList

theorem readLiteral_stringLiteral (s rest : String) (single : rest.toList.head? ≠ some '"') :
    readLiteral (stringLiteral s ++ rest) = some (s, rest) := by
  have written : (stringLiteral s ++ rest).toList = '"' :: (doubleQuotes s.toList ++ '"' :: rest.toList) := by
    simp [toList_stringLiteral]
  rw [readLiteral, written]
  simp [readQuoted_doubleQuotes s.toList single]

theorem eq_stringLiteral_of_readLiteral {text s rest : String} (read : readLiteral text = some (s, rest)) :
    text = stringLiteral s ++ rest ∧ rest.toList.head? ≠ some '"' := by
  unfold readLiteral at read
  split at read
  · next quoted opened =>
    obtain ⟨⟨inner, behind⟩, inside, same⟩ := Option.map_eq_some_iff.mp read
    cases same
    obtain ⟨written, single⟩ := eq_doubleQuotes_of_readQuoted inside
    refine ⟨String.toList_inj.mp ?_, by simpa using single⟩
    simp [opened, written, toList_stringLiteral]
  · cases read

theorem stringLiteral_injective : Function.Injective stringLiteral := by
  intro s s' same
  have first := readLiteral_stringLiteral s "" (by simp)
  have second := readLiteral_stringLiteral s' "" (by simp)
  rw [same, second] at first
  cases first
  rfl

end Ada

/-- Before the literal of a constant there is no quote, and behind it there is a bracket. -/
theorem Emit.literal_string (ctx : Context) (s : String) {value : Value} (text : value ∈ [.string s, .wstring s])
    (session : Session) : ∃ opening : String, '"' ∉ opening.toList ∧
      (literal ctx value).outcome session = .ok (opening ++ (stringLiteral s ++ ")")) := by
  obtain rfl | rfl : value = .string s ∨ value = .wstring s := by simpa using text
  · exact ⟨"Corba.To_Corba_String (", by decide, by rw [← String.append_assoc]; rfl⟩
  · exact ⟨"Corba.To_Corba_Wide_String (", by decide, by rw [← String.append_assoc]; rfl⟩

/-- A reader that starts at the opening quote of a string literal stops exactly behind the literal and has read
exactly the string; it reads nothing else so. The literal of a string constant is read back from the first quote of
its Ada expression. -/
theorem stringLiteral_contained :
    (∀ s rest : String, rest.toList.head? ≠ some '"' → readLiteral (stringLiteral s ++ rest) = some (s, rest)) ∧
    (∀ text s rest : String, readLiteral text = some (s, rest) →
      text = stringLiteral s ++ rest ∧ rest.toList.head? ≠ some '"') ∧
    Function.Injective stringLiteral ∧
    ∀ (ctx : Context) (session : Session) (s : String), ∀ value ∈ [Value.string s, .wstring s],
      ∃ opening behind : String, '"' ∉ opening.toList ∧
        (Emit.literal ctx value).outcome session = .ok (opening ++ behind) ∧ readLiteral behind = some (s, ")") := by
  refine ⟨readLiteral_stringLiteral, fun _ _ _ => eq_stringLiteral_of_readLiteral, stringLiteral_injective, ?_⟩
  intro ctx session s value text
  obtain ⟨opening, unquoted, written⟩ := Emit.literal_string ctx s text session
  exact ⟨opening, _, unquoted, written, readLiteral_stringLiteral s ")" (by decide)⟩

/-- Quotes next to each other, next to both ends, and before a text that goes on. -/
theorem quotes_at_both_ends : readLiteral "\"\"\"\"\"say \"\"\"\"\" & Tail" = some ("\"\"say \"\"", " & Tail") := by
  have written : "\"\"\"\"\"say \"\"\"\"\" & Tail" = stringLiteral "\"\"say \"\"" ++ " & Tail" := by decide
  rw [written]
  exact stringLiteral_contained.1 "\"\"say \"\"" " & Tail" (by decide)

end AdaStubs
