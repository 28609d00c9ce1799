/-!
# Blanks and words

`isBlank` is the Unicode property White_Space (25 characters); `words` cuts a text at blanks.
-/

namespace AdaStubs.Text

/-- First and last code points of the runs of characters with the property White_Space. -/
def blankRuns : List (Nat × Nat) :=
  [(0x9, 0xD), (0x20, 0x20), (0x85, 0x85), (0xA0, 0xA0), (0x1680, 0x1680), (0x2000, 0x200A),
   (0x2028, 0x2029), (0x202F, 0x202F), (0x205F, 0x205F), (0x3000, 0x3000)]

def isBlank (c : Char) : Bool :=
  blankRuns.any fun (first, last) => first ≤ c.toNat && c.toNat ≤ last

/-- The word under construction, which starts the text read so far, and the words after it. -/
def wordsStep (c : Char) : List Char × List (List Char) → List Char × List (List Char)
  | (word, rest) =>
    if isBlank c then ([], if word.isEmpty then rest else word :: rest) else (c :: word, rest)

/-- The longest runs of characters that are not blank, in order. -/
def words (s : String) : List String :=
  let (word, rest) := s.toList.foldr wordsStep ([], [])
  (if word.isEmpty then rest else word :: rest).map String.ofList

end AdaStubs.Text
