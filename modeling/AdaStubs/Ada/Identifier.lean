/-!
# Ada identifiers

IDL identifiers are mapped to identifiers that Ada accepts. Ada ignores letter case, so spellings are
compared after folding ASCII capitals.
-/

namespace AdaStubs.Ada

/-- The reserved words of Ada 2005. -/
def reservedWords : List String :=
  ["abort", "abs", "abstract", "accept", "access", "aliased", "all", "and", "array", "at", "begin",
   "body", "case", "constant", "declare", "delay", "delta", "digits", "do", "else", "elsif", "end",
   "entry", "exception", "exit", "for", "function", "generic", "goto", "if", "in", "interface", "is",
   "limited", "loop", "mod", "new", "not", "null", "of", "or", "others", "out", "overriding", "package",
   "pragma", "private", "procedure", "protected", "raise", "range", "record", "rem", "renames",
   "requeue", "return", "reverse", "select", "separate", "subtype", "synchronized", "tagged", "task",
   "terminate", "then", "type", "until", "use", "when", "while", "with", "xor"]

/-- Spellings that differ only in the case of ASCII letters fold to the same text. -/
def fold (s : String) : String := s.map Char.toLower

def isReserved (word : String) : Bool := reservedWords.contains (fold word)

/-- Leaves one underscore of each run. -/
def squeeze : List Char → List Char
  | [] => []
  | c :: rest => if c == '_' && rest.head? == some '_' then squeeze rest else c :: squeeze rest

/-- An IDL identifier may be escaped by one underscore in front. -/
def unescape : List Char → List Char
  | '_' :: rest => rest
  | text => text

/-- Ada does not allow an underscore at the end. -/
def closeEnd (text : List Char) : List Char :=
  if text.getLast? == some '_' then text ++ ['U'] else text

/-- The Ada identifier for an IDL identifier. -/
def identifier (idl : String) : String :=
  let plain := String.ofList (closeEnd (squeeze (unescape idl.toList)))
  if isReserved plain then plain ++ "_IDL" else plain

/-- The spelling with the given number. -/
def numbered (base : String) (k : Nat) : String := s!"{base}_{k}"

/-- The first free spelling among the numbered ones from `k` on. One of any `used.length + 1` is free. -/
def firstFree (used : List String) (base : String) : Nat → Nat → String
  | 0, k => numbered base k
  | tries + 1, k =>
    if used.contains (fold (numbered base k)) then firstFree used base tries (k + 1)
    else numbered base k

/-- `base` if it is free, else the first of `base_1`, `base_2`, … that is. -/
def distinct (used : List String) (base : String) : String :=
  if used.contains (fold base) then firstFree used base used.length 1 else base

end AdaStubs.Ada
