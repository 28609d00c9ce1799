/-!
# Indented text

`Code` is a list of lines, each with its depth relative to the code around it. A `Writer` holds text
under construction and the depth at which the next line starts; writing never takes text away, and
whatever is written inside `nest` leaves the depth as it was.
-/

namespace AdaStubs

/-- A line of code. The depth counts from the code it stands in; an empty line has no indentation. -/
structure Line where
  depth : Nat
  text : String
deriving DecidableEq, Repr

abbrev Code := List Line

namespace Code

def line (text : String) : Code := [⟨0, text⟩]

def blank : Code := line ""

def nest (body : Code) : Code := body.map fun l => { l with depth := l.depth + 1 }

def block (opening closing : String) (body : Code) : Code :=
  line opening ++ nest body ++ line closing

def lines (texts : List String) : Code := texts.map fun text => ⟨0, text⟩

end Code

structure Writer where
  width : Nat
  depth : Nat
  text : String
deriving DecidableEq, Repr

namespace Writer

def start (width depth : Nat) : Writer := ⟨width, depth, ""⟩

def indentation (width depth : Nat) : String := "".pushn ' ' (depth * width)

/-- What a line adds to the text of a writer at the given depth. -/
def lineText (width depth : Nat) (text : String) : String :=
  if text.isEmpty then "\n" else indentation width depth ++ text ++ "\n"

def raw (w : Writer) (text : String) : Writer := { w with text := w.text ++ text }

def line (w : Writer) (text : String) : Writer := w.raw (lineText w.width w.depth text)

def blank (w : Writer) : Writer := w.raw "\n"

/-- Runs `body` one level deeper and returns to the level of `w`. -/
def nest {α : Type} (w : Writer) (body : Writer → α × Writer) : α × Writer :=
  let (a, inner) := body { w with depth := w.depth + 1 }
  (a, { inner with depth := inner.depth - 1 })

def block {α : Type} (w : Writer) (opening closing : String) (body : Writer → α × Writer) :
    α × Writer :=
  let (a, inner) := (w.line opening).nest body
  (a, inner.line closing)

def write (w : Writer) (code : Code) : Writer :=
  code.foldl (fun w l => w.raw (lineText w.width (w.depth + l.depth) l.text)) w

end Writer

namespace Code

/-- The text of `code` written from the given depth. -/
def render (code : Code) (width depth : Nat) : String := (Writer.start width depth |>.write code).text

end Code

end AdaStubs
