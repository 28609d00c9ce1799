import AdaStubs.Ada.Body

/-!
# Loop nests over arrays

One loop for each dimension, the first outermost; what stands in the innermost loop is written once. The
three marshalling subprograms of an array visit its elements through the same nest.
-/

namespace AdaStubs.Ada

structure IndexLoop where
  index : String
  dimension : Nat
deriving DecidableEq, Repr

/-- The line that opens a loop over one dimension of `array`. -/
def IndexLoop.opening (l : IndexLoop) (array : String) : String :=
  s!"for {l.index} in {array}'Range ({l.dimension}) loop"

/-- The loops of a nest, the outermost first. -/
structure IndexNest where
  loops : List IndexLoop
deriving DecidableEq, Repr

namespace IndexNest

def ofRank (rank : Nat) : IndexNest :=
  ⟨(List.range rank).map fun k => ⟨s!"I{k + 1}", k + 1⟩⟩

/-- An array indexed in all its dimensions; with none it is the array itself. -/
def indexed (array : String) (indices : List String) : String :=
  if indices.isEmpty then array else array ++ " (" ++ ", ".intercalate indices ++ ")"

/-- The element that the innermost loop visits. -/
def element (nest : IndexNest) (array : String) : String :=
  indexed array (nest.loops.map (·.index))

def firstElement (nest : IndexNest) (array : String) : String :=
  indexed array (nest.loops.map fun l => s!"{array}'First ({l.dimension})")

/-- `statements` inside the given loops. -/
def wrap (array : String) (statements : Code) : List IndexLoop → Code
  | [] => statements
  | l :: inner =>
    Code.block (l.opening array) "end loop ;" (wrap array statements inner)

def code (nest : IndexNest) (array : String) (visit : String → Code) : Code :=
  wrap array (visit (nest.element array)) nest.loops

/-- Writes the given loops around what `visit` writes. -/
def renderLoops (array : String) (visit : Writer → Writer) : List IndexLoop → Writer → Writer
  | [], w => visit w
  | l :: inner, w =>
    (w.block (l.opening array) "end loop ;" fun w => ((), renderLoops array visit inner w)).2

/-- Writes the nest; `visit` is called in the innermost loop, with the element. -/
def render (nest : IndexNest) (w : Writer) (array : String) (visit : Writer → String → Writer) : Writer :=
  renderLoops array (visit · (nest.element array)) nest.loops w

end IndexNest

/-- How an array is marshalled. -/
structure ArrayPlan where
  nest : IndexNest
  /-- The number of elements. -/
  count : Nat
  elementFixed : Bool
deriving DecidableEq, Repr

namespace ArrayPlan

/-- A call of `subprogram` for every element. -/
def visits (plan : ArrayPlan) (subprogram : String) : Code :=
  plan.nest.code "A" fun element => Code.line s!"{subprogram} ({element}, S) ;"

def marshal (plan : ArrayPlan) (profile : String) : Code :=
  subprogramBody profile "Marshall" [] (plan.visits "Marshall")

def unmarshal (plan : ArrayPlan) (profile : String) : Code :=
  subprogramBody profile "UnMarshall" [] (plan.visits "UnMarshall")

/-- Elements of fixed size are sized by one call that is scaled by their number, others one by one. -/
def sizing (plan : ArrayPlan) : Code :=
  if plan.elementFixed then
    if plan.count == 0 then []
    else
      let first := plan.nest.firstElement "A"
      Code.line s!"Tmp := Align_Size ({first}, Initial_Offset, N * {plan.count}) ;"
  else
    forEachValue (plan.nest.code "A" fun element => Code.line s!"Tmp := Align_Size ({element}, Tmp) ;")

def size (plan : ArrayPlan) (profile sizeType : String) : Code :=
  subprogramBody profile "Align_Size" [sizeVariable sizeType]
    (plan.sizing ++ Code.line "return Tmp ;")

end ArrayPlan

end AdaStubs.Ada
