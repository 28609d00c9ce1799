import AdaStubs.Idl.Build

/-!
# Sample trees

Scripts of trees of any size, on which the generator can be timed.
-/

namespace AdaStubs.Samples

/-- The place of the `i`-th record of a chain: the first has four nodes, the others five. -/
def linkPlace (i : Nat) : Nat := if i = 0 then 3 else 5 * i + 2

/-- A module of records, each with a long, a bounded sequence of longs and the record before it. -/
def recordChain (records : Nat) : List Step :=
  let long := 1
  let module := 2
  .primitive .long :: .module Tree.root "Chain" :: (List.range records).flatMap fun i =>
    let link := linkPlace i
    [.struct module s!"Link_{i}", .field link "value" long, .sequence link long (some (.long 32)),
      .field link "history" (link + 2)]
      ++ if i = 0 then [] else [.field link "prev" (linkPlace (i - 1))]

/-- A typedef of an array of longs, or of unbounded strings. -/
def arrayModule (dims : List Int32) (fixed : Bool) : List Step :=
  let module := 1
  let element := 2
  let array := 3
  [.module Tree.root "Grid", if fixed then .primitive .long else .string module none false,
    .array module (dims.map .long) element, .typedef module "Cells" array]

/-- An interface of operations, each with a long in, a long out and a long returned. -/
def wideInterface (operations : Nat) : List Step :=
  let long := 1
  let module := 2
  let interface := 3
  .primitive .long :: .module Tree.root "Service" :: .interface module "Endpoint" []
    :: (List.range operations).flatMap fun i =>
      let operation := 4 + 3 * i
      [.operation interface s!"call_{i}" (some long) false [], .argument operation "input" .input long,
        .argument operation "output" .output long]

end AdaStubs.Samples
