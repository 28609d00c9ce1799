import AdaStubs.Error

/-!
# Types of fixed size

A type is of fixed size if all its values take the same number of bytes on the wire. Arrays and typedefs
have this from the type they are made of, structs and exceptions from all their fields; a type that
reaches itself does not have it. Unions do not, since their size hangs on the active branch.
-/

namespace AdaStubs

/-- Types whose size is settled, and those being looked into. -/
structure SizeTable where
  settled : List (Nat × Bool)
  busy : List Nat
deriving DecidableEq, Repr

namespace SizeTable

def empty : SizeTable := ⟨[], []⟩

abbrev Sizing := Run SizeTable

/-- Runs `act` while `node` is being looked into. -/
def during {α : Type} (node : Nat) (act : Sizing α) : Sizing α := fun table =>
  match act { table with busy := node :: table.busy } with
  | .ok a after => .ok a { after with busy := after.busy.erase node }
  | .error fault after => .error fault { after with busy := after.busy.erase node }

def settle (node : Nat) (fixed : Bool) : Sizing Unit :=
  modify fun table => { table with settled := (node, fixed) :: table.settled }

/-- The fields of a struct or exception, by their types. -/
def fieldTypes (t : Tree) (node : Nat) : List Nat :=
  (t.members node).filterMap fun m =>
    match t.kind? m with
    | some (.field type) => some type
    | _ => none

/-- Decides by the kind of `node`, with `recurse` for the types it is made of. -/
def judge (t : Tree) (recurse : Nat → Sizing Bool) (node : Nat) : Sizing Bool := do
  let ⟨_, _, kind, _, _⟩ ← t.need node
  match kind with
  | .primitive p => return p.isFixedSize
  | .enum | .fixed _ _ => return true
  | .sequence _ _ | .string _ _ | .interface _ | .union _ => return false
  | .array _ element => recurse element
  | .typedef base => recurse base
  | .struct | .exception => (fieldTypes t node).allM recurse
  | .module | .constant _ _ | .attribute _ _ | .operation _ _ _ | .argument _ _ | .field _
  | .branch _ _ | .enumerator => throw (.error (.wrongKind node "type" kind))

/-- Looks into types at most `depth` deep. -/
def isFixedWithin (t : Tree) : Nat → Nat → Sizing Bool
  | 0, _ => throw .exhausted
  | depth + 1, node => do
    let table ← get
    match table.settled.lookup node with
    | some fixed => return fixed
    | none =>
      if table.busy.contains node then return false
      let fixed ← during node (judge t (isFixedWithin t depth) node)
      settle node fixed
      return fixed

/-- Whether the values of a type always take the same number of bytes. No chain of types under way is
longer than the tree has nodes. -/
def isFixed (t : Tree) (node : Nat) : Sizing Bool := isFixedWithin t (t.size + 1) node

end SizeTable

end AdaStubs
