import AdaStubs.Error

/-!
# Typedef chains

The base of a typedef may be a typedef again. A chain of bases ends at another kind of declaration, at no
node of the tree, or nowhere.
-/

namespace AdaStubs.Tree

/-- The base of a typedef. -/
def aliasOf? (t : Tree) (id : Nat) : Option Nat :=
  match t.kind? id with
  | some (.typedef base) => some base
  | _ => none

/-- Follows typedef bases; none if `steps` of them do not reach an end. -/
def unaliasWithin (t : Tree) : Nat → Nat → Option Nat
  | 0, id => if (t.aliasOf? id).isSome then none else some id
  | steps + 1, id =>
    match t.aliasOf? id with
    | some base => t.unaliasWithin steps base
    | none => some id

/-- The first declaration on the chain of bases of `id` that is no typedef. A chain with more links
than the tree has nodes runs in a circle. -/
def unalias (t : Tree) (id : Nat) : Except Fault Nat := do
  match t.unaliasWithin t.size id with
  | none => throw .exhausted
  | some last =>
    let _ ← t.need last
    return last

end AdaStubs.Tree
