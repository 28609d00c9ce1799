import AdaStubs.Idl.Build

/-!
# Errors

An `Error` is reported to the caller. A `Fault` is how a computation on a tree stops without a result:
by an error, at a reference to no node of the tree, or at the bound set on its depth.
-/

namespace AdaStubs

inductive Error where
  | tree (e : BuildError)
  | unexpectedValue (node : Nat) (value : Value) (context : String)
  | wrongKind (node : Nat) (expected : String) (actual : Kind)
  | unowned (node : Nat) (kind : Kind)
  | negativeBound (node : Nat) (value : Int) (context : String)
  | countOverflow (node : Nat)
deriving DecidableEq, Repr

namespace Error

def message : Error → String
  | tree e => s!"AST error: {e.message}"
  | unexpectedValue node value context =>
    s!"unexpected type {value.typeName} in {context} of node #{node}"
  | wrongKind node expected actual => s!"node #{node} is a {actual.name}, expected {expected}"
  | unowned node kind => s!"anonymous {kind.name} #{node} has no owning declaration"
  | negativeBound node value context => s!"negative {context} {value} on node #{node}"
  | countOverflow node => s!"element count of array #{node} overflows"

/-- The process status that tells a refused tree from a failure of the generator. -/
def exitCode : Error → Nat
  | tree _ => 2
  | _ => 3

end Error

inductive Fault where
  | error (e : Error)
  | dangling (node : Nat)
  | exhausted
deriving DecidableEq, Repr

/-- A computation on a state `σ`, which keeps what was done to the state also if it stops. -/
abbrev Run (σ : Type) := EStateM Fault σ

instance {σ : Type} : MonadLift (Except Fault) (Run σ) where
  monadLift
    | .ok a => pure a
    | .error fault => throw fault

instance {σ : Type} : MonadLift (Except Error) (Run σ) where
  monadLift
    | .ok a => pure a
    | .error e => throw (.error e)

/-- The node at `id`, which has to exist. -/
def Tree.need (t : Tree) (id : Nat) : Except Fault Node :=
  match t.node? id with
  | some node => .ok node
  | none => .error (.dangling id)

end AdaStubs
