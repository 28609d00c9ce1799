import AdaStubs.Idl.Primitive

/-!
# Subprograms of an interface

An operation becomes one Ada subprogram, an attribute one for reading and, unless it is readonly, one for
writing. A parameter names its type as the artifact sees it that the subprogram is written for.
-/

namespace AdaStubs.Ada

structure Parameter where
  name : String
  mode : Direction
  typeName : String
  /-- The type's place in the tree. -/
  type : Nat
deriving DecidableEq, Repr

structure Subprogram where
  name : String
  /-- The operation's name in a request. -/
  wireName : String
  parameters : List Parameter
  result : Option Parameter
  oneway : Bool
deriving DecidableEq, Repr

namespace Subprogram

/-- An Ada function has no `out` parameters, so an operation with a result and returned parameters is a
procedure with one more parameter at the end. -/
def isFunction (sp : Subprogram) : Bool :=
  sp.result.isSome && !sp.parameters.any (·.mode.isReturned)

/-- The parameters that stand in every profile, after `this`. -/
def formals (sp : Subprogram) (this : String) : List String :=
  this :: sp.parameters.map fun p => s!"{p.name} : {p.mode.adaMode} {p.typeName}"

def profile (sp : Subprogram) (this : String) : String :=
  match sp.result with
  | some result =>
    if sp.isFunction then
      s!"function {sp.name} (" ++ " ; ".intercalate (sp.formals this) ++ s!") return {result.typeName}"
    else
      s!"procedure {sp.name} ("
        ++ " ; ".intercalate (sp.formals this ++ [s!"Returns : out {result.typeName}"]) ++ ")"
  | none => s!"procedure {sp.name} (" ++ " ; ".intercalate (sp.formals this) ++ ")"

def clientProfile (sp : Subprogram) : String := sp.profile "Self : in Ref"

def servantProfile (sp : Subprogram) : String := sp.profile "Self : access Object"

/-- The type of call descriptors. -/
def proxyType (sp : Subprogram) : String := s!"{sp.name}_Proxy"

/-- What the client sends. -/
def sent (sp : Subprogram) : List Parameter := sp.parameters.filter (·.mode.isSent)

/-- What the server sends back, the result first. -/
def returned (sp : Subprogram) : List Parameter :=
  sp.result.toList ++ sp.parameters.filter (·.mode.isReturned)

/-- What a call descriptor holds: the parameters, then the result. -/
def held (sp : Subprogram) : List Parameter := sp.parameters ++ sp.result.toList

end Subprogram

end AdaStubs.Ada
