/-!
# Settings

What a caller chooses for a run: layout, the names of the runtime library, and what is generated.
-/

namespace AdaStubs

/-- Entities of the Ada runtime library that generated code refers to. -/
structure RuntimeNames where
  streamPackage : String := "Netbufferedstream"
  sizeType : String := "Corba.Unsigned_Long"
  proxyBase : String := "OmniProxyCallDesc.Object"
  giopClient : String := "Giop_C.Object"
  giopServer : String := "Giop_S.Object"
  callWrapper : String := "OmniProxyCallWrapper"
  objectRef : String := "Corba.Object.Ref"
  implementationBase : String := "Omniobject.Implemented_Object"
  exceptionMembers : String := "Corba.Idl_Exception_Members"
deriving DecidableEq, Repr

/-- Every stream a value may be marshalled to. -/
def RuntimeNames.streamClass (r : RuntimeNames) : String := s!"{r.streamPackage}.Object'Class"

structure Settings where
  indent : Nat := 3
  rootPackage : String := "IDL_File"
  runtime : RuntimeNames := {}
  /-- Names anonymous types that no declaration owns; without it they are refused. -/
  placeholder : Option String := none
  implementation : Bool := true
  skeletons : Bool := true
  /-- Declarations that exist already and are named in full. -/
  imports : List Nat := []
deriving DecidableEq, Repr

def Settings.withImport (s : Settings) (node : Nat) : Settings :=
  if s.imports.contains node then s else { s with imports := s.imports ++ [node] }

end AdaStubs
