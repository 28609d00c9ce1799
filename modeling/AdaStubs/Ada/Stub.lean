import AdaStubs.Ada.Declaration
import AdaStubs.Ada.Qualified
import AdaStubs.Settings

/-!
# Stubs

The subprograms that are written around the declarations of a package: bodies of a package's own
subprograms, call descriptors through which a client invokes an operation, and servants that a server
completes.
-/

namespace AdaStubs.Ada

/-! ## Package bodies -/

def membersBody (name : String) : Code :=
  subprogramBody (membersProfile name) "Get_Members" []
    (Code.line "Corba.Exceptions.Get_Members (From, To) ;")

def conversionBody (objectRef : String) : Code :=
  let object := packageOf objectRef
  subprogramBody (conversionProfile objectRef) "To_Ref" ["Result : Ref ;"]
    (Code.block s!"if {object}.Is_A (The_Ref, Repository_Id) then" "end if ;"
        (Code.lines [s!"{object}.Internal_Copy (The_Ref, Result) ;", "return Result ;"])
      ++ Code.line "raise Constraint_Error ;")

/-- A call with its arguments in brackets, which are left out if there are none. -/
def call (name : String) (arguments : List String) : String :=
  if arguments.isEmpty then name else name ++ " (" ++ ", ".intercalate arguments ++ ")"

namespace Subprogram

/-- What a client stub declares: its call descriptor, and a function its result. -/
def clientVariables (sp : Subprogram) (proxies : String) : List String :=
  s!"Opcd : {proxies}.{sp.proxyType} ;"
    :: if sp.isFunction then sp.result.toList.map fun r => s!"Result : {r.typeName} ;" else []

/-- A client stub makes a call descriptor, invokes it and reads the returned values back. -/
def clientStatements (sp : Subprogram) (proxies wrapper : String) : List String :=
  let target := if sp.isFunction then "Result" else "Returns"
  ["Opcd := " ++ call s!"{proxies}.Create" (sp.sent.map (·.name)) ++ " ;",
   s!"{wrapper}.Invoke (Self, Opcd) ;"]
    ++ (sp.parameters.filter (·.mode.isReturned)).map
      (fun p => s!"{p.name} := {proxies}.Get_{p.name} (Opcd) ;")
    ++ (if sp.result.isSome then [s!"{target} := {proxies}.Get_Result (Opcd) ;"] else [])
    ++ [s!"{proxies}.Free (Opcd) ;"]
    ++ if sp.isFunction then ["return Result ;"] else []

def clientBody (sp : Subprogram) (proxies wrapper : String) : Code :=
  subprogramBody sp.clientProfile sp.name (sp.clientVariables proxies)
    (Code.lines (sp.clientStatements proxies wrapper))

/-! ## Call descriptors -/

def createProfile (sp : Subprogram) : String :=
  let arguments := sp.sent.map fun p => s!"{p.name} : in {p.typeName}"
  if arguments.isEmpty then s!"function Create return {sp.proxyType}"
  else "function Create (" ++ " ; ".intercalate arguments ++ s!") return {sp.proxyType}"

def freeProfile (sp : Subprogram) : String := s!"procedure Free (Self : in out {sp.proxyType})"

def sizeProfile (sp : Subprogram) (r : RuntimeNames) : String :=
  s!"function Aligned_Size (Self : in {sp.proxyType} ; Size_In : in {r.sizeType}) return {r.sizeType}"

def sendProfile (sp : Subprogram) (r : RuntimeNames) : String :=
  s!"procedure Marshal_Arguments (Self : in {sp.proxyType} ; Giop_Client : in out {r.giopClient})"

def receiveProfile (sp : Subprogram) (r : RuntimeNames) : String :=
  s!"procedure Unmarshal_Returned_Values (Self : in out {sp.proxyType} ; Giop_Client : in {r.giopClient})"

def getProfile (sp : Subprogram) (p : Parameter) : String :=
  s!"function Get_{p.name} (Self : in {sp.proxyType}) return {p.typeName}"

def descriptor (sp : Subprogram) (r : RuntimeNames) : Code :=
  Code.line s!"type {sp.proxyType} is new {r.proxyBase} with private ;"
    ++ Code.lines
      (([sp.createProfile, sp.freeProfile, sp.sizeProfile r, sp.sendProfile r, sp.receiveProfile r]
          ++ sp.returned.map sp.getProfile).map (· ++ " ;"))
    ++ Code.blank

/-- A descriptor holds the values of a call through handles, all empty at first. -/
def descriptorRecord (sp : Subprogram) (r : RuntimeNames) : Code :=
  recordCode s!"type {sp.proxyType} is new {r.proxyBase} with"
      (sp.held.map fun p => s!"{p.name} : {p.typeName}_Ptr := null ;")
    ++ Code.blank

def createBody (sp : Subprogram) : Code :=
  subprogramBody sp.createProfile "Create" [s!"Result : {sp.proxyType} ;"]
    (Code.lines
      (sp.sent.map (fun p => s!"Result.{p.name} := new {p.typeName}'({p.name}) ;") ++ ["return Result ;"]))

def freeBody (sp : Subprogram) : Code :=
  subprogramBody sp.freeProfile "Free" []
    (Code.lines (orNull (sp.held.map fun p => sibling p.typeName "Free" ++ s!" (Self.{p.name}) ;")))

def sizeBody (sp : Subprogram) (r : RuntimeNames) : Code :=
  subprogramBody (sp.sizeProfile r) "Aligned_Size" [s!"Msg_Size : {r.sizeType} := Size_In ;"]
    (Code.lines
      (sp.sent.map (fun p => s!"Msg_Size := Align_Size (Self.{p.name}.all, Msg_Size) ;")
        ++ ["return Msg_Size ;"]))

def sendBody (sp : Subprogram) (r : RuntimeNames) : Code :=
  subprogramBody (sp.sendProfile r) "Marshal_Arguments" []
    (Code.lines (orNull (sp.sent.map fun p => s!"Marshall (Self.{p.name}.all, Giop_Client) ;")))

def receiveBody (sp : Subprogram) (r : RuntimeNames) : Code :=
  subprogramBody (sp.receiveProfile r) "Unmarshal_Returned_Values"
    (sp.returned.map fun p => s!"Tmp_{p.name} : {p.typeName} ;")
    (Code.lines
      (orNull
        (sp.returned.flatMap fun p =>
          [s!"UnMarshall (Tmp_{p.name}, Giop_Client) ;",
           s!"Self.{p.name} := new {p.typeName}'(Tmp_{p.name}) ;"])))

def getBody (sp : Subprogram) (p : Parameter) : Code :=
  subprogramBody (sp.getProfile p) s!"Get_{p.name}" [] (Code.line s!"return Self.{p.name}.all ;")

def descriptorBodies (sp : Subprogram) (r : RuntimeNames) : Code :=
  sp.createBody ++ sp.freeBody ++ sp.sizeBody r ++ sp.sendBody r ++ sp.receiveBody r
    ++ sp.returned.flatMap sp.getBody

/-! ## Servants -/

/-- A servant does nothing yet; a function returns a result as it is by default. -/
def servantBody (sp : Subprogram) : Code :=
  match sp.result, sp.isFunction with
  | some result, true =>
    subprogramBody sp.servantProfile sp.name [s!"Result : {result.typeName} ;"]
      (Code.line "return Result ;")
  | _, _ => subprogramBody sp.servantProfile sp.name [] (Code.line "null ;")

end Subprogram

/-! ## Dispatch -/

/-- The entry of a dispatch procedure for one operation. -/
def dispatchEntry (wireName : String) : Code :=
  Code.block s!"if Orl_Op = \"{wireName}\" then" "end if ;"
    (Code.lines ["Returns := True ;", "return ;"])

inductive Stub where
  | members (name : String)
  | conversion (objectRef : String)
  | clients (proxies wrapper : String) (subprograms : List Subprogram)
  | descriptors (subprograms : List Subprogram)
  | descriptorRecords (subprograms : List Subprogram)
  | descriptorBodies (subprograms : List Subprogram)
  | servantType (parent : String)
  | servantRecord (parent : String)
  | servants (subprograms : List Subprogram)
  | servantBodies (subprograms : List Subprogram)
  | dispatch (wireNames : List String)
deriving DecidableEq, Repr

def Stub.code (s : Stub) (r : RuntimeNames) : Code :=
  match s with
  | members name => membersBody name
  | conversion objectRef => conversionBody objectRef
  | clients proxies wrapper subprograms => subprograms.flatMap (·.clientBody proxies wrapper)
  | descriptors subprograms => subprograms.flatMap (·.descriptor r)
  | descriptorRecords subprograms => subprograms.flatMap (·.descriptorRecord r)
  | descriptorBodies subprograms => subprograms.flatMap (·.descriptorBodies r)
  | servantType parent => Code.line s!"type Object is new {parent} with private ;" ++ Code.blank
  | servantRecord parent => Code.line s!"type Object is new {parent} with null record ;" ++ Code.blank
  | servants subprograms => Code.lines (subprograms.map (·.servantProfile ++ " ;")) ++ Code.blank
  | servantBodies subprograms => subprograms.flatMap (·.servantBody)
  | dispatch wireNames => wireNames.flatMap dispatchEntry

end AdaStubs.Ada
