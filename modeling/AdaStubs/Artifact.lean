import AdaStubs.Ada.Identifier
import AdaStubs.Ada.Item
import AdaStubs.Dependencies

/-!
# Artifacts

An artifact is one Ada source file of a unit: the specification or the body of its package or of one of
the child packages, or the procedure that dispatches requests.
-/

namespace AdaStubs

open Ada

inductive ArtifactKind where
  | spec
  | body
  | marshalSpec
  | marshalBody
  | proxiesSpec
  | proxiesBody
  | implSpec
  | implBody
  | skeleton
deriving DecidableEq, Repr

namespace ArtifactKind

def all : List ArtifactKind :=
  [spec, body, marshalSpec, marshalBody, proxiesSpec, proxiesBody, implSpec, implBody, skeleton]

/-- The last part of a child unit's name. -/
def child? : ArtifactKind → Option String
  | spec | body => none
  | marshalSpec | marshalBody => some "Marshal"
  | proxiesSpec | proxiesBody => some "Proxies"
  | implSpec | implBody => some "Impl"
  | skeleton => some "Skeleton"

def isBody : ArtifactKind → Bool
  | body | marshalBody | proxiesBody | implBody | skeleton => true
  | _ => false

def unitName (kind : ArtifactKind) (unit : String) : String :=
  match kind.child? with
  | some child => s!"{unit}.{child}"
  | none => unit

/-- Small letters, with hyphens for points, as the compiler looks for it. -/
def fileName (kind : ArtifactKind) (unit : String) : String :=
  let stem := (fold (kind.unitName unit)).map fun c => if c == '.' then '-' else c
  stem ++ if kind.isBody then ".adb" else ".ads"

end ArtifactKind

/-- A context clause, which may also make the package's declarations visible. -/
structure Clause where
  package : String
  isUsed : Bool
deriving DecidableEq, Repr

def Clause.text (c : Clause) : String :=
  if c.isUsed then s!"with {c.package} ; use {c.package} ;\n" else s!"with {c.package} ;\n"

inductive Content where
  /-- A package with its context clauses, items and private part. -/
  | package (clauses : List Clause) (items hidden : List Item)
  /-- A procedure with an entry for each attribute and operation. -/
  | dispatcher (entries : List Item)
deriving DecidableEq, Repr

structure Artifact where
  kind : ArtifactKind
  /-- The name of the unit's package. -/
  unit : String
  content : Content
  /-- What the artifact refers to outside its unit. -/
  deps : Dependencies
deriving DecidableEq, Repr

namespace Artifact

def unitName (a : Artifact) : String := a.kind.unitName a.unit

def fileName (a : Artifact) : String := a.kind.fileName a.unit

def packageText (settings : Settings) (kind : ArtifactKind) (name : String) (clauses : List Clause)
    (items hidden : List Item) : String :=
  String.join (clauses.map (·.text))
    ++ (if clauses.isEmpty then "" else "\n")
    ++ (if kind.isBody then "package body" else "package") ++ s!" {name} is\n\n"
    ++ itemsText settings items
    ++ (if hidden.isEmpty then "" else "private\n\n" ++ itemsText settings hidden)
    ++ s!"end {name} ;\n"

/-- The procedure answers whether it knows the requested operation. -/
def dispatcherCode (runtime : RuntimeNames) (name : String) (entries : List Item) : Code :=
  Code.lines [s!"with {packageOf runtime.giopServer} ;", "with Corba ;", ""]
    ++ Code.line (s!"procedure {name} (Orl_Op : in Standard.String ; Orls : in out {runtime.giopServer} ; "
      ++ "Orl_Response_Expected : in Corba.Boolean ; Returns : out Corba.Boolean) is")
    ++ Code.line "begin"
    ++ Code.nest (entries.flatMap (·.code runtime) ++ Code.line "Returns := False ;")
    ++ Code.line s!"end {name} ;"

def text (a : Artifact) (settings : Settings) : String :=
  match a.content with
  | .package clauses items hidden => packageText settings a.kind a.unitName clauses items hidden
  | .dispatcher entries =>
    Code.render (dispatcherCode settings.runtime a.unitName entries) settings.indent 0

end Artifact

/-- The artifacts of a module, an interface or the root package. -/
structure UnitOutput where
  node : Nat
  name : String
  artifacts : List Artifact
deriving DecidableEq, Repr

def UnitOutput.artifact? (u : UnitOutput) (kind : ArtifactKind) : Option Artifact :=
  u.artifacts.find? (·.kind == kind)

end AdaStubs
