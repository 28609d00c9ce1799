import AdaStubs.Emission.Stubs

/-!
# Calls on a session

Everything a session can be asked for, as data: histories of a session are lists of calls. A call that
writes leaves its text on a sheet; a call that fails leaves the sheet as it was, and the session with what
was recorded and hoisted up to the failure.
-/

namespace AdaStubs

open Ada

inductive Call where
  | nameType (node : Nat)
  | nameCodec (node : Nat)
  | declaration (node : Nat)
  | marshalProfiles (node : Nat)
  | marshalBody (node : Nat)
  | body (node : Nat)
  | descriptors (node : Nat)
  | descriptorBodies (node : Nat)
  | servants (node : Nat)
  | servantBodies (node : Nat)
  | dispatchEntries (node : Nat)
  | servantParent (node : Nat)
  | subprograms (node : Nat)
  | wireNames (node : Nat)
  | isFixedSize (node : Nat)
  | arrayPlan (node : Nat)
  | takeDeclared
deriving DecidableEq, Repr

inductive Reply where
  | name (text : String)
  | written (items hidden : List Item)
  | subprograms (list : List Subprogram)
  | wireNames (names : List String)
  | fixedSize (fixed : Bool)
  | plan (p : ArrayPlan)
  | declared (nodes : List Nat)
deriving DecidableEq, Repr

namespace Reply

/-- What goes to the visible part of the artifact. -/
def items : Reply → List Item
  | written items _ => items
  | _ => []

/-- What goes to its private part. -/
def hidden : Reply → List Item
  | written _ hidden => hidden
  | _ => []

end Reply

namespace Call

def perform (ctx : Context) : Call → Emit Reply
  | nameType node => return .name (← Emit.nameType ctx node)
  | nameCodec node => return .name (← Emit.nameCodec ctx node)
  | declaration node => return .written (← Emit.declaration ctx node) []
  | marshalProfiles node => return .written (← Emit.marshalProfiles ctx node) []
  | marshalBody node => return .written (← Emit.marshalBody ctx node) []
  | body node => return .written (← Emit.body ctx node) []
  | descriptors node => do
    let (items, hidden) ← Emit.descriptors ctx node
    return .written items hidden
  | descriptorBodies node => return .written (← Emit.descriptorBodies ctx node) []
  | servants node => return .written (← Emit.servants ctx node) []
  | servantBodies node => return .written (← Emit.servantBodies ctx node) []
  | dispatchEntries node => return .written (← Emit.dispatchEntries ctx node) []
  | servantParent node => return .name (← Emit.servantParent ctx node)
  | subprograms node => return .subprograms (← Emit.subprogramsOf ctx node)
  | wireNames node => return .wireNames (← Emit.wireNames ctx node)
  | isFixedSize node => return .fixedSize (← Emit.isFixedSize ctx node)
  | arrayPlan node => return .plan (← Emit.arrayPlan ctx node)
  | takeDeclared => return .declared (← Emit.takeDeclared)

end Call

/-- The text of an artifact under construction. -/
structure Sheet where
  body : Writer
  hidden : Writer
deriving DecidableEq, Repr

namespace Sheet

/-- An empty sheet inside a package. -/
def blank (settings : Settings) : Sheet := ⟨.start settings.indent 1, .start settings.indent 1⟩

def add (sheet : Sheet) (runtime : RuntimeNames) (reply : Reply) : Sheet :=
  ⟨sheet.body.write (reply.items.flatMap (·.code runtime)),
    sheet.hidden.write (reply.hidden.flatMap (·.code runtime))⟩

end Sheet

/-- Performs a call and puts what it writes on the sheet. -/
def Call.write (ctx : Context) (call : Call) : Run (Session × Sheet) Reply := fun (session, sheet) =>
  match call.perform ctx session with
  | .ok reply after => .ok reply (after, sheet.add ctx.settings.runtime reply)
  | .error fault after => .error fault (after, sheet)

end AdaStubs
