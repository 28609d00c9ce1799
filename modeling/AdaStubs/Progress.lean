/-!
# Progress

Which declarations and which marshalling bodies have been written or found to exist elsewhere, and which
are being written. Only the last mark is ever taken back.
-/

namespace AdaStubs

structure Flags where
  defined : Bool
  imported : Bool
  marshalDefined : Bool
  marshalImported : Bool
deriving DecidableEq, Repr

structure Progress where
  defined : List Nat
  imported : List Nat
  marshalDefined : List Nat
  marshalImported : List Nat
  /-- Declarations or marshalling bodies that have been begun and not ended. -/
  busy : List Nat
deriving DecidableEq, Repr

namespace Progress

def empty : Progress := ⟨[], [], [], [], []⟩

def isDefined (p : Progress) (node : Nat) : Bool := p.defined.contains node

def isMarshalDefined (p : Progress) (node : Nat) : Bool := p.marshalDefined.contains node

def isBusy (p : Progress) (node : Nat) : Bool := p.busy.contains node

def flags (p : Progress) (node : Nat) : Flags :=
  ⟨p.defined.contains node, p.imported.contains node, p.marshalDefined.contains node,
    p.marshalImported.contains node⟩

def markDefined (p : Progress) (node : Nat) : Progress :=
  { p with defined := p.defined.insert node }

def markImported (p : Progress) (node : Nat) : Progress :=
  { p with imported := p.imported.insert node }

def markMarshalDefined (p : Progress) (node : Nat) : Progress :=
  { p with marshalDefined := p.marshalDefined.insert node }

def markMarshalImported (p : Progress) (node : Nat) : Progress :=
  { p with marshalImported := p.marshalImported.insert node }

/-- Marks `node` as being written. -/
def enter (p : Progress) (node : Nat) : Progress := { p with busy := p.busy.insert node }

def leave (p : Progress) (node : Nat) : Progress := { p with busy := p.busy.erase node }

end Progress

end AdaStubs
