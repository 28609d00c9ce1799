import AdaStubs.Ada.Codec
import AdaStubs.Ada.Stub

/-!
# Items

The parts an artifact is put together from, each with the declaration it is written for.
-/

namespace AdaStubs.Ada

inductive Item where
  | declaration (node : Nat) (d : Declaration)
  | profiles (node : Nat) (type : String)
  | codec (node : Nat) (c : Codec)
  | stub (node : Nat) (s : Stub)
deriving DecidableEq, Repr

namespace Item

def node : Item → Nat
  | declaration node _ | profiles node _ | codec node _ | stub node _ => node

def code (i : Item) (r : RuntimeNames) : Code :=
  match i with
  | declaration _ d => d.code
  | profiles _ type => (Profiles.ofType r type).code
  | codec _ c => c.code r
  | stub _ s => s.code r

end Item

/-- The text of items that stand in a package. -/
def itemsText (settings : Settings) (items : List Item) : String :=
  Code.render (items.flatMap (·.code settings.runtime)) settings.indent 1

end AdaStubs.Ada
