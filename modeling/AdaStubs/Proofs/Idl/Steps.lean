import Mathlib.Data.List.TakeWhile
import AdaStubs.Proofs.Idl.Arena

/-!
# What a step adds

A step that is accepted appends the node it asks for and enters it at the end of one list of its scope; nothing else
of the tree changes. One that is refused changes nothing. An enumeration is the exception to both: it goes on with its
enumerators, and one of them may be refused when others stand already.

Main statement: `step_appends_or_refuses`.
-/

namespace AdaStubs

/-- The node that a step asks for: what it is, and which list of which scope it joins. -/
structure Entry where
  listing : Listing
  scope : Nat
  name : String
  kind : Kind
deriving DecidableEq, Repr

def Entry.enumerator (enum : Nat) (name : String) : Entry := ⟨.member, enum, name, .enumerator⟩

namespace Step

/-- For an enumeration it is the enumeration itself. -/
def entry : Step → Entry
  | primitive p => ⟨.unlisted, Tree.root, p.idlName, .primitive p⟩
  | module scope name => ⟨.member, scope, name, .module⟩
  | interface scope name bases => ⟨.member, scope, name, .interface bases⟩
  | struct scope name => ⟨.member, scope, name, .struct⟩
  | exception scope name => ⟨.member, scope, name, .exception⟩
  | union scope name discriminant => ⟨.member, scope, name, .union discriminant⟩
  | branch scope name labels type => ⟨.member, scope, name, .branch labels type⟩
  | enum scope name _ => ⟨.member, scope, name, .enum⟩
  | typedef scope name base => ⟨.member, scope, name, .typedef base⟩
  | constant scope name type value => ⟨.member, scope, name, .constant type value⟩
  | field scope name type => ⟨.member, scope, name, .field type⟩
  | «attribute» scope name type readonly => ⟨.member, scope, name, .attribute type readonly⟩
  | operation scope name result oneway raises => ⟨.member, scope, name, .operation result oneway raises⟩
  | argument scope name direction type => ⟨.member, scope, name, .argument direction type⟩
  | array scope dims element => ⟨.anonymous, scope, "", .array dims element⟩
  | sequence scope element bound => ⟨.anonymous, scope, "", .sequence element bound⟩
  | string scope bound wide => ⟨.anonymous, scope, "", .string bound wide⟩
  | fixed scope digits scale => ⟨.anonymous, scope, "", .fixed digits scale⟩

def enumerators? : Step → Option (List String)
  | enum _ _ enumerators => some enumerators
  | _ => none

theorem eq_enum {s : Step} {names : List String} (isEnum : s.enumerators? = some names) :
    ∃ scope name, s = enum scope name names := by
  cases s with
  | enum scope name =>
    cases isEnum
    exact ⟨scope, name, rfl⟩
  | _ => cases isEnum

end Step

namespace Tree

/-- The tree `t'` is `t` with one more node, at the end. Of the nodes of `t` only the scope of the new one is changed,
and of that only the list that gains the new node as its last. -/
structure Appends (t t' : Tree) (e : Entry) : Prop where
  size_eq : t'.size = t.size + 1
  new : t'.node? t.size = some ⟨e.name, some e.scope, e.kind, [], []⟩
  host : ∃ outer, t.node? e.scope = some outer ∧ t'.node? e.scope = some
    { outer with
      members := outer.members ++ (if e.listing = .member then [t.size] else [])
      anonymous := outer.anonymous ++ (if e.listing = .anonymous then [t.size] else []) }
  frame : ∀ id < t.size, id ≠ e.scope → t'.node? id = t.node? id

/-- Nodes are appended one after the other. -/
inductive AppendsAll : Tree → Tree → List Entry → Prop
  | nil (t : Tree) : AppendsAll t t []
  | cons {t middle t' : Tree} {e : Entry} {rest : List Entry} (first : t.Appends middle e)
      (later : AppendsAll middle t' rest) : AppendsAll t t' (e :: rest)

variable {t t' : Tree}

/-! ## One node -/

theorem appends_add {listing : Listing} {scope : Nat} (inside : scope < t.size) {name : String} {kind : Kind} :
    t.Appends (t.add listing scope inside name kind) ⟨listing, scope, name, kind⟩ where
  size_eq := size_add
  new := node?_add_new
  host := by
    have found : t.node? scope = some _ := Array.getElem?_eq_getElem inside
    refine ⟨_, found, (node?_add_old found).trans ?_⟩
    cases listing <;> simp [joined, Listing.enter]
  frame id old other := by
    rw [node?_add, if_neg (Nat.ne_of_lt old), if_neg (Ne.symm other)]

theorem appends_declare {scope : Nat} {name : String} {kind : Kind} (accepted : t.declare scope name kind = .ok t') :
    t.Appends t' ⟨.member, scope, name, kind⟩ := by
  obtain ⟨outer, inside, -, -, rfl⟩ := declare_ok accepted
  exact appends_add inside

theorem appends_declareAnonymous {scope : Nat} {kind : Kind} (anonymous : kind.isAnonymous = true)
    (accepted : t.declareAnonymous scope kind = .ok t') : t.Appends t' ⟨.anonymous, scope, "", kind⟩ := by
  obtain ⟨outer, inside, -, -, rfl⟩ := declareAnonymous_ok anonymous accepted
  exact appends_add inside

theorem scopeFor_eq {scope : Nat} {outer : Node} (found : t.nodes[scope]? = some outer)
    (isScope : outer.kind.isScope = true) : t.scopeFor scope = .ok ⟨outer, found⟩ := by
  revert found
  unfold scopeFor
  generalize t.nodes[scope]? = looked
  intro found
  subst found
  exact if_pos isScope

theorem declare_in {scope : Nat} {outer : Node} (found : t.node? scope = some outer) {kind : Kind}
    (held : outer.kind.mayHold kind = true) (name : String) :
    t.declare scope name kind =
      if name = "" then .error (.emptyName kind scope)
      else .ok (t.add .member scope (lt_size_of_node? found) name kind) := by
  unfold declare
  rw [scopeFor_eq found (Kind.isScope_of_mayHold held)]
  by_cases empty : name = "" <;>
    simp [bind, Except.bind, pure, Except.pure, throw, throwThe, MonadExceptOf.throw, held, empty]

/-! ## Enumerators -/

/-- Enumerators are appended up to the first that has no name. -/
theorem appendsAll_declareAll {enum : Nat} (isEnum : t.kind? enum = some .enum) (names : List String) :
    t.AppendsAll (t.declareAll enum .enumerator names).2 ((names.takeWhile (· != "")).map (.enumerator enum)) ∧
      (t.declareAll enum .enumerator names).1 = if "" ∈ names then some (.emptyName .enumerator enum) else none := by
  induction names generalizing t with
  | nil => exact ⟨.nil t, rfl⟩
  | cons name names ih =>
    obtain ⟨outer, found, kind⟩ := Option.map_eq_some_iff.mp isEnum
    have held : outer.kind.mayHold .enumerator = true := by simp [kind, Kind.mayHold]
    rw [declareAll, declare_in found held]
    by_cases empty : name = ""
    · subst empty
      exact ⟨by simpa using .nil t, by simp⟩
    · have old : enum ≠ t.size := Nat.ne_of_lt (lt_size_of_node? found)
      obtain ⟨later, refusal⟩ := ih ((kind?_add_old old).trans isEnum)
      rw [if_neg empty]
      have first : t.Appends _ (.enumerator enum name) := appends_add (lt_size_of_node? found)
      exact ⟨by simpa [empty] using .cons first later, by simpa [Ne.symm empty] using refusal⟩

theorem addEnum_eq {scope : Nat} {name : String} {grown : Tree} (accepted : t.declare scope name .enum = .ok grown)
    (names : List String) : t.addEnum scope name names =
      ((grown.declareAll t.size .enumerator names).1.elim (.ok t.size) .error,
        (grown.declareAll t.size .enumerator names).2) := by
  rw [addEnum, accepted]
  dsimp only
  cases grown.declareAll t.size .enumerator names with
  | mk refusal rest => cases refusal <;> rfl

/-- Either the enumeration itself is refused, or it stands with its enumerators up to the first that has no name. -/
theorem addEnum_cases (scope : Nat) (name : String) (names : List String) :
    (∃ e, t.declare scope name .enum = .error e ∧ t.addEnum scope name names = (.error e, t)) ∨
    (∃ grown, t.declare scope name .enum = .ok grown) ∧
      t.AppendsAll (t.addEnum scope name names).2
        (⟨.member, scope, name, .enum⟩ :: (names.takeWhile (· != "")).map (.enumerator t.size)) ∧
      (t.addEnum scope name names).1 =
        if "" ∈ names then .error (.emptyName .enumerator t.size) else .ok t.size := by
  cases accepted : t.declare scope name .enum with
  | error e => exact .inl ⟨e, rfl, by rw [addEnum, accepted]⟩
  | ok grown =>
    have first := appends_declare accepted
    have isEnum : grown.kind? t.size = some .enum := by simp [kind?, first.new]
    obtain ⟨later, refusal⟩ := appendsAll_declareAll isEnum names
    rw [addEnum_eq accepted, refusal]
    refine .inr ⟨⟨grown, rfl⟩, .cons first later, ?_⟩
    split <;> rfl

/-! ## Steps -/

theorem addPrimitive_cases (p : Primitive) :
    (t.addPrimitive p).2 = t ∧ t.kind? (t.addPrimitive p).1 = some (.primitive p) ∨
      (t.addPrimitive p).1 = t.size ∧ t.Appends (t.addPrimitive p).2 (Step.primitive p).entry := by
  unfold addPrimitive
  cases known : t.primitive? p with
  | some id => exact .inl ⟨rfl, by simpa using List.find?_some known⟩
  | none => exact .inr ⟨rfl, appends_add t.root_lt⟩

theorem settle_cases {e : Entry} {result : Except BuildError Tree}
    (appends : ∀ {grown}, result = .ok grown → t.Appends grown e) :
    (∃ refusal, t.settle result = (.error refusal, t)) ∨
      (t.settle result).1 = .ok t.size ∧ t.Appends (t.settle result).2 e := by
  cases result with
  | ok grown => exact .inr ⟨rfl, appends rfl⟩
  | error refusal => exact .inl ⟨refusal, rfl⟩

theorem step_cases {s : Step} (single : s.enumerators? = none) :
    (∃ e, t.step s = (.error e, t)) ∨
    (∃ id p, s = .primitive p ∧ t.kind? id = some (.primitive p) ∧ t.step s = (.ok id, t)) ∨
    (t.step s).1 = .ok t.size ∧ t.Appends (t.step s).2 s.entry := by
  have named {scope : Nat} {name : String} {kind : Kind} :
      (∃ e, t.settle (t.declare scope name kind) = (.error e, t)) ∨
        (t.settle (t.declare scope name kind)).1 = .ok t.size ∧
          t.Appends (t.settle (t.declare scope name kind)).2 ⟨.member, scope, name, kind⟩ :=
    settle_cases appends_declare
  have nameless {scope : Nat} {kind : Kind} (anonymous : kind.isAnonymous = true) :
      (∃ e, t.settle (t.declareAnonymous scope kind) = (.error e, t)) ∨
        (t.settle (t.declareAnonymous scope kind)).1 = .ok t.size ∧
          t.Appends (t.settle (t.declareAnonymous scope kind)).2 ⟨.anonymous, scope, "", kind⟩ :=
    settle_cases (appends_declareAnonymous anonymous)
  cases s with
  | enum => cases single
  | primitive p =>
    rcases addPrimitive_cases (t := t) p with ⟨same, registered⟩ | ⟨new, appends⟩
    · exact .inr (.inl ⟨_, p, rfl, registered, Prod.ext rfl same⟩)
    · exact .inr (.inr ⟨congrArg Except.ok new, appends⟩)
  | array | sequence | string | fixed => exact (nameless rfl).imp_right .inr
  | _ => exact named.imp_right .inr

/-- A step that is accepted finds a primitive that the tree has already, or appends the node it asks for; an
enumeration appends its enumerators behind it. A step that is refused leaves the tree as it was, an enumeration with a
nameless enumerator leaves what comes before that. -/
theorem step_appends_or_refuses (t : Tree) (s : Step) :
    (∀ id t', t.step s = (.ok id, t') →
      (s.enumerators? = none →
        (∃ p, s = .primitive p ∧ t.kind? id = some (.primitive p) ∧ t' = t) ∨ id = t.size ∧ t.Appends t' s.entry) ∧
      ∀ names, s.enumerators? = some names →
        id = t.size ∧ t.AppendsAll t' (s.entry :: names.map (.enumerator t.size))) ∧
    (∀ e t', t.step s = (.error e, t') →
      (s.enumerators? = none → t' = t) ∧
      ∀ names, s.enumerators? = some names →
        t.declare s.entry.scope s.entry.name .enum = .error e ∧ t' = t ∨
        (∃ grown, t.declare s.entry.scope s.entry.name .enum = .ok grown) ∧ "" ∈ names ∧
          t.AppendsAll t' (s.entry :: (names.takeWhile (· != "")).map (.enumerator t.size))) := by
  refine ⟨fun id t' accepted => ⟨fun single => ?_, fun names isEnum => ?_⟩,
    fun e t' refused => ⟨fun single => ?_, fun names isEnum => ?_⟩⟩
  · rcases step_cases (t := t) single with ⟨e, refused⟩ | ⟨found, p, asked, registered, same⟩ | ⟨new, appends⟩
    · cases refused.symm.trans accepted
    · cases same.symm.trans accepted
      exact .inl ⟨p, asked, registered, rfl⟩
    · rw [accepted] at new appends
      exact .inr ⟨Except.ok.inj new, appends⟩
  · obtain ⟨scope, name, rfl⟩ := Step.eq_enum isEnum
    rcases addEnum_cases (t := t) scope name names with ⟨e, -, refused⟩ | ⟨-, appends, answer⟩
    · cases refused.symm.trans accepted
    · rw [show t.addEnum scope name names = _ from accepted] at appends answer
      split at answer
      · cases answer
      · next named =>
        have all : names.takeWhile (· != "") = names := by
          refine List.takeWhile_eq_self_iff.mpr fun enumerator listed => bne_iff_ne.mpr ?_
          rintro rfl
          exact named listed
        rw [all] at appends
        exact ⟨Except.ok.inj answer, appends⟩
  · rcases step_cases (t := t) single with ⟨e', same⟩ | ⟨found, p, asked, registered, same⟩ | ⟨new, -⟩
    · cases same.symm.trans refused
      rfl
    · cases same.symm.trans refused
    · rw [refused] at new
      cases new
  · obtain ⟨scope, name, rfl⟩ := Step.eq_enum isEnum
    rcases addEnum_cases (t := t) scope name names with ⟨e', rejected, same⟩ | ⟨stands, appends, answer⟩
    · cases same.symm.trans refused
      exact .inl ⟨rejected, rfl⟩
    · rw [show t.addEnum scope name names = _ from refused] at appends answer
      split at answer
      · next nameless => exact .inr ⟨stands, nameless, appends⟩
      · cases answer

/-- The third enumerator has no name: the enumeration stays with the first two. -/
theorem enumeration_stops_at_nameless :
    let t := ofSteps [.module 0 "M", .primitive .long]
    let stopped := t.step (.enum 1 "Colour" ["red", "green", "", "blue"])
    stopped.1 = .error (.emptyName .enumerator 3) ∧
      t.AppendsAll stopped.2 [⟨.member, 1, "Colour", .enum⟩, .enumerator 3 "red", .enumerator 3 "green"] := by
  intro t stopped
  have refused : stopped.1 = .error (.emptyName .enumerator 3) := by decide
  refine ⟨refused, ?_⟩
  have whole : stopped = (.error (.emptyName .enumerator 3), stopped.2) := by
    rw [← refused]
  obtain ⟨-, outcome⟩ := (step_appends_or_refuses t _).2 _ _ whole
  rcases outcome _ rfl with ⟨rejected, -⟩ | ⟨-, -, appends⟩
  · have stands : (t.declare 1 "Colour" .enum).isOk = true := by decide
    cases stands.symm.trans (congrArg Except.isOk rejected)
  · exact appends

end Tree

end AdaStubs
