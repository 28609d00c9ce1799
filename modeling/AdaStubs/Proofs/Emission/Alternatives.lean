import Mathlib.Data.List.Count
import Mathlib.Data.List.Forall2
import AdaStubs.Proofs.Emission.Composites
import AdaStubs.Proofs.Naming.Qualified

/-!
# The alternative for all other values

Ada has the choice `others` once in a case, in the last alternative. The alternatives for a union stand in the order
of its branches, and one for the other values is added at the end where no branch has it. So the case is legal if the
default branch, where there is one, is the last, and only then.

Main statement: `others_last_iff_default_last`.
-/

namespace AdaStubs

open Ada Run

/-! ## Alternatives in the text -/

/-- The lines of `code` that are not nested in it. -/
def Code.heads (code : Code) : List String := (code.filter (·.depth == 0)).map (·.text)

namespace Ada

/-- The choice `others` stands in one of the alternatives, which is the last. -/
def OthersLast (alternatives : Code) : Prop :=
  alternatives.heads.count "when others =>" = 1 ∧ alternatives.heads.getLast? = some "when others =>"

instance (alternatives : Code) : Decidable (OthersLast alternatives) :=
  inferInstanceAs (Decidable (_ ∧ _))

/-- The declaration is a record with a variant part. -/
def Declaration.HasVariantPart (d : Declaration) (alternatives : Code) : Prop :=
  ∃ name switch : String, d.code =
    Code.block s!"type {name} (Switch : {switch} := {switch}'First) is record" "end record ;"
        (Code.block "case Switch is" "end case ;" alternatives) ++
      accessType name ++ Code.blank

/-- Each of the three bodies has a case statement. -/
def Codec.HasCases (c : Codec) (r : RuntimeNames) (marshal unmarshal size : Code) : Prop :=
  ∃ type switch : String, c.code r =
    subprogramBody (Profiles.ofType r type).marshal "Marshall" []
        (Code.line "Marshall (A.Switch, S) ;" ++ Code.block "case A.Switch is" "end case ;" marshal) ++
      subprogramBody (Profiles.ofType r type).unmarshal "UnMarshall" [s!"Switch : {switch} ;"]
        (Code.lines ["UnMarshall (Switch, S) ;", "declare"] ++ (Code.line s!"Tmp : {type} (Switch) ;").nest ++
          Code.line "begin" ++
          (Code.block "case Switch is" "end case ;" unmarshal ++ Code.line "A := Tmp ;").nest ++
          Code.line "end ;") ++
      subprogramBody (Profiles.ofType r type).size "Align_Size" [sizeVariable r.sizeType]
        (forEachValue (Code.line "Tmp := Align_Size (A.Switch, Tmp) ;" ++
          Code.block "case A.Switch is" "end case ;" size) ++
          Code.line "return Tmp ;")

/-- The line that opens an alternative. -/
def alternativeHead (choices : String) : String := s!"when {choices} =>"

/-- The alternatives of a case as they are written. -/
def alternativesCode (alternatives : List (String × String)) : Code :=
  alternatives.flatMap fun (choices, inside) => Code.line (alternativeHead choices) ++ (Code.line inside).nest

theorem Declaration.hasVariantPart_union (name switch : String) (variants : List Variant) :
    (union name switch variants).HasVariantPart (alternativesCode (alternatives variants (·.declaration))) :=
  ⟨name, switch, rfl⟩

theorem Codec.hasCases_union (r : RuntimeNames) (type switch : String) (variants : List Variant) :
    (union type switch variants).HasCases r
      (alternativesCode (alternatives variants fun c => s!"Marshall (A.{c.name}, S) ;"))
      (alternativesCode (alternatives variants fun c => s!"UnMarshall (Tmp.{c.name}, S) ;"))
      (alternativesCode (alternatives variants fun c => s!"Tmp := Align_Size (A.{c.name}, Tmp) ;")) :=
  ⟨type, switch, rfl⟩

theorem alternativeHead_injective : Function.Injective alternativeHead := by
  intro a b same
  have text : ("when " ++ a ++ " =>").toList = ("when " ++ b ++ " =>").toList := congrArg String.toList same
  simpa only [String.toList_append, List.append_cancel_right_eq, List.append_cancel_left_eq, String.toList_inj]
    using text

theorem heads_alternativesCode (alternatives : List (String × String)) :
    (alternativesCode alternatives).heads = (alternatives.map (·.1)).map alternativeHead := by
  induction alternatives with
  | nil => rfl
  | cons alternative alternatives ih =>
    unfold Code.heads alternativesCode at ih ⊢
    rw [List.flatMap_cons, List.filter_append, List.map_append, ih]
    rfl

theorem choices_alternatives (variants : List Variant) (inside : Component → String) :
    (alternatives variants inside).map (·.1) =
      variants.map (·.choices) ++ if others ∈ variants.map (·.choices) then [] else [others] := by
  have taken : variants.any (·.choices == others) = true ↔ others ∈ variants.map (·.choices) := by
    simp
  simp only [alternatives, taken, List.map_append, List.map_map]
  split <;> rfl

/-- An element that is added at the end where it is missing. -/
theorem count_eq_one_and_last_iff {α : Type} [DecidableEq α] (a : α) (l : List α) :
    let filled := l ++ if a ∈ l then [] else [a]
    filled.count a = 1 ∧ filled.getLast? = some a ↔ a ∉ l.dropLast := by
  intro filled
  by_cases listed : a ∈ l
  · have whole : filled = l := by simp [filled, listed]
    obtain ⟨front, last, rfl⟩ := (List.eq_nil_or_concat l).resolve_left (List.ne_nil_of_mem listed)
    rw [whole, List.concat_eq_append, List.dropLast_concat, List.getLast?_concat, List.count_append]
    constructor
    · rintro ⟨once, ends⟩
      cases ends
      rw [List.count_singleton_self] at once
      exact List.count_eq_zero.mp (Nat.succ.inj once)
    · intro absent
      obtain rfl : a = last := by simpa [absent] using listed
      rw [List.count_singleton_self, List.count_eq_zero.mpr absent]
      exact ⟨rfl, rfl⟩
  · have absent : a ∉ l.dropLast := fun front => listed (List.dropLast_subset l front)
    simp [filled, listed, absent, List.count_eq_zero.mpr listed]

theorem othersLast_iff (variants : List Variant) (inside : Component → String) :
    OthersLast (alternativesCode (alternatives variants inside)) ↔
      ∀ v ∈ variants.dropLast, v.choices ≠ others := by
  have opening : "when others =>" = alternativeHead others := rfl
  have last (l : List String) : (l.map alternativeHead).getLast? = some (alternativeHead others) ↔
      l.getLast? = some others := by
    simp [alternativeHead_injective.eq_iff]
  unfold OthersLast
  rw [heads_alternativesCode, opening, List.count_map_of_injective _ _ alternativeHead_injective, last,
    choices_alternatives]
  refine (count_eq_one_and_last_iff others _).trans ?_
  rw [← List.map_dropLast, List.mem_map]
  simp only [not_exists, not_and, ne_eq]

/-! ## Other texts -/

theorem ne_others_of_mem {text : String} {c : Char} (listed : c ∈ text.toList) (foreign : c ∉ others.toList) :
    text ≠ others := by
  rintro rfl
  exact foreign listed

/-- A reserved word is not left as it is. -/
theorem identifier_ne_others (idl : String) : identifier idl ≠ others := by
  simp only [identifier]
  split
  · exact ne_others_of_mem (c := '_') (by simp) (by decide)
  · next unreserved =>
    intro same
    have folded : fold others = others := fold_eq_iff.mpr (by decide)
    rw [same, isReserved, folded] at unreserved
    exact unreserved (by decide)

theorem natural_ne_others (n : Nat) : toString n ≠ others := by
  intro same
  have letter : 'o' ∈ Nat.toDigits 10 n := by
    have digits : (toString n).toList = Nat.toDigits 10 n := by simp
    rw [← digits, same]
    decide
  have digit := Nat.isDigit_of_mem_toDigits (by decide) (by decide) letter
  exact absurd digit (by decide)

theorem integer_ne_others (n : Int) : toString n ≠ others := by
  cases n with
  | ofNat n => exact natural_ne_others n
  | negSucc n =>
    have text : toString (Int.negSucc n) = "-" ++ toString (n + 1) := rfl
    rw [text]
    exact ne_others_of_mem (c := '-') (by simp) (by decide)

theorem point_mem_magnitudeLiteral (x : Decimal.Binary) : '.' ∈ (magnitudeLiteral x).toList := by
  unfold magnitudeLiteral
  split
  · simp
  · dsimp only
    split
    · unfold positional
      split <;> simp
    · simp [scientific]

theorem real_ne_others (x : Decimal.Ieee) : realLiteral x ≠ others := by
  refine ne_others_of_mem (c := '.') ?_ (by decide)
  cases x with
  | nan => simp [realLiteral]
  | infinite negative => cases negative <;> simp [realLiteral]
  | finite negative x =>
    rw [realLiteral, String.toList_append]
    exact List.mem_append_right _ (point_mem_magnitudeLiteral x)

theorem char_ne_others (type : String) (c : Char) : charLiteral type c ≠ others := by
  unfold charLiteral
  split
  · exact ne_others_of_mem (c := Char.ofNat 39) (by simp) (by decide)
  · exact ne_others_of_mem (c := 'V') (by simp [toString]) (by decide)

theorem choiceList_ne_others {texts : List String} (each : ∀ text ∈ texts, text ≠ others) :
    " | ".intercalate texts ≠ others := by
  cases texts with
  | nil => decide
  | cons first rest =>
    cases rest with
    | nil =>
      rw [String.intercalate_singleton]
      exact each first List.mem_cons_self
    | cons second rest =>
      rw [String.intercalate_cons_cons]
      exact ne_others_of_mem (c := '|') (by simp) (by decide)

end Ada

/-! ## Names -/

/-- What is called `others` cannot be taken for the enumerator `e`: that is an enumerator indeed, or the settings make
no name of the word. -/
def Context.Discerns (ctx : Context) (e : Nat) : Prop :=
  ctx.tree.kind? e = some .enumerator ∨
    ctx.settings.rootPackage ≠ others ∧ ctx.settings.placeholder ≠ some others

instance (ctx : Context) (e : Nat) : Decidable (ctx.Discerns e) := inferInstanceAs (Decidable (_ ∨ _))

theorem Namespace.spells_ne_others (t : Tree) (placeholder : Option String) (free : placeholder ≠ some others) :
    Spells t placeholder (· ≠ others) where
  declared _ := identifier_ne_others _
  placeholder name given same := free (by rw [given, same])
  numbered k _ := ne_others_of_mem (c := '_') (by simp [toList_numbered]) (by decide)
  suffixed kind _ := by
    refine ne_others_of_mem (c := '_') ?_ (by decide)
    rw [String.toList_append]
    refine List.mem_append_right _ ?_
    unfold Kind.suffix
    split <;> simp

namespace NameTable

variable {ctx : Context} {e : Nat} {name : String} (wf : ctx.tree.WellFormed) (discerned : ctx.Discerns e)
include wf discerned

theorem fixedName?_ne_others {kind : Kind} (fixed : fixedName? ctx e kind = some name) : name ≠ others := by
  unfold fixedName? at fixed
  split at fixed
  · next p =>
    cases fixed
    cases p <;> decide
  · split at fixed
    · next top =>
      cases fixed
      rw [beq_iff_eq.mp top] at discerned
      rcases discerned with enumerator | ⟨free, -⟩
      · obtain ⟨present, first, -, module⟩ := wf.root_node
        rw [Tree.kind?_eq first, module] at enumerator
        cases enumerator
      · exact free
    · unfold Kind.runtimeString? at fixed
      split at fixed
      · next wide _ =>
        cases fixed
        cases wide <;> decide
      · cases fixed

theorem localResult_ne_others (given : localResult ctx e = .ok name) : name ≠ others := by
  obtain ⟨node, found⟩ := exists_of_localResult given
  cases fixed : fixedName? ctx e node.kind with
  | some text =>
    cases (localResult_of_fixed found fixed).symm.trans given
    exact fixedName?_ne_others wf discerned fixed
  | none =>
    have lives : Lives ctx e node := ⟨found, fixed⟩
    rcases discerned with enumerator | ⟨-, free⟩
    · have kind : node.kind = .enumerator := Option.some.inj ((Tree.kind?_eq found).symm.trans enumerator)
      have named : node.kind.isAnonymous = false := by rw [kind]; rfl
      have kept := lives.name?_of_result given
      rw [assigned, Namespace.name?_assign_of_named wf found named] at kept
      -- A placeholder is of no account before the anonymous types are served.
      exact Namespace.spelled_declared (Namespace.spells_ne_others ctx.tree none (by simp)) _ e name kept
    · exact lives.spelled (Namespace.spells_ne_others ctx.tree _ free) given

theorem fullResult_ne_others (given : fullResult ctx e = .ok name) : name ≠ others := by
  obtain ⟨node, own, -, ownGiven, ⟨-, rfl⟩ | ⟨-, outer, -, rfl⟩⟩ := fullResult_ok given
  · exact localResult_ne_others wf discerned ownGiven
  · exact ne_others_of_mem (c := '.') (by simp) (by decide)

end NameTable

/-! ## Choices -/

theorem Run.Yields.mapM_forall₂ {σ α β : Type} {P : σ → Prop} {R : α → β → Prop} {f : α → Run σ β} {l : List α}
    (each : ∀ x ∈ l, (f x).Yields P (R x)) : (l.mapM f).Yields P (List.Forall₂ R l) := by
  induction l with
  | nil => exact .pure .nil
  | cons x l ih =>
    rw [List.mapM_cons]
    refine .bind (each x List.mem_cons_self) fun b head => ?_
    refine .bind (ih fun y listed => each y (List.mem_cons_of_mem _ listed)) fun rest tail => ?_
    exact .pure (.cons head tail)

theorem forall_of_forall₂ {α β : Type} {P : α → Prop} {Q : β → Prop} {l : List α} {l' : List β}
    (related : List.Forall₂ (fun a b => P a → Q b) l l') (each : ∀ a ∈ l, P a) : ∀ b ∈ l', Q b := by
  induction related with
  | nil => simp
  | cons head _ ih =>
    rw [List.forall_mem_cons] at each ⊢
    exact ⟨head each.1, ih each.2⟩

/-- No enumerator among the labels of the union is mistaken for `others`. -/
def Context.DiscernsLabels (ctx : Context) (union : Nat) : Prop :=
  ∀ branch ∈ ctx.tree.branches union, ∀ e ∈ (Emit.labelValues branch.2.1).filterMap Value.enumerator?, ctx.Discerns e

instance (ctx : Context) (union : Nat) : Decidable (ctx.DiscernsLabels union) :=
  inferInstanceAs (Decidable (∀ branch ∈ ctx.tree.branches union,
    ∀ e ∈ (Emit.labelValues branch.2.1).filterMap Value.enumerator?, ctx.Discerns e))

/-- The choice `others` is that of the default, and of nothing else unless the labels mislead. -/
structure MarksDefault (ctx : Context) (union : Nat) (labels : List Label) (choices : String) : Prop where
  taken : Label.default ∈ labels → choices = others
  only : ctx.DiscernsLabels union → choices = others → Label.default ∈ labels

def Marked (ctx : Context) (union : Nat) (variants : List Variant) : Prop :=
  List.Forall₂ (fun branch v => MarksDefault ctx union branch.2.1 v.choices) (ctx.tree.branches union) variants

namespace Emit

variable {ctx : Context} {Q : Dependencies → Prop} {F : Item → Prop} (wf : ctx.tree.WellFormed)
  (absorbs : Absorbs ctx Q) {node : Nat}
include wf absorbs

theorem enumeratorName_ne_others {e : Nat} (discerned : ctx.Discerns e) :
    (enumeratorName ctx e).Yields (Orderly ctx Q F) (· ≠ others) := by
  intro s name s' holds done
  have notes : Notes ctx (orderly ctx Q F) := orderly_notes wf absorbs
  refine ⟨?_, ((enumeratorName_follows notes (.inr fun _ => trivial)).ok holds done).1⟩
  obtain ⟨outside, seen, sighting, named⟩ := enumeratorName_run done
  have rests : NameTable.Rests ctx seen.names := sighting.names_eq ▸ holds.rests
  rcases named with ⟨-, short⟩ | ⟨-, after, full, -⟩
  · exact NameTable.localResult_ne_others wf discerned
      (withNames_answers (NameTable.localName_run wf e) rests short).1
  · exact NameTable.fullResult_ne_others wf discerned
      (withNames_answers (NameTable.fullName_run wf e) rests full).1

theorem literal_ne_others {value : Value} (discerned : ∀ e ∈ value.enumerator?, ctx.Discerns e) :
    (literal ctx value).Yields (Orderly ctx Q F) (· ≠ others) := by
  have requires : (require "Corba").Yields (Orderly ctx Q F) fun _ => True :=
    ((orderly_notes wf absorbs).requires _).yields
  cases value with
  | short v | long v | longLong v => exact .pure (integer_ne_others _)
  | unsignedShort v | unsignedLong v | unsignedLongLong v | octet v => exact .pure (natural_ne_others _)
  | float bits | double bits => exact .pure (real_ne_others _)
  | boolean b =>
    refine .pure ?_
    cases b <;> decide
  | char c | wchar c => exact .pure (char_ne_others _ c)
  | string text | wstring text =>
    exact .bind requires fun _ _ => .pure (ne_others_of_mem (c := 'C') (by simp) (by decide))
  | enumerator e => exact enumeratorName_ne_others wf absorbs (discerned e rfl)

theorem choices_ne_others {labels : List Label} (absent : Label.default ∉ labels)
    (discerned : ∀ e ∈ (labelValues labels).filterMap Value.enumerator?, ctx.Discerns e) :
    (choices ctx labels).Yields (Orderly ctx Q F) (· ≠ others) := by
  unfold choices
  rw [if_neg (by simpa using absent)]
  have each : ∀ value ∈ labelValues labels, (literal ctx value).Yields (Orderly ctx Q F) (· ≠ others) := by
    intro value listed
    exact literal_ne_others wf absorbs fun e named => discerned e (List.mem_filterMap.mpr ⟨value, listed, named⟩)
  have values : ((labelValues labels).mapM (literal ctx)).Yields (Orderly ctx Q F) (∀ text ∈ ·, text ≠ others) := by
    intro s texts s' holds done
    obtain ⟨origin, kept⟩ := mapM_run (Q := fun _ text => text ≠ others) (fun value listed _ _ _ holds done =>
      each value listed holds done) holds done
    refine ⟨fun text listed => ?_, kept⟩
    obtain ⟨value, -, differs⟩ := origin text listed
    exact differs
  exact .bind values fun texts differ => .pure (choiceList_ne_others differ)

theorem choices_marked {branch type : Nat} {labels : List Label}
    (listed : (branch, labels, type) ∈ ctx.tree.branches node) :
    (choices ctx labels).Yields (Orderly ctx Q F) (MarksDefault ctx node labels) := by
  by_cases given : Label.default ∈ labels
  · unfold choices
    rw [if_pos (by simpa using given)]
    exact .pure ⟨fun _ => rfl, fun _ _ => given⟩
  · intro s text s' holds done
    have allows : Allows ctx (orderly ctx Q F) := orderly_allows wf absorbs
    have follows := choices_follows allows (Tree.kind?_of_mem_branches listed)
    refine ⟨⟨fun isDefault => absurd isDefault given, fun discerned same => ?_⟩, (follows.ok holds done).1⟩
    exact absurd same (choices_ne_others wf absorbs given (discerned _ listed) holds done).1

variable {resolve : Nat → Emit String} (refs : ∀ r, (resolve r).Follows (orderly ctx Q F) [])
include refs

theorem variants_marked : (variants ctx resolve node).Yields (Orderly ctx Q F) (Marked ctx node) := by
  refine .mapM_forall₂ ?_
  rintro ⟨branch, labels, type⟩ listed
  refine .bind (refs type).yields fun typeName _ => ?_
  refine .bind (choices_marked wf absorbs listed) fun text marked => ?_
  exact .bind (localName_determined wf branch) fun name _ => .pure marked

end Emit

/-- What is written for a union has its variants marked. -/
def WrittenMarked (ctx : Context) : Item → Prop
  | .declaration node d => ∀ discriminant, ctx.tree.kind? node = some (.union discriminant) →
    ∃ name switch variants, d = .union name switch variants ∧ Marked ctx node variants
  | .codec node c => ∀ discriminant, ctx.tree.kind? node = some (.union discriminant) →
    ∃ name switch variants, c = .union name switch variants ∧ Marked ctx node variants
  | _ => True

theorem Emit.writes_marked {ctx : Context} (wf : ctx.tree.WellFormed) {Q : Dependencies → Prop}
    (absorbs : Absorbs ctx Q) : Writes ctx Q (WrittenMarked ctx) := by
  apply writes_of
  · intro resolve node s declared s' refs holds run d given discriminant found
    exact (declare_union wf absorbs refs found (variants_marked wf absorbs refs) holds run).1 d given
  · intro resolve node s coded s' refs holds run c given discriminant found
    exact (encode_union wf absorbs refs found (variants_marked wf absorbs refs) holds run).1 c given

/-! ## The place of the default -/

/-- No branch of the union before the last is for the default. -/
def Tree.DefaultLast (t : Tree) (union : Nat) : Prop :=
  ∀ branch ∈ (t.branches union).dropLast, Label.default ∉ branch.2.1

instance (t : Tree) (union : Nat) : Decidable (t.DefaultLast union) :=
  inferInstanceAs (Decidable (∀ branch ∈ (t.branches union).dropLast, Label.default ∉ branch.2.1))

section

variable {ctx : Context} {node : Nat} {variants : List Variant} (marked : Marked ctx node variants)
include marked

theorem Marked.front : List.Forall₂ (fun branch v => MarksDefault ctx node branch.2.1 v.choices)
    (ctx.tree.branches node).dropLast variants.dropLast := by
  rw [List.dropLast_eq_take, List.dropLast_eq_take, marked.length_eq]
  exact List.forall₂_take _ marked

theorem Marked.defaultLast {inside : Component → String}
    (legal : OthersLast (alternativesCode (alternatives variants inside))) : ctx.tree.DefaultLast node := by
  have others_front := (othersLast_iff variants inside).mp legal
  refine forall_of_forall₂ (List.Forall₂.flip (marked.front.imp fun branch v mark => ?_)) others_front
  exact fun other isDefault => other (mark.taken isDefault)

theorem Marked.othersLast (discerned : ctx.DiscernsLabels node) (last : ctx.tree.DefaultLast node)
    (inside : Component → String) : OthersLast (alternativesCode (alternatives variants inside)) := by
  refine (othersLast_iff variants inside).mpr ?_
  refine forall_of_forall₂ (marked.front.imp fun branch v mark => ?_) last
  exact fun other same => other (mark.only discerned same)

end

/-- In whatever is declared and marshalled for a union after any history, `others` is the choice of one alternative and
that is the last only if no branch before the last is for the default. If so it is, unless a label that is given as
an enumerator is something else and goes by the name `others`. -/
theorem others_last_iff_default_last (script : List Step) (settings : Settings) (deps : Dependencies)
    (history : List Event) (node discriminant : Nat)
    (isUnion : (Tree.ofSteps script).kind? node = some (.union discriminant)) :
    let ctx : Context := ⟨.ofSteps script, settings⟩
    let s := (Session.start.turnTo deps).after ctx history
    let legal (alternatives : Code) : Prop :=
      (OthersLast alternatives → ctx.tree.DefaultLast node) ∧
        (ctx.DiscernsLabels node → ctx.tree.DefaultLast node → OthersLast alternatives)
    (∀ d, s.Presents ctx .declaration (.declaration node d) →
      ∃ alternatives, d.HasVariantPart alternatives ∧ legal alternatives) ∧
    (∀ c, s.Presents ctx .marshalling (.codec node c) →
      ∃ marshal unmarshal size, c.HasCases settings.runtime marshal unmarshal size ∧
        legal marshal ∧ legal unmarshal ∧ legal size) := by
  intro ctx s legal
  have wf : ctx.tree.WellFormed := Tree.ofSteps_wellFormed script
  have absorbs := Emit.absorbs_true ctx
  have placed {variants : List Variant} (marked : Marked ctx node variants) (inside : Component → String) :
      legal (alternativesCode (alternatives variants inside)) :=
    ⟨marked.defaultLast, fun discerned last => marked.othersLast discerned last inside⟩
  constructor
  · intro d presents
    obtain ⟨name, switch, variants, rfl, marked⟩ :=
      presents.written wf absorbs (Emit.writes_marked wf absorbs) trivial discriminant isUnion
    exact ⟨_, Declaration.hasVariantPart_union name switch variants, placed marked _⟩
  · intro c presents
    obtain ⟨name, switch, variants, rfl, marked⟩ :=
      presents.written wf absorbs (Emit.writes_marked wf absorbs) trivial discriminant isUnion
    exact ⟨_, _, _, Codec.hasCases_union _ name switch variants, placed marked _, placed marked _, placed marked _⟩

/-- A union with its default last, declared and marshalled on account of a structure. -/
theorem others_last_in_structure :
    let script : List Step :=
      [.module 0 "M", .primitive .long, .union 1 "U" 2, .branch 3 "a" [.value (.long 1), .value (.long 2)] 2,
        .branch 3 "b" [.value (.long 7), .default] 2, .struct 1 "S", .field 6 "u" 3]
    let ctx : Context := ⟨.ofSteps script, {}⟩
    let s := (Session.start.turnTo (.told 1 [])).after ctx [.here (.declaration 6), .here (.marshalBody 6)]
    let variants : List Variant := [⟨"1 | 2", ⟨"a", "Corba.Long"⟩⟩, ⟨others, ⟨"b", "Corba.Long"⟩⟩]
    .declaration 3 (.union "U" "Corba.Long" variants) ∈ s.hoisted ∧
    .codec 3 (.union "U" "Corba.Long" variants) ∈ s.hoisted ∧
    (∃ alternatives, (Declaration.union "U" "Corba.Long" variants).HasVariantPart alternatives ∧
      OthersLast alternatives) ∧
    ∃ marshal unmarshal size, (Codec.union "U" "Corba.Long" variants).HasCases {} marshal unmarshal size ∧
      OthersLast marshal ∧ OthersLast unmarshal ∧ OthersLast size := by
  intro script ctx s variants
  have declared : .declaration 3 (.union "U" "Corba.Long" variants) ∈ s.hoisted := by decide +kernel
  have coded : .codec 3 (.union "U" "Corba.Long" variants) ∈ s.hoisted := by decide +kernel
  have discerned : ctx.DiscernsLabels 3 := by decide +kernel
  have last : ctx.tree.DefaultLast 3 := by decide +kernel
  obtain ⟨declaration, codec⟩ := others_last_iff_default_last script {} (.told 1 [])
    [.here (.declaration 6), .here (.marshalBody 6)] 3 2 (by decide +kernel)
  obtain ⟨alternatives, has, legal⟩ := declaration _ (.inl declared)
  obtain ⟨marshal, unmarshal, size, cases, first, second, third⟩ := codec _ (.inl coded)
  exact ⟨declared, coded, ⟨alternatives, has, legal.2 discerned last⟩, marshal, unmarshal, size, cases,
    first.2 discerned last, second.2 discerned last, third.2 discerned last⟩

/-- A union whose one default branch comes first. Its declaration and its three case statements have `others` first and
then another alternative. -/
theorem others_first_with_default_first :
    let script : List Step :=
      [.module 0 "M", .primitive .long, .union 1 "U" 2, .branch 3 "a" [.default] 2, .branch 3 "b" [.value (.long 1)] 2]
    let ctx : Context := ⟨.ofSteps script, {}⟩
    let s := Session.start.turnTo (.told 1 [])
    let variants : List Variant := [⟨others, ⟨"a", "Corba.Long"⟩⟩, ⟨"1", ⟨"b", "Corba.Long"⟩⟩]
    (Emit.declaration ctx 3).outcome s = .ok [.declaration 3 (.union "U" "Corba.Long" variants)] ∧
    (Emit.marshalBody ctx 3).outcome s = .ok [.codec 3 (.union "U" "Corba.Long" variants)] ∧
    (∃ alternatives, (Declaration.union "U" "Corba.Long" variants).HasVariantPart alternatives ∧
      ¬ OthersLast alternatives) ∧
    ∃ marshal unmarshal size, (Codec.union "U" "Corba.Long" variants).HasCases {} marshal unmarshal size ∧
      ¬ OthersLast marshal ∧ ¬ OthersLast unmarshal ∧ ¬ OthersLast size := by
  intro script ctx s variants
  refine ⟨by decide +kernel, by decide +kernel, ⟨_, Declaration.hasVariantPart_union _ _ _, by decide +kernel⟩, ?_⟩
  exact ⟨_, _, _, Codec.hasCases_union _ _ _ _, by decide +kernel, by decide +kernel, by decide +kernel⟩

end AdaStubs
