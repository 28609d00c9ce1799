import Mathlib.Data.List.Nodup
import Mathlib.Data.List.Perm.Basic
import AdaStubs.Ada.Item
import AdaStubs.Proofs.Ada.Spelling

/-!
# Identifiers of declarations

A declaration introduces identifiers of its own and others that it makes from its name: an access type, the
instance of a generic package, the members of an exception. Where the former differ, so do the latter among each
other, and two identifiers are the same only where one of the former is one of the latter.
-/

namespace AdaStubs

/-- The code has a line that declares `name`: a type, a subtype, an instance of a package, or a constant or
exception. -/
def Code.Introduces (code : Code) (name : String) : Prop :=
  ∃ l ∈ code, l.depth = 0 ∧
    ∃ opening ∈ [s!"type {name} ", s!"subtype {name} ", s!"package {name} ", s!"{name} : "],
      opening.toList <+: l.text.toList

namespace Code.Introduces

variable {code more : Code} {name : String}

theorem left (introduces : code.Introduces name) : (code ++ more).Introduces name := by
  obtain ⟨l, listed, opens⟩ := introduces
  exact ⟨l, List.mem_append_left _ listed, opens⟩

theorem right (introduces : more.Introduces name) : (code ++ more).Introduces name := by
  obtain ⟨l, listed, opens⟩ := introduces
  exact ⟨l, List.mem_append_right _ listed, opens⟩

theorem type {text : String} (listed : ⟨0, text⟩ ∈ code) (opens : s!"type {name} ".toList <+: text.toList) :
    code.Introduces name :=
  ⟨_, listed, rfl, _, by simp, opens⟩

theorem object {text : String} (listed : ⟨0, text⟩ ∈ code) (opens : s!"{name} : ".toList <+: text.toList) :
    code.Introduces name :=
  ⟨_, listed, rfl, _, by simp, opens⟩

end Code.Introduces

namespace Ada

def Item.declaration? : Item → Option Declaration
  | .declaration _ d => some d
  | _ => none

/-- What the package of an interface declares besides subprograms, the access type apart. -/
def referenceNames : List String := ["Ref", "Nil_Ref", "Repository_Id"]

namespace Declaration

def ownNames : Declaration → List String
  | array name _ _ | record name _ | exception name _ _ | union name _ _ | sequence name _ _ | string name _ _
  | fixedPoint name _ _ | derived name _ | constant name _ _ => [name]
  | enumeration name literals => name :: literals
  | reference _ _ _ => referenceNames
  | operations _ => []

/-- What is added to the first of the own names to make others. -/
def endings : Declaration → List String
  | array _ _ _ | record _ _ | union _ _ _ | enumeration _ _ | fixedPoint _ _ _ | derived _ _ | reference _ _ _ =>
    ["_Ptr"]
  | sequence _ _ _ | string _ _ _ => ["_Pkg", "_Ptr"]
  | exception _ _ _ => ["_Members"]
  | constant _ _ _ | operations _ => []

def derivedNames (d : Declaration) : List String :=
  d.ownNames.head?.toList.flatMap fun name => d.endings.map (name ++ ·)

def identifiers (d : Declaration) : List String := d.ownNames ++ d.derivedNames

theorem mem_derivedNames {d : Declaration} {derived : String} (listed : derived ∈ d.derivedNames) :
    ∃ name ∈ d.ownNames, ∃ ending ∈ d.endings, derived = name ++ ending := by
  unfold derivedNames at listed
  obtain ⟨name, first, made⟩ := List.mem_flatMap.mp listed
  obtain ⟨ending, among, rfl⟩ := List.mem_map.mp made
  exact ⟨name, List.mem_of_mem_head? (Option.mem_toList.mp first), ending, among, rfl⟩

theorem mem_endings {d : Declaration} {ending : String} (listed : ending ∈ d.endings) :
    ending ∈ ["_Ptr", "_Pkg", "_Members"] := by
  cases d <;> simp [endings] at listed ⊢ <;> grind

end Declaration

theorem introduces_accessType (name : String) : (accessType name).Introduces (name ++ "_Ptr") := by
  refine .type List.mem_cons_self ?_
  simp [toString]

theorem introduces_recordCode {head name : String} (components : List String)
    (opens : s!"type {name} ".toList <+: head.toList) : (recordCode head components).Introduces name := by
  unfold recordCode
  split
  · exact .type List.mem_cons_self (opens.trans (by simp [toString]))
  · exact .type List.mem_cons_self (opens.trans (by simp [toString]))

theorem introduces_instanceCode (name generic member : String) :
    (instanceCode name generic member).Introduces name ∧
      (instanceCode name generic member).Introduces (name ++ "_Pkg") := by
  simp [Code.Introduces, instanceCode, Code.lines, toString]

/-- The form for a declaration with one line before its access type. -/
theorem introduces_line_accessType {text name other : String} (opens : s!"type {name} ".toList <+: text.toList)
    (listed : other = name ∨ other = name ++ "_Ptr") :
    (Code.line text ++ accessType name ++ Code.blank).Introduces other := by
  rcases listed with rfl | rfl
  · exact .left (.left (.type List.mem_cons_self opens))
  · exact .left (.right (introduces_accessType name))

/-- Every identifier but the literals of an enumeration stands at the head of its declaration. -/
theorem Declaration.code_introduces {d : Declaration} {name : String} (listed : name ∈ d.identifiers) :
    d.code.Introduces name ∨ ∃ type literals, d = .enumeration type literals ∧ name ∈ literals := by
  rw [identifiers, derivedNames] at listed
  cases d with
  | array own | fixedPoint own | derived own =>
    left
    exact introduces_line_accessType (by simp [toString]) (by simpa [ownNames, endings] using listed)
  | record own components =>
    left
    obtain rfl | rfl : name = own ∨ name = own ++ "_Ptr" := by simpa [ownNames, endings] using listed
    · exact .left (.left (introduces_recordCode _ (by simp [toString])))
    · exact .left (.right (introduces_accessType own))
  | exception own base components =>
    left
    obtain rfl | rfl : name = own ∨ name = own ++ "_Members" := by simpa [ownNames, endings] using listed
    · exact .left (.left (.left (.object List.mem_cons_self (by simp [toString]))))
    · exact .left (.left (.right (introduces_recordCode _ (by simp [toString]))))
  | union own switch variants =>
    left
    obtain rfl | rfl : name = own ∨ name = own ++ "_Ptr" := by simpa [ownNames, endings] using listed
    · exact .left (.left (.left (.left (.type List.mem_cons_self (by simp [toString])))))
    · exact .left (.right (introduces_accessType own))
  | enumeration own literals =>
    obtain rfl | literal | rfl : name = own ∨ name ∈ literals ∨ name = own ++ "_Ptr" := by
      simpa [ownNames, endings] using listed
    · exact .inl (introduces_line_accessType (by simp [toString]) (.inl rfl))
    · exact .inr ⟨own, literals, rfl, literal⟩
    · exact .inl (introduces_line_accessType (by simp [toString]) (.inr rfl))
  | sequence own | string own =>
    left
    obtain rfl | rfl | rfl : name = own ∨ name = own ++ "_Pkg" ∨ name = own ++ "_Ptr" := by
      simpa [ownNames, endings] using listed
    · exact .left (.left (introduces_instanceCode _ _ _).1)
    · exact .left (.left (introduces_instanceCode _ _ _).2)
    · exact .left (.right (introduces_accessType own))
  | constant own type value =>
    left
    obtain rfl : name = own := by simpa [ownNames, endings] using listed
    exact .left (.object List.mem_cons_self (by simp [toString]))
  | reference parent objectRef repositoryId =>
    left
    obtain rfl | rfl | rfl | rfl : name = "Ref" ∨ name = "Nil_Ref" ∨ name = "Repository_Id" ∨ name = "Ref_Ptr" := by
      simpa [ownNames, endings, referenceNames] using listed
    · exact .left (.left (.left (.left (.type List.mem_cons_self (by simp [toString])))))
    · exact .left (.right (.object List.mem_cons_self (by simp [toString])))
    · refine .left (.right (.object (List.mem_cons_of_mem _ (List.mem_cons_of_mem _ List.mem_cons_self)) ?_))
      simp [toString]
    · exact .left (.left (.left (.right (introduces_accessType "Ref"))))
  | operations subprograms => cases listed

/-- The endings differ in their last letter. -/
theorem fold_ending_inj {name other ending ending' : String} (listed : ending ∈ ["_Ptr", "_Pkg", "_Members"])
    (listed' : ending' ∈ ["_Ptr", "_Pkg", "_Members"]) (same : fold (name ++ ending) = fold (other ++ ending')) :
    fold name = fold other ∧ ending = ending' := by
  have lists := congrArg String.toList same
  simp only [toList_fold, String.toList_append, List.map_append] at lists
  have lastLetter : ∀ e ∈ ["_Ptr", "_Pkg", "_Members"], e.toList.map Char.toLower ≠ [] ∧
      ∀ e' ∈ ["_Ptr", "_Pkg", "_Members"],
        (e.toList.map Char.toLower).getLast? = (e'.toList.map Char.toLower).getLast? → e = e' := by decide
  have ends : ending = ending' := by
    have last := congrArg List.getLast? lists
    rw [List.getLast?_append_of_ne_nil _ (lastLetter ending listed).1,
      List.getLast?_append_of_ne_nil _ (lastLetter ending' listed').1] at last
    exact (lastLetter ending listed).2 ending' listed' last
  subst ends
  exact ⟨String.toList_inj.mp (by simpa [toList_fold] using lists), rfl⟩

namespace Declaration

theorem derivedNames_nodup {d : Declaration} : (d.derivedNames.map fold).Nodup := by
  unfold derivedNames
  cases d.ownNames.head? with
  | none => simp
  | some name =>
    have distinct : d.endings.Nodup := by cases d <;> simp [endings]
    simp only [Option.toList_some, List.flatMap_singleton, List.map_map]
    refine List.Nodup.map_on (fun ending listed ending' listed' same => ?_) distinct
    exact (fold_ending_inj (mem_endings listed) (mem_endings listed') same).2

/-- Where the own names differ, the names derived from them differ. -/
theorem flatMap_derivedNames_nodup {list : List Declaration} (own : ((list.flatMap ownNames).map fold).Nodup) :
    ((list.flatMap derivedNames).map fold).Nodup := by
  rw [List.map_flatMap, List.nodup_flatMap] at own ⊢
  refine ⟨fun d _ => derivedNames_nodup, own.2.imp fun {d d'} disjoint => ?_⟩
  intro text first second
  obtain ⟨derived, listed, rfl⟩ := List.mem_map.mp first
  obtain ⟨derived', listed', same⟩ := List.mem_map.mp second
  obtain ⟨name, among, ending, ends, rfl⟩ := mem_derivedNames listed
  obtain ⟨other, among', ending', ends', rfl⟩ := mem_derivedNames listed'
  have names := (fold_ending_inj (mem_endings ends') (mem_endings ends) same).1
  exact disjoint (List.mem_map_of_mem among) (names ▸ List.mem_map_of_mem among')

/-- Identifiers meet only where an own name is a derived one. -/
theorem identifiers_nodup {list : List Declaration} (own : ((list.flatMap ownNames).map fold).Nodup) :
    ((list.flatMap identifiers).map fold).Nodup ↔
      ∀ name ∈ list.flatMap ownNames, ∀ derived ∈ list.flatMap derivedNames, fold name ≠ fold derived := by
  have perm := (List.flatMap_append_perm list ownNames derivedNames).map fold
  rw [show list.flatMap identifiers = list.flatMap fun d => d.ownNames ++ d.derivedNames from rfl, ← perm.nodup_iff,
    List.map_append, List.nodup_append]
  simp only [own, flatMap_derivedNames_nodup own, true_and, List.forall_mem_map, ne_eq]

end Declaration

end Ada

end AdaStubs
