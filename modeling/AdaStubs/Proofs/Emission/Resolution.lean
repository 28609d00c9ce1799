import Mathlib.Data.List.Perm.Subperm
import AdaStubs.Proofs.Emission.Footprint

/-!
# Resolving references

The types that the nodes of a tree refer to, and how many of them can be under way at a time: each is another
node of the tree, so that a chain of references which never comes back to a node under way ends.
-/

namespace AdaStubs

/-- The types that a declaration of this kind refers to by itself, its members apart. -/
def Kind.typeRefs : Kind → List Nat
  | .array _ element | .sequence element _ => [element]
  | .union discriminant => [discriminant]
  | .typedef type | .constant type _ | .attribute type _ | .argument _ type | .field type | .branch _ type => [type]
  | .operation result _ _ => result.toList
  | _ => []

namespace Tree

variable {t : Tree}

/-- What a declaration refers to is referred to by itself or by one of its members. -/
theorem exists_typeRefs {node r : Nat} (refers : r ∈ t.declarationRefs node) :
    ∃ part kind, t.kind? part = some kind ∧ r ∈ kind.typeRefs := by
  have fields : r ∈ (t.fields node).map (·.2) → ∃ part kind, t.kind? part = some kind ∧ r ∈ kind.typeRefs := by
    intro listed
    obtain ⟨⟨field, type⟩, among, rfl⟩ := List.mem_map.mp listed
    exact ⟨field, _, kind?_of_mem_fields among, List.mem_singleton_self _⟩
  unfold declarationRefs at refers
  cases found : t.kind? node with
  | none => simp [found] at refers
  | some kind =>
    rw [found] at refers
    cases kind with
    | struct => exact fields refers
    | exception => exact fields refers
    | union discriminant =>
      rcases List.mem_cons.mp refers with rfl | listed
      · exact ⟨node, _, found, List.mem_singleton_self _⟩
      · obtain ⟨⟨branch, labels, type⟩, among, rfl⟩ := List.mem_map.mp listed
        exact ⟨branch, _, kind?_of_mem_branches among, List.mem_singleton_self _⟩
    | operation result oneway raises =>
      rcases List.mem_append.mp refers with listed | returned
      · obtain ⟨⟨argument, direction, type⟩, among, rfl⟩ := List.mem_map.mp listed
        exact ⟨argument, _, kind?_of_mem_arguments among, List.mem_singleton_self _⟩
      · exact ⟨node, _, found, returned⟩
    | array | sequence | typedef | constant | «attribute» => exact ⟨node, _, found, refers⟩
    | _ => cases refers

theorem mem_ids_of_declarationRefs {node r : Nat} (refers : r ∈ t.declarationRefs node) : node ∈ t.ids := by
  unfold declarationRefs at refers
  cases found : t.kind? node with
  | none => simp [found] at refers
  | some kind => exact mem_ids_of_kind? found

/-- A reference to `node` finds a type, or else fails in a way that is tolerated. -/
structure Admits (t : Tree) (tolerated : Fault → Prop) (node : Nat) : Prop where
  found : node ∈ t.ids
  refused : ∀ {kind expected}, t.kind? node = some kind → kind.isType = false →
    tolerated (.error (.wrongKind node expected kind))

/-- All references of the tree do. -/
def Resolves (t : Tree) (tolerated : Fault → Prop) : Prop :=
  ∀ node kind, t.kind? node = some kind → ∀ r ∈ kind.typeRefs, t.Admits tolerated r

theorem Resolves.admits {tolerated : Fault → Prop} (resolves : t.Resolves tolerated) {node r : Nat}
    (refers : r ∈ t.declarationRefs node) : t.Admits tolerated r := by
  obtain ⟨part, kind, found, among⟩ := exists_typeRefs refers
  exact resolves part kind found r among

/-- The nodes under way are distinct, and with `depth` more there would be too many of them. -/
structure Room (t : Tree) (busy : List Nat) (depth : Nat) : Prop where
  distinct : busy.Nodup
  inside : ∀ n ∈ busy, n ∈ t.ids
  enough : t.size < depth + busy.length

namespace Room

theorem start (t : Tree) : t.Room [] (t.size + 1) :=
  ⟨List.nodup_nil, fun _ listed => absurd listed List.not_mem_nil, Nat.lt_succ_self _⟩

theorem not_zero {busy : List Nat} (room : t.Room busy 0) : False := by
  have few := (room.distinct.subperm room.inside).length_le
  have enough := room.enough
  simp only [ids, List.length_range] at few
  omega

theorem push {busy : List Nat} {depth node : Nat} (room : t.Room busy (depth + 1)) (among : node ∈ t.ids)
    (idle : node ∉ busy) : t.Room (node :: busy) depth := by
  refine ⟨List.nodup_cons.mpr ⟨idle, room.distinct⟩, ?_, ?_⟩
  · rintro n (_ | ⟨_, earlier⟩)
    · exact among
    · exact room.inside n earlier
  · have enough := room.enough
    simp only [List.length_cons]
    omega

theorem deeper {busy : List Nat} {depth : Nat} (room : t.Room busy depth) : t.Room busy (depth + 1) :=
  ⟨room.distinct, room.inside, Nat.lt_of_lt_of_le room.enough (by omega)⟩

end Room

end Tree

end AdaStubs
