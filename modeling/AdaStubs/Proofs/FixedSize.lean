import AdaStubs.Proofs.Emission.Resolution
import AdaStubs.Proofs.Naming.Refinement

/-!
# Looking into sizes

Whether a type is of fixed size is found out by looking into the types it is made of, each of which is put
aside while it is looked into. The search comes to an end, and fails only at a reference that is none to a type.
-/

namespace AdaStubs.SizeTable

open Run

/-- The conduct of looking into a type while others are put aside. -/
def looking (tolerated : Fault → Prop) (busy : List Nat) : Conduct SizeTable where
  holds table := table.busy = busy
  moves _ _ := True
  stops _ table := table.busy = busy
  settled _ _ := True
  faults := tolerated

variable {t : Tree} {tolerated : Fault → Prop} {busy : List Nat} {node : Nat}

theorem looking_lawful : (looking tolerated busy).Lawful :=
  ⟨fun _ => trivial, fun _ _ _ => trivial, id, fun _ _ stopped => stopped, fun _ _ => trivial⟩

theorem during_follows {α : Type} {act : Sizing α} (inside : act.Follows (looking tolerated (node :: busy)) []) :
    (during node act).Follows (looking tolerated busy) [] := by
  intro table holds
  have entered : (looking tolerated (node :: busy)).holds { table with busy := node :: table.busy } :=
    congrArg (node :: ·) holds
  unfold during
  cases run : act { table with busy := node :: table.busy } with
  | ok a after =>
    have left : after.busy = node :: busy := (inside.ok entered run).1
    exact ⟨by simp [looking, left], trivial, fun _ _ => trivial⟩
  | error fault after =>
    obtain ⟨left, permitted⟩ := inside.error entered run
    have left : after.busy = node :: busy := left
    exact ⟨by simp [looking, left], permitted⟩

theorem fieldTypes_eq (t : Tree) (node : Nat) : fieldTypes t node = (t.fields node).map (·.2) := by
  unfold fieldTypes Tree.fields
  rw [List.map_filterMap]
  congr 1
  funext m
  split <;> simp_all

theorem judge_follows {recurse : Nat → Sizing Bool} (resolves : t.Resolves tolerated)
    (admits : t.Admits tolerated node)
    (deeper : ∀ {r}, t.Admits tolerated r → (recurse r).Follows (looking tolerated busy) []) :
    (judge t recurse node).Follows (looking tolerated busy) [] := by
  obtain ⟨kind, found⟩ := Tree.exists_of_mem_ids admits.found
  have refers {r : Nat} (listed : r ∈ t.declarationRefs node) := deeper (resolves.admits listed)
  have fields (types : ∀ {r}, r ∈ (t.fields node).map (·.2) → (recurse r).Follows (looking tolerated busy) []) :
      ((fieldTypes t node).allM recurse).Follows (looking tolerated busy) [] := by
    rw [fieldTypes_eq]
    exact .allM looking_lawful fun r listed => types listed
  have refused (noType : kind.isType = false) :
      (throw (.error (.wrongKind node "type" kind)) : Sizing Bool).Follows (looking tolerated busy) [] :=
    .throw looking_lawful (admits.refused found noType)
  unfold Tree.declarationRefs at refers
  rw [found] at refers
  obtain ⟨⟨_, _, kind, _, _⟩, lookup, rfl⟩ := Option.map_eq_some_iff.mp found
  unfold judge
  rw [NameTable.need_of_found lookup]
  cases kind with
  | primitive | enum | fixed | sequence | string | interface | union => exact .pure looking_lawful _
  | array dims element => exact refers List.mem_cons_self
  | typedef base => exact refers List.mem_cons_self
  | struct => exact fields refers
  | exception => exact fields refers
  | module | constant | «attribute» | operation | argument | field | branch | enumerator => exact refused rfl

theorem judge_lenient {c : Conduct SizeTable} (lawful : c.Lawful) (lenient : ∀ fault, c.faults fault)
    {recurse : Nat → Sizing Bool} (deeper : ∀ r, (recurse r).Follows c []) :
    (judge t recurse node).Follows c [] := by
  unfold judge
  refine .seq lawful (.liftFault lawful fun _ => lenient _) fun ⟨_, _, kind, _, _⟩ => ?_
  cases kind with
  | primitive | enum | fixed | sequence | string | interface | union => exact .pure lawful _
  | array dims element => exact deeper element
  | typedef base => exact deeper base
  | struct | exception => exact .allM lawful fun r _ => deeper r
  | module | constant | «attribute» | operation | argument | field | branch | enumerator =>
    exact .throw lawful (lenient _)

/-- Whatever is put aside is taken up again, also where the search fails. -/
theorem isFixedWithin_busy (depth node : Nat) (table : SizeTable) :
    ((isFixedWithin t depth node).final table).busy = table.busy := by
  have lawful : (Conduct.along fun table after : SizeTable => after.busy = table.busy).Lawful :=
    Conduct.along_lawful (fun _ => rfl) fun first second => second.trans first
  suffices follows : ∀ node, (isFixedWithin t depth node).Follows (.along fun table after => after.busy = table.busy) []
    from follows_along_iff.mp (follows node) table
  induction depth with
  | zero => exact fun node => .throw lawful trivial
  | succ depth ih =>
    intro node
    have judged : (judge t (isFixedWithin t depth) node).Follows (.along fun table after => after.busy = table.busy) [] :=
      judge_lenient lawful (fun _ => trivial) ih
    have restored : (during node (judge t (isFixedWithin t depth) node)).Follows
        (.along fun table after => after.busy = table.busy) [] := by
      refine follows_along_iff.mpr fun table => ?_
      have inside := follows_along_iff.mp judged { table with busy := node :: table.busy }
      unfold during
      unfold final at inside ⊢
      split at inside <;> simp_all
    unfold isFixedWithin
    refine .getThen fun table _ => ?_
    split
    · exact .pure lawful _
    · split
      · exact .pure lawful _
      · refine .seq lawful restored fun fixed => ?_
        exact .seq lawful (.modify fun _ => ⟨trivial, rfl⟩) fun _ => .pure lawful _

/-- A type put aside is not looked into again, so that every step down takes another node of the tree. -/
theorem isFixedWithin_follows (resolves : t.Resolves tolerated) {depth : Nat} (room : t.Room busy depth)
    (admits : t.Admits tolerated node) : (isFixedWithin t depth node).Follows (looking tolerated busy) [] := by
  induction depth generalizing busy node with
  | zero => exact absurd room.not_zero id
  | succ depth ih =>
    unfold isFixedWithin
    refine .getThen fun table holds => ?_
    cases table.settled.lookup node with
    | some fixed => exact .pure looking_lawful _
    | none =>
      by_cases aside : table.busy.contains node = true
      · simp only [aside, if_true]
        exact .pure looking_lawful _
      · simp only [aside]
        have idle : node ∉ busy := by
          rw [← show table.busy = busy from holds]
          simpa using aside
        have further := room.push admits.found idle
        have judged := judge_follows resolves admits fun admitted => ih further admitted
        refine .seq looking_lawful (during_follows judged) fun fixed => ?_
        exact .seq looking_lawful (.modify fun held => ⟨held, trivial⟩) fun _ => .pure looking_lawful _

end AdaStubs.SizeTable
