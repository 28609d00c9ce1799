import AdaStubs.Proofs.Generation.Course
import AdaStubs.Proofs.Generation.Standing

/-!
# The turns of units

A unit declares only what belongs in its package, and each unit has its turn once. So nothing of the package has
been declared when the turn of a unit comes, and nothing is under way.
-/

namespace AdaStubs

open Ada Run

namespace Emit

variable {ctx : Context} {unit : Nat} {name : String} {s s' : Session}

/-- The conduct of declaring nothing outside the package of `unit`. -/
def confined (ctx : Context) (unit : Nat) : Conduct Session where
  holds s := ctx.Packaged unit s.deps
  moves s s' := s'.trace.busy = s.trace.busy ∧
    ∀ n ∈ s'.trace.defined, n ∈ s.trace.defined ∨ ctx.tree.packageOf n = unit
  stops _ _ := True
  settled _ _ := True

theorem confined_lawful : (confined ctx unit).Lawful := by
  refine ⟨fun _ => ⟨rfl, fun _ => .inl⟩, ?_, fun _ => trivial, fun _ _ _ => trivial, fun _ _ => trivial⟩
  rintro s s' s'' - ⟨idle, first⟩ ⟨still, second⟩
  refine ⟨still.trans idle, fun n defined => ?_⟩
  rcases second n defined with earlier | home
  · exact first n earlier
  · exact .inr home

theorem confined_tolerates : Tolerates ctx unit (confined ctx unit) := by
  refine ⟨confined_lawful, id, ?_, trivial, fun _ => trivial⟩
  intro s s' _ packaged same
  exact ⟨packaged, congrArg Trace.busy same, fun n defined => .inl (same ▸ defined)⟩

variable (inherits : Inherits ctx)
include inherits

theorem produce_confined {a : Aspect} {resolve : Nat → Emit String} {node : Nat}
    (home : a = .declaration → ctx.tree.packageOf node = unit)
    (refs : ∀ r ∈ a.refs ctx.tree node, (resolve r).Follows (confined ctx unit) [r]) :
    (produce ctx a resolve node).Follows (confined ctx unit) [] := by
  have item := item_follows (confined_tolerates.inherits inherits) confined_tolerates.fits trivial refs
  refine produce_follows confined_lawful (fun packaged _ => packaged) ?_ (fun _ _ _ => trivial) id fun _ _ => item
  rintro s s' packaged idle kept ⟨under, defined⟩
  rw [trace_enter idle] at under defined
  refine ⟨kept, ?_, ?_⟩
  · have left : s'.progress.busy.erase node = s.progress.busy := by
      rw [show s'.progress.busy = node :: s.progress.busy from under, List.erase_cons_head]
    cases a <;> exact left
  · intro n listed
    cases a with
    | declaration =>
      rcases List.mem_insert_iff.mp listed with rfl | earlier
      · exact .inr (home rfl)
      · exact defined n earlier
    | marshalling => exact defined n listed

theorem place_confined {a : Aspect} {resolve : Nat → Emit String} {node : Nat}
    (home : a = .declaration → ctx.tree.packageOf node = unit)
    (refs : ∀ r ∈ a.refs ctx.tree node, (resolve r).Follows (confined ctx unit) [r]) :
    (place (produce ctx a resolve node)).Follows (confined ctx unit) [] := by
  refine .before confined_lawful (produce_confined inherits home refs) fun items => ?_
  exact .modify fun packaged => ⟨packaged, rfl, fun _ => .inl⟩

theorem nameWithin_confined (a : Aspect) (depth node : Nat) :
    (nameWithin ctx a depth node).Follows (confined ctx unit) [node] := by
  induction depth generalizing node with
  | zero => exact .throw confined_lawful trivial
  | succ depth ih =>
    intro s packaged
    cases done : nameWithin ctx a (depth + 1) node s with
    | error fault s' => exact ⟨trivial, trivial⟩
    | ok name s' =>
      rcases refer_trace inherits.wellFormed packaged done with ⟨-, kept, same⟩ | ⟨isLocal, placed, names, written, rfl⟩
      · obtain ⟨held, moved⟩ := confined_tolerates.still packaged kept same
        exact ⟨held, moved, fun _ _ => trivial⟩
      · have home := Tree.packageOf_of_isLocal isLocal
        have step := place_confined (a := a) inherits (fun _ => home) fun r _ => ih r
        obtain ⟨held, moved, -⟩ := step.ok packaged written
        exact ⟨held, moved, fun _ _ => trivial⟩

theorem confined_carries : Carries ctx unit (confined ctx unit) where
  allows := confined_tolerates.inherits inherits
  opens := .modify fun {s} _ => ⟨opening_packaged unit s, rfl, fun _ => .inl⟩
  hoists _ := .modify fun packaged => ⟨packaged, rfl, fun _ => .inl⟩
  takes packaged := ⟨packaged, rfl, fun _ => .inl⟩
  declared _ _ _ := .inr fun _ => trivial
  units _ := .inr fun _ => trivial
  entries _ _ _ _ := .inr fun _ => trivial
  refers _ a := nameWithin_confined inherits a _ _
  declares _ home := produce_confined inherits (fun _ => home) fun r _ => nameWithin_confined inherits _ _ r
  encodes _ := produce_confined inherits nofun fun r _ => nameWithin_confined inherits _ _ r

omit inherits in
theorem withNames_turnTo {α : Type} {act : NameTable.Lookup α} {result : α} (deps : Dependencies)
    (done : withNames act s = .ok result s') : withNames act (s.turnTo deps) = .ok result (s'.turnTo deps) := by
  have same : (s.turnTo deps).names = s.names := rfl
  unfold withNames at done ⊢
  rw [same]
  cases found : act s.names with
  | error fault names =>
    rw [found] at done
    cases done
  | ok given names =>
    rw [found] at done
    cases done
    rfl

omit inherits in
/-- A unit is generated as if its first artifact had been turned to before its name was asked for. -/
theorem generateUnit_opening {output : UnitOutput} (done : generateUnit ctx unit s = .ok output s') :
    generateUnit ctx unit (opening ctx unit s) = .ok output s' := by
  unfold generateUnit at done ⊢
  obtain ⟨name, named, first, rest⟩ := bind_eq_ok.mp done
  rw [fullName, bind_of_ok (withNames_turnTo _ first)]
  exact rest

theorem generateUnit_confined (isUnit : ctx.tree.hasKind Kind.isUnit unit = true) {output : UnitOutput}
    (done : generateUnit ctx unit s = .ok output s') : s'.trace.busy = s.trace.busy ∧
      ∀ n ∈ s'.trace.defined, n ∈ s.trace.defined ∨ ctx.tree.packageOf n = unit :=
  ((generateUnit_follows (confined_carries inherits) isUnit).ok (opening_packaged unit s)
    (generateUnit_opening done)).2.1

/-! ## Turns -/

omit inherits in
theorem mapM_generateUnit_nodes {units : List Nat} {outputs : List UnitOutput}
    (done : units.mapM (generateUnit ctx) s = .ok outputs s') : outputs.map (·.node) = units := by
  induction units generalizing s outputs with
  | nil =>
    rw [List.mapM_nil] at done
    cases done
    rfl
  | cons unit units ih =>
    rw [List.mapM_cons] at done
    obtain ⟨output, middle, first, rest⟩ := bind_eq_ok.mp done
    obtain ⟨others, last, later, returned⟩ := bind_eq_ok.mp rest
    cases returned
    obtain ⟨_, _, _, _, _, _, _, _, _, -, -, -, -, -, node, -⟩ := generateUnit_ok first
    rw [List.map_cons, node, ih later]

theorem mapM_generateUnit_confined {units : List Nat} (areUnits : ∀ u ∈ units, ctx.tree.hasKind Kind.isUnit u = true)
    {outputs : List UnitOutput} (done : units.mapM (generateUnit ctx) s = .ok outputs s') :
    s'.trace.busy = s.trace.busy ∧
      ∀ n ∈ s'.trace.defined, n ∈ s.trace.defined ∨ ctx.tree.packageOf n ∈ units := by
  induction units generalizing s outputs with
  | nil =>
    rw [List.mapM_nil] at done
    cases done
    exact ⟨rfl, fun n => .inl⟩
  | cons unit units ih =>
    rw [List.mapM_cons] at done
    obtain ⟨output, middle, first, rest⟩ := bind_eq_ok.mp done
    obtain ⟨others, last, later, returned⟩ := bind_eq_ok.mp rest
    cases returned
    obtain ⟨still, defined⟩ := generateUnit_confined inherits (areUnits unit List.mem_cons_self) first
    obtain ⟨stillLast, definedLast⟩ := ih (fun u listed => areUnits u (List.mem_cons_of_mem _ listed)) later
    refine ⟨stillLast.trans still, fun n listed => ?_⟩
    rcases definedLast n listed with early | further
    · refine (defined n early).imp_right fun home => ?_
      rw [home]
      exact List.mem_cons_self
    · exact .inr (List.mem_cons_of_mem _ further)

/-- The turn of a unit in a generation from `s`: the units `earlier` have had theirs, nothing is under way, and
nothing of the unit's package has been declared. -/
structure Turn (ctx : Context) (s : Session) (earlier : List Nat) (made : List UnitOutput) (output : UnitOutput)
    (middle after : Session) : Prop where
  before : earlier.mapM (generateUnit ctx) s = .ok made middle
  generated : generateUnit ctx output.node middle = .ok output after
  isUnit : ctx.tree.hasKind Kind.isUnit output.node = true
  idle : middle.trace.busy = []
  fresh : ∀ n ∈ middle.trace.defined, ctx.tree.packageOf n ≠ output.node

omit inherits in
theorem Turn.through {earlier : List Nat} {made : List UnitOutput} {output : UnitOutput} {middle after : Session}
    (turn : Turn ctx s earlier made output middle after) :
    (earlier ++ [output.node]).mapM (generateUnit ctx) s = .ok (made ++ [output]) after := by
  rw [List.mapM_append, bind_of_ok turn.before, List.mapM_cons, bind_assoc, bind_of_ok turn.generated]
  rfl

section

variable {units : List Nat} (distinct : units.Nodup)
  (areUnits : ∀ u ∈ units, ctx.tree.hasKind Kind.isUnit u = true) (idle : s.trace.busy = [])
  (fresh : ∀ n ∈ s.trace.defined, ctx.tree.packageOf n ∉ units) {outputs : List UnitOutput}
  (done : units.mapM (generateUnit ctx) s = .ok outputs s')
include distinct areUnits idle fresh done

theorem exists_turn {earlier later : List Nat} (split : units = earlier ++ unit :: later) :
    ∃ made output rest middle after, outputs = made ++ output :: rest ∧ output.node = unit ∧
      Turn ctx s earlier made output middle after := by
  subst split
  rw [List.mapM_append] at done
  obtain ⟨made, middle, first, second⟩ := bind_eq_ok.mp done
  obtain ⟨others, last, further, joined⟩ := bind_eq_ok.mp second
  cases joined
  rw [List.mapM_cons] at further
  obtain ⟨output, after, generated, remaining⟩ := bind_eq_ok.mp further
  obtain ⟨rest, final, -, returned⟩ := bind_eq_ok.mp remaining
  cases returned
  obtain ⟨-, -, -, -, -, -, -, -, -, -, -, -, -, -, node, -⟩ := generateUnit_ok generated
  have isUnit := areUnits unit (List.mem_append_right _ List.mem_cons_self)
  obtain ⟨still, defined⟩ :=
    mapM_generateUnit_confined inherits (fun u listed => areUnits u (List.mem_append_left _ listed)) first
  have apart : unit ∉ earlier := fun early =>
    (List.nodup_append.mp distinct).2.2 unit early unit List.mem_cons_self rfl
  refine ⟨made, output, rest, middle, after, rfl, node, first, node ▸ generated, node ▸ isUnit, still.trans idle, ?_⟩
  intro n listed home
  rw [node] at home
  rcases defined n listed with early | package
  · exact fresh n early (home ▸ List.mem_append_right _ List.mem_cons_self)
  · exact apart (home ▸ package)

theorem exists_turn_of_mem {output : UnitOutput} (listed : output ∈ outputs) :
    ∃ earlier later made middle after, units = earlier ++ output.node :: later ∧
      Turn ctx s earlier made output middle after := by
  have nodes := mapM_generateUnit_nodes done
  obtain ⟨front, back, rfl⟩ := List.append_of_mem listed
  rw [List.map_append, List.map_cons] at nodes
  obtain ⟨made, same, rest, middle, after, all, -, turn⟩ :=
    exists_turn inherits distinct areUnits idle fresh done nodes.symm
  -- The units before this one made as many outputs as there are before it.
  have length : front.length = made.length := by
    simpa using congrArg List.length (mapM_generateUnit_nodes turn.before).symm
  obtain ⟨-, tails⟩ := List.append_inj all length
  cases tails
  exact ⟨_, _, made, middle, after, nodes.symm, turn⟩

end

end Emit

end AdaStubs
