import AdaStubs.Proofs.Emission.Advance
import AdaStubs.Proofs.Generation.DeclarationOrder

/-!
# What holds of every session

A session adds to the texts it is given and never takes anything back, even where it fails. Over all its
calls, for whichever artifacts, each type is declared at most once; and since nothing stays under way when a
call ends, what has failed is taken up anew when it is asked for again.

Main statements: `call_appends`, `declared_once_in_session`, `guards_released`.
-/

namespace AdaStubs

open Ada Run Emit

/-! ## Texts -/

/-- The writer `w'` has gone on from `w`: the text of `w` is still there, and the next line starts as deep. -/
structure Writer.Continues (w w' : Writer) : Prop where
  text : ∃ more, w'.text = w.text ++ more
  depth_eq : w'.depth = w.depth
  width_eq : w'.width = w.width

theorem Writer.continues_write (w : Writer) (code : Code) : w.Continues (w.write code) := by
  rw [w.write_eq]
  exact ⟨⟨_, rfl⟩, rfl, rfl⟩

theorem Sheet.add_of_nothing (sheet : Sheet) (runtime : RuntimeNames) {reply : Reply} (items : reply.items = [])
    (hidden : reply.hidden = []) : sheet.add runtime reply = sheet := by
  unfold Sheet.add
  rw [items, hidden]
  rfl

theorem Call.write_final_of_ok {ctx : Context} {call : Call} {reply : Reply} {s s' : Session} {sheet : Sheet}
    (done : call.perform ctx s = .ok reply s') :
    (call.write ctx).final (s, sheet) = (s', sheet.add ctx.settings.runtime reply) := by
  simp only [final, Call.write, done]

theorem Call.write_final_of_error {ctx : Context} {call : Call} {fault : Fault} {s s' : Session} {sheet : Sheet}
    (failed : call.perform ctx s = .error fault s') : (call.write ctx).final (s, sheet) = (s', sheet) := by
  simp only [final, Call.write, failed]

/-- Every call, whatever state the session is in and whether or not it can answer, leaves what is on the sheet
and what has been hoisted where it is and adds after it; it goes on with the dependencies and the marks that
it finds. -/
theorem call_appends (script : List Step) (settings : Settings) (call : Call) (s : Session) (sheet : Sheet) :
    let ctx : Context := ⟨.ofSteps script, settings⟩
    let (after, written) := (call.write ctx).final (s, sheet)
    sheet.body.Continues written.body ∧ sheet.hidden.Continues written.hidden ∧
    s.hoisted <+: after.hoisted ∧
    (∃ more, itemsText settings after.hoisted = itemsText settings s.hoisted ++ more) ∧
    s.deps.Extends after.deps ∧ ∀ node, s.progress.flags node ≤ after.progress.flags node := by
  intro ctx
  have wf : ctx.tree.WellFormed := Tree.ofSteps_wellFormed script
  have kept {after : Session} (final : (call.perform ctx).final s = after) : s.hoisted <+: after.hoisted ∧
      (∃ more, itemsText settings after.hoisted = itemsText settings s.hoisted ++ more) ∧
      s.deps.Extends after.deps ∧ ∀ node, s.progress.flags node ≤ after.progress.flags node := by
    by_cases taken : call = .takeDeclared
    · subst taken final
      exact ⟨List.prefix_rfl, ⟨"", String.append_empty.symm⟩, .refl _, fun _ => Flags.le_rfl⟩
    · have advances := perform_advances wf taken s
      rw [final] at advances
      obtain ⟨items, split⟩ := advances.hoisted
      exact ⟨advances.hoisted, ⟨_, split ▸ itemsText_append settings s.hoisted items⟩, advances.deps, advances.flags⟩
  cases run : call.perform ctx s with
  | ok reply after =>
    rw [Call.write_final_of_ok run]
    exact ⟨Writer.continues_write _ _, Writer.continues_write _ _, kept (final_of_ok run)⟩
  | error fault after =>
    rw [Call.write_final_of_error run]
    exact ⟨Writer.continues_write _ [], Writer.continues_write _ [], kept (final_of_error run)⟩

/-! ## Histories -/

namespace Event

def call : Event → Call
  | here call | elsewhere _ call => call

/-- The session that the call is made on. -/
def view (s : Session) : Event → Session
  | here _ => s
  | elsewhere deps _ => s.turnTo deps

end Event

namespace Session

/-- What an event hands over as declared. -/
def handsOver (ctx : Context) (s : Session) (event : Event) : List Nat :=
  match (event.call.perform ctx).outcome (event.view s) with
  | .ok (.declared nodes) => nodes
  | _ => []

/-- All that is handed over in a history, in order. -/
def handedOver (ctx : Context) : Session → List Event → List Nat
  | _, [] => []
  | s, event :: history => s.handsOver ctx event ++ (s.next ctx event).handedOver ctx history

variable {ctx : Context} {s : Session}

theorem next_of_takeDeclared {event : Event} (taken : event.call = .takeDeclared) :
    s.next ctx event = { s with declared := [] } ∧ s.handsOver ctx event = s.declared := by
  cases event <;> cases taken <;> exact ⟨rfl, rfl⟩

theorem perform_hands_nothing {call : Call} (keeps : call ≠ .takeDeclared) :
    (call.perform ctx).Returns fun reply => ∀ nodes, reply ≠ .declared nodes := by
  cases call with
  | takeDeclared => exact absurd rfl keeps
  | _ => exact Returns.bind fun _ => Returns.pure fun _ => by simp

theorem handsOver_eq_nil {event : Event} (keeps : event.call ≠ .takeDeclared) : s.handsOver ctx event = [] := by
  unfold handsOver
  split
  · next nodes given =>
    obtain ⟨after, done⟩ := exists_of_outcome given
    exact absurd rfl (perform_hands_nothing keeps _ ⟨_, _, done⟩ nodes)
  · rfl

/-- What is done for another artifact leaves the dependencies and the hoisted items of this one alone. -/
theorem next_advances (wf : ctx.tree.WellFormed) {event : Event} (keeps : event.call ≠ .takeDeclared) :
    s.Advances ctx (s.next ctx event) := by
  cases event with
  | here call => exact perform_advances wf keeps s
  | elsewhere deps call =>
    have aside := perform_advances wf keeps (s.turnTo deps)
    exact ⟨.refl _, List.prefix_rfl, aside.flags, aside.busy_eq, aside.sizing_eq, aside.untouched, aside.declared⟩

/-- The types `declared` are those that have been declared in the session, each listed once. -/
structure Accounts (ctx : Context) (s : Session) (declared : List Nat) : Prop where
  nodup : declared.Nodup
  mem_iff : ∀ n, n ∈ declared ↔ s.progress.isDefined n = true ∧ awaitsMarshalling ctx .declaration n = true

section

variable (wf : ctx.tree.WellFormed)
include wf

theorem Accounts.next {taken : List Nat} (accounts : s.Accounts ctx (taken ++ s.declared)) (event : Event) :
    (s.next ctx event).Accounts ctx (taken ++ s.handsOver ctx event ++ (s.next ctx event).declared) := by
  by_cases keeps : event.call = .takeDeclared
  · obtain ⟨after, handed⟩ : s.next ctx event = _ ∧ s.handsOver ctx event = _ := next_of_takeDeclared keeps
    rw [after, handed]
    simpa using ⟨accounts.nodup, accounts.mem_iff⟩
  · have advances := next_advances (s := s) wf keeps
    obtain ⟨new, declared, distinct, mem_new⟩ := advances.declared
    have grows (n : Nat) : s.progress.isDefined n = true → (s.next ctx event).progress.isDefined n = true :=
      (advances.flags n).1
    rw [handsOver_eq_nil keeps, declared, List.append_nil, ← List.append_assoc]
    constructor
    · refine List.nodup_append.mpr ⟨accounts.nodup, distinct, ?_⟩
      rintro n listed _ again rfl
      have known := (accounts.mem_iff n).mp listed
      have fresh := (mem_new n).mp again
      simp_all
    · intro n
      rw [List.mem_append, accounts.mem_iff, mem_new]
      grind

theorem Accounts.after {taken : List Nat} (accounts : s.Accounts ctx (taken ++ s.declared)) (history : List Event) :
    (s.after ctx history).Accounts ctx (taken ++ s.handedOver ctx history ++ (s.after ctx history).declared) := by
  induction history generalizing s taken with
  | nil => simpa [handedOver, Session.after] using accounts
  | cons event history ih =>
    have rest := ih (accounts.next wf event)
    rwa [List.append_assoc taken] at rest

theorem flags_after (history : List Event) (n : Nat) :
    s.progress.flags n ≤ (s.after ctx history).progress.flags n := by
  induction history generalizing s with
  | nil => exact Flags.le_rfl
  | cons event history ih =>
    refine Flags.le_trans ?_ ih
    by_cases keeps : event.call = .takeDeclared
    · rw [(next_of_takeDeclared keeps).1]
      exact Flags.le_rfl
    · exact (next_advances wf keeps).flags n

end

end Session

/-! ## What has been written already -/

namespace Emit

variable {ctx : Context} {a : Aspect} {node : Nat} {s : Session}

theorem produce_of_isDone (resolve : Nat → Emit String) (done : a.isDone s.progress node = true) :
    produce ctx a resolve node s = .ok [] s := by
  rw [produce_run, done, Bool.true_or, if_pos rfl]

/-- The aspect of `node` has been written and `items` are hoisted. -/
structure Satisfied (a : Aspect) (node : Nat) (items : List Item) (s : Session) : Prop where
  done : a.isDone s.progress node = true
  hoisted_eq : s.hoisted = items

theorem withNames_satisfied {α : Type} {items : List Item} (act : NameTable.Lookup α) :
    (withNames act).Follows (.upholding (Satisfied a node items)) [] := by
  intro s holds
  unfold withNames
  cases act s.names with
  | ok result names => exact ⟨⟨holds.done, holds.hoisted_eq⟩, trivial, fun _ _ => trivial⟩
  | error fault names => exact ⟨⟨holds.done, holds.hoisted_eq⟩, trivial⟩

theorem updateDeps_satisfied {items : List Item} (f : Dependencies → Dependencies) :
    (updateDeps f).Follows (.upholding (Satisfied a node items)) [] :=
  .modify fun holds => ⟨⟨holds.done, holds.hoisted_eq⟩, trivial⟩

theorem satisfied_notes (wf : ctx.tree.WellFormed) (items : List Item) :
    Notes ctx (.upholding (Satisfied a node items)) where
  lawful := Conduct.upholding_lawful _
  wellFormed := wf
  localNames _ := withNames_satisfied _
  fullNames _ := withNames_satisfied _
  requires _ := updateDeps_satisfied _
  uses _ := updateDeps_satisfied _
  records _ _ := updateDeps_satisfied _
  mentions _ _ := updateDeps_satisfied _
  marks b _ := .modify fun holds => ⟨⟨by cases a <;> cases b <;> exact holds.done, holds.hoisted_eq⟩, trivial⟩
  units _ := .inr fun _ => trivial

theorem satisfied_allows (wf : ctx.tree.WellFormed) (items : List Item) :
    Allows ctx (.upholding (Satisfied a node items)) := by
  apply (satisfied_notes wf items).allows
  case sizes =>
    intro array dims element _ s holds
    unfold isFixedSize withSizes
    cases SizeTable.isFixed ctx.tree element s.sizes with
    | ok fixed sizes => exact ⟨⟨holds.done, holds.hoisted_eq⟩, trivial, fun _ _ => trivial⟩
    | error fault sizes => exact ⟨⟨holds.done, holds.hoisted_eq⟩, trivial⟩
  case enumerators => exact fun _ _ => .inr fun _ => trivial
  case bases => exact fun _ _ _ => ⟨updateDeps_satisfied _, withNames_satisfied _⟩
  case bounds => exact fun _ _ => trivial

/-- A reference to what has been written hoists nothing. -/
theorem nameFor_satisfied (wf : ctx.tree.WellFormed) (items : List Item) :
    (nameFor ctx a node).Follows (.upholding (Satisfied a node items)) [] := by
  apply refer_follows (satisfied_notes wf items) (satisfied_allows wf items)
  · exact expectType_follows (Conduct.upholding_lawful _) (.inr fun _ => trivial) fun _ _ => trivial
  · intro _ s seen _ _ s holds
    unfold place
    rw [bind_of_ok (produce_of_isDone _ holds.done)]
    exact ⟨⟨holds.done, by simp [holds.hoisted_eq]⟩, trivial, fun _ _ => trivial⟩

end Emit

/-- The calls by which an aspect of `node` is written or referred to. -/
def Aspect.calls : Aspect → Nat → List Call
  | declaration, node => [.declaration node, .nameType node]
  | marshalling, node => [.marshalBody node, .nameCodec node]

/-- Neither the sheet nor the hoisted items get anything from a call for what has been written. -/
theorem Aspect.calls_add_nothing {ctx : Context} (wf : ctx.tree.WellFormed) {a : Aspect} {node : Nat} {s : Session}
    (done : a.isDone s.progress node = true) (sheet : Sheet) :
    ∀ call ∈ a.calls node, ((call.write ctx).final (s, sheet)).1.hoisted = s.hoisted ∧
      ((call.write ctx).final (s, sheet)).2 = sheet := by
  have writes {call : Call}
      (performs : call.perform ctx = do return .written (← produce ctx a (nameFor ctx a) node) []) :
      ((call.write ctx).final (s, sheet)).1.hoisted = s.hoisted ∧ ((call.write ctx).final (s, sheet)).2 = sheet := by
    have nothing : call.perform ctx s = .ok (.written [] []) s := by
      rw [performs, bind_of_ok (produce_of_isDone _ done)]
      rfl
    rw [Call.write_final_of_ok nothing]
    exact ⟨rfl, sheet.add_of_nothing _ rfl rfl⟩
  have names {call : Call} (performs : call.perform ctx = do return .name (← nameFor ctx a node)) :
      ((call.write ctx).final (s, sheet)).1.hoisted = s.hoisted ∧ ((call.write ctx).final (s, sheet)).2 = sheet := by
    have satisfied : Satisfied a node s.hoisted s := ⟨done, rfl⟩
    have follows := nameFor_satisfied wf s.hoisted s satisfied
    cases run : nameFor ctx a node s with
    | ok name s' =>
      rw [run] at follows
      rw [Call.write_final_of_ok (performs ▸ bind_of_ok run _)]
      exact ⟨follows.1.hoisted_eq, sheet.add_of_nothing _ rfl rfl⟩
    | error fault s' =>
      rw [run] at follows
      rw [Call.write_final_of_error (performs ▸ bind_of_error run _)]
      exact ⟨follows.1.hoisted_eq, rfl⟩
  intro call listed
  cases a <;> simp only [Aspect.calls, List.mem_cons, List.not_mem_nil, or_false] at listed <;>
    rcases listed with rfl | rfl
  · exact writes rfl
  · exact names rfl
  · exact writes rfl
  · exact names rfl

/-- Over all calls of a session, for whichever artifacts, the types handed over or still to be handed over are
those that have been declared, each once. A declaration or marshalling that has been written stays so, and
neither writing it nor referring to it puts anything on a sheet or before it. -/
theorem declared_once_in_session (script : List Step) (settings : Settings) (deps : Dependencies) (hoisted : List Item)
    (history : List Event) :
    let ctx : Context := ⟨.ofSteps script, settings⟩
    let first : Session := { Session.start with deps, hoisted }
    let s := first.after ctx history
    let declared := first.handedOver ctx history ++ s.declared
    declared.Nodup ∧
    (∀ n, n ∈ declared ↔ s.progress.isDefined n = true ∧
      ctx.tree.hasKind (fun kind => kind.isType && !kind.isPrimitive) n = true) ∧
    ∀ (a : Aspect) (node : Nat), a.isDone s.progress node = true → ∀ more : List Event,
      let later := s.after ctx more
      a.isDone later.progress node = true ∧ ∀ deps hoisted sheet, ∀ call ∈ a.calls node,
        let after := (call.write ctx).final ({ later with deps, hoisted }, sheet)
        after.1.hoisted = hoisted ∧ after.2 = sheet := by
  intro ctx first s declared
  have wf : ctx.tree.WellFormed := Tree.ofSteps_wellFormed script
  have nothing : first.Accounts ctx ([] ++ first.declared) := by
    constructor <;> simp [first, Session.start, Progress.isDefined, Progress.empty]
  have accounts := nothing.after wf history
  have awaits (n : Nat) : ctx.tree.hasKind (fun kind => kind.isType && !kind.isPrimitive) n =
      awaitsMarshalling ctx .declaration n := by simp [awaitsMarshalling]
  refine ⟨accounts.nodup, fun n => awaits n ▸ accounts.mem_iff n, ?_⟩
  intro a node done more later
  have stays : a.isDone later.progress node = true := Aspect.isDone_of_flags_le (Session.flags_after wf more node) done
  exact ⟨stays, fun deps hoisted => a.calls_add_nothing wf (s := { later with deps, hoisted }) stays⟩

/-- A module with a structure of an enumeration and of a string whose bound is refused. -/
def refusedBound : List Step :=
  [.module 0 "M", .enum 1 "Colour" ["red"], .string 1 (some (.long (-1))) false, .typedef 1 "Short" 4, .struct 1 "S",
    .field 6 "colour" 2, .field 6 "text" 5]

/-- The structure fails once its enumeration has been declared, and is declared, once, where the typedef of the
string is known. -/
def secondAttempt : List Event :=
  [.elsewhere (.told 1 []) (.declaration 6), .here .takeDeclared, .elsewhere (.told 1 [5]) (.declaration 6),
    .elsewhere (.told 1 [5]) (.declaration 6)]

theorem declared_once_in_second_attempt :
    let ctx : Context := ⟨.ofSteps refusedBound, {}⟩
    let first : Session := { Session.start with deps := .told 1 [], hoisted := [] }
    let s := first.after ctx secondAttempt
    let later := s.after ctx [.here (.nameType 99)]
    first.handedOver ctx secondAttempt = [2] ∧ s.declared = [6] ∧ ([2] ++ [6]).Nodup ∧
      s.progress.isDefined 6 = true ∧ ∀ sheet, ∀ call ∈ [Call.declaration 6, .nameType 6],
        ((call.write ctx).final ({ later with deps := .told 1 [], hoisted := [] }, sheet)).2 = sheet := by
  intro ctx first s later
  have handed : first.handedOver ctx secondAttempt = [2] := by decide +kernel
  have pending : s.declared = [6] := by decide +kernel
  have defined : s.progress.isDefined 6 = true := by decide +kernel
  obtain ⟨nodup, -, quiet⟩ := declared_once_in_session refusedBound {} (.told 1 []) [] secondAttempt
  obtain ⟨-, nothing⟩ := quiet .declaration 6 defined [.here (.nameType 99)]
  refine ⟨handed, pending, ?_, defined, fun sheet call listed => (nothing (.told 1 []) [] sheet call listed).2⟩
  rw [← handed, ← pending]
  exact nodup

/-! ## Guards -/

namespace Emit

variable {ctx : Context} {a : Aspect} {node : Nat} {s s' : Session}

theorem perform_guards (wf : ctx.tree.WellFormed) (call : Call) (s : Session) :
    ((call.perform ctx).final s).progress.busy = s.progress.busy ∧
      ((call.perform ctx).final s).sizes.busy = s.sizes.busy := by
  by_cases taken : call = .takeDeclared
  · subst taken
    exact ⟨rfl, rfl⟩
  · have advances := perform_advances wf taken s
    exact ⟨advances.busy_eq, advances.sizing_eq⟩

theorem after_guards (wf : ctx.tree.WellFormed) (s : Session) (history : List Event) :
    (s.after ctx history).progress.busy = s.progress.busy ∧ (s.after ctx history).sizes.busy = s.sizes.busy := by
  induction history generalizing s with
  | nil => exact ⟨rfl, rfl⟩
  | cons event history ih =>
    have step : (s.next ctx event).progress.busy = s.progress.busy ∧ (s.next ctx event).sizes.busy = s.sizes.busy := by
      cases event with
      | here call => exact perform_guards wf call s
      | elsewhere deps call => exact perform_guards wf call (s.turnTo deps)
    obtain ⟨busy, sizing⟩ := ih (s.next ctx event)
    exact ⟨busy.trans step.1, sizing.trans step.2⟩

/-- Where nothing is under way, an aspect that has not been written is written when it is asked for. -/
theorem produce_attempts {resolve : Nat → Emit String} {items : List Item} (idle : s.progress.busy = [])
    (undone : a.isDone s.progress node = false) (done : produce ctx a resolve node s = .ok items s') :
    a.isDone s'.progress node = true ∧
      (ctx.tree.hasKind a.writes node = true → items.filterMap Item.part? = [(a.part, node)]) := by
  rcases produce_ok done with ⟨written | busy, -⟩ | ⟨-, -, inner, run, rfl⟩
  · simp [undone] at written
  · simp [Progress.isBusy, idle] at busy
  · exact ⟨by simp [Aspect.isDone_markDone], fun writes => item_parts writes items ⟨_, _, run⟩⟩

theorem nameFor_attempts {name : String} (idle : s.progress.busy = [])
    (undone : a.isDone s.progress node = false) (done : nameFor ctx a node s = .ok name s') :
    (isExternal ctx a node).outcome s = .ok true ∨
      a.isDone s'.progress node = true ∧ (a.part, node) ∈ s'.hoisted.filterMap Item.part? := by
  unfold nameFor nameWithin refer at done
  obtain ⟨_, start, typed, rest⟩ := bind_eq_ok.mp done
  obtain ⟨rfl, isType⟩ := expectType_run typed
  obtain ⟨outside, seen, decided, rest⟩ := bind_eq_ok.mp rest
  cases outside with
  | true => exact .inl (outcome_of_ok decided)
  | false =>
    right
    obtain ⟨_, placed, written, last⟩ := bind_eq_ok.mp rest
    obtain ⟨names, rfl⟩ := typeName_run last
    obtain ⟨items, produced, run, rfl⟩ := place_ok written
    cases isExternal_sighting decided with
    | own found ordinary unreached home =>
      obtain ⟨finished, parts⟩ := produce_attempts idle undone run
      have writes : ctx.tree.hasKind a.writes node = true := by
        simp only [Tree.hasKind, found, Option.any_some] at isType ⊢
        rw [Aspect.writes_of_type isType, ordinary]
        rfl
      exact ⟨finished, by simp [List.filterMap_append, parts writes]⟩

theorem produce_failed (wf : ctx.tree.WellFormed) {fault : Fault} (undone : a.isDone s.progress node = false)
    (failed : produce ctx a (nameFor ctx a) node s = .error fault s') : a.isDone s'.progress node = false := by
  rw [produce_run] at failed
  split at failed
  · cases failed
  · have item : (a.item ctx (nameFor ctx a) node).Follows (advancing ctx) _ :=
      item_follows (advancing_allows wf) (.inr fun _ => trivial) trivial fun r _ =>
        (nameWithin_advances wf a _ r).settle fun _ _ => trivial
    have moved := follows_along_iff.mp item { s with progress := s.progress.enter node }
    split at failed
    · cases failed
    · next fault inner run =>
      cases failed
      rw [final_of_error run] at moved
      exact moved.undone undone

end Emit

/-- A call, whether it succeeds or fails, leaves under way what was under way and in the search for sizes what
was being looked into; after any history both are empty. So a declaration or marshalling that has not been
written, be it that it has failed before, is not passed over: asked for, it is written or fails anew, and a
reference to it either finds it to come from outside or has it written first. -/
theorem guards_released (script : List Step) (settings : Settings) :
    let ctx : Context := ⟨.ofSteps script, settings⟩
    (∀ (call : Call) (s : Session), ((call.perform ctx).final s).progress.busy = s.progress.busy ∧
      ((call.perform ctx).final s).sizes.busy = s.sizes.busy) ∧
    ∀ (history : List Event) (deps : Dependencies) (hoisted : List Item),
      let s := { Session.start.after ctx history with deps, hoisted }
      s.progress.busy = [] ∧ s.sizes.busy = [] ∧
      ∀ (a : Aspect) (node : Nat), a.isDone s.progress node = false →
        (∀ items after, produce ctx a (nameFor ctx a) node s = .ok items after →
          a.isDone after.progress node = true ∧
            (ctx.tree.hasKind a.writes node = true → items.filterMap Item.part? = [(a.part, node)])) ∧
        (∀ fault after, produce ctx a (nameFor ctx a) node s = .error fault after →
          a.isDone after.progress node = false) ∧
        (∀ name after, nameFor ctx a node s = .ok name after →
          (isExternal ctx a node).outcome s = .ok true ∨
            a.isDone after.progress node = true ∧ (a.part, node) ∈ after.hoisted.filterMap Item.part?) := by
  intro ctx
  have wf : ctx.tree.WellFormed := Tree.ofSteps_wellFormed script
  refine ⟨perform_guards wf, fun history deps hoisted => ?_⟩
  intro s
  obtain ⟨idle, settled⟩ := after_guards wf .start history
  refine ⟨idle, settled, fun a node undone => ⟨?_, ?_, ?_⟩⟩
  · exact fun items after => produce_attempts idle undone
  · exact fun fault after => produce_failed wf undone
  · exact fun name after => nameFor_attempts idle undone

/-- The structure that has failed is written when it is asked for again. -/
theorem refused_structure_attempted_again :
    let ctx : Context := ⟨.ofSteps refusedBound, {}⟩
    let failing := [Event.elsewhere (.told 1 []) (.declaration 6)]
    let s := { Session.start.after ctx failing with deps := .told 1 [5], hoisted := [] }
    (declaration ctx 6).outcome (Session.start.turnTo (.told 1 [])) =
        .error (.error (.negativeBound 4 (-1) "string bound")) ∧
      s.progress.busy = [] ∧ s.sizes.busy = [] ∧ s.progress.isDefined 6 = false ∧
      ∃ items after, declaration ctx 6 s = .ok items after ∧ after.progress.isDefined 6 = true ∧
        items.filterMap Item.part? = [(.declaration, 6)] := by
  intro ctx failing s
  obtain ⟨idle, sized, again⟩ := (guards_released refusedBound {}).2 failing (.told 1 [5]) []
  have undone : s.progress.isDefined 6 = false := by decide +kernel
  obtain ⟨items, given⟩ : ∃ items, (declaration ctx 6).outcome s = .ok items := by
    have succeeds : ((declaration ctx 6).outcome s).isOk = true := by decide +kernel
    cases run : (declaration ctx 6).outcome s with
    | ok items => exact ⟨items, rfl⟩
    | error fault => simp [run, Except.isOk, Except.toBool] at succeeds
  obtain ⟨after, done⟩ := exists_of_outcome given
  obtain ⟨finished, parts⟩ := (again .declaration 6 undone).1 items after done
  exact ⟨by decide +kernel, idle, sized, undone, items, after, done, finished, parts (by decide +kernel)⟩

end AdaStubs
