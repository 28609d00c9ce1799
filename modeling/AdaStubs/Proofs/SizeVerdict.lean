import Mathlib.Logic.Relation
import AdaStubs.Proofs.FixedSize

/-!
# What the search for sizes finds

The types of fixed size are the least set that is closed under making types of them. The search decides it, or
fails at the first reference that is none to a type, and does so whatever has been looked into before. A type
that is put aside is answered to be of variable size, which is right although it has not been decided: the
search has come back to it, and a type that leads back to itself is neither of fixed size nor refused.
-/

namespace AdaStubs

open Run

namespace Tree

/-- The types that decide on the size of `n`, if it is not variable anyway. -/
def sizeParts (t : Tree) (n : Nat) : Except Fault (Option (List Nat)) := do
  let ⟨_, _, kind, _, _⟩ ← t.need n
  match kind with
  | .primitive p => return if p.isFixedSize then some [] else none
  | .enum | .fixed _ _ => return some []
  | .sequence _ _ | .string _ _ | .interface _ | .union _ => return none
  | .array _ element => return some [element]
  | .typedef base => return some [base]
  | .struct | .exception => return some (SizeTable.fieldTypes t n)
  | .module | .constant _ _ | .attribute _ _ | .operation _ _ _ | .argument _ _ | .field _
  | .branch _ _ | .enumerator => throw (.error (.wrongKind n "type" kind))

inductive FixedSize (t : Tree) : Nat → Prop
  | made {n : Nat} {parts : List Nat} (found : t.sizeParts n = .ok (some parts)) (each : ∀ r ∈ parts, t.FixedSize r) :
    FixedSize t n

/-- The search at `n` comes to a reference that is none to a type, past types of fixed size only. -/
inductive Refused (t : Tree) : Nat → Fault → Prop
  | here {n : Nat} {fault : Fault} (failed : t.sizeParts n = .error fault) : Refused t n fault
  | part {n r : Nat} {front back : List Nat} {fault : Fault} (found : t.sizeParts n = .ok (some (front ++ r :: back)))
      (fixed : ∀ q ∈ front, t.FixedSize q) (refused : Refused t r fault) : Refused t n fault

/-- The search at `n` goes on to `r`. -/
def LooksInto (t : Tree) (n r : Nat) : Prop :=
  ∃ front back, t.sizeParts n = .ok (some (front ++ r :: back)) ∧ ∀ q ∈ front, t.FixedSize q

def SizeAnswer (t : Tree) (n : Nat) : Except Fault Bool → Prop
  | .ok true => t.FixedSize n
  | .ok false => ¬ t.FixedSize n ∧ ∀ fault, ¬ t.Refused n fault
  | .error fault => t.Refused n fault

variable {t : Tree} {n r : Nat} {fault : Fault}

theorem FixedSize.not_refused (fixed : t.FixedSize n) : ¬ t.Refused n fault := by
  induction fixed with
  | made found each ih =>
    rintro (failed | ⟨parts, front, refused⟩)
    · cases found.symm.trans failed
    · cases found.symm.trans parts
      exact ih _ (by simp) refused

/-- Of two places in a list, with nothing but `p` before either, one that is not `p` is not before the other. -/
theorem same_place {p : Nat → Prop} {front front' back back' : List Nat} {r r' : Nat}
    (same : front ++ r :: back = front' ++ r' :: back') (before : ∀ q ∈ front, p q) (before' : ∀ q ∈ front', p q) :
    r = r' ∨ p r ∨ p r' := by
  rcases List.append_eq_append_iff.mp same with ⟨middle, rfl, rest⟩ | ⟨middle, rfl, rest⟩
  all_goals
    cases middle with
    | nil => simp_all
    | cons q middle => simp_all

theorem Refused.unique {fault' : Fault} (refused : t.Refused n fault) (again : t.Refused n fault') : fault = fault' := by
  induction refused with
  | here failed =>
    cases again with
    | here failed' => cases failed.symm.trans failed'; rfl
    | part found => cases failed.symm.trans found
  | part found fixed refused ih =>
    cases again with
    | here failed => cases found.symm.trans failed
    | part found' fixed' refused' =>
      have same := Option.some.inj (Except.ok.inj (found.symm.trans found'))
      rcases Tree.same_place same fixed fixed' with rfl | first | second
      · exact ih refused'
      · exact absurd refused first.not_refused
      · exact absurd refused' second.not_refused

theorem SizeAnswer.unique {answer answer' : Except Fault Bool} (first : t.SizeAnswer n answer)
    (second : t.SizeAnswer n answer') : answer = answer' := by
  rcases answer with fault | _ | _ <;> rcases answer' with fault' | _ | _
  · rw [Refused.unique first second]
  · exact absurd first (second.2 fault)
  · exact absurd first (FixedSize.not_refused second)
  · exact absurd second (first.2 fault')
  · rfl
  · exact absurd second first.1
  · exact absurd second (FixedSize.not_refused first)
  · exact absurd first second.1
  · rfl

/-! ## Circles -/

theorem FixedSize.acc (fixed : t.FixedSize n) : Acc (fun r n => t.LooksInto n r) n := by
  induction fixed with
  | made found each ih =>
    constructor
    rintro r ⟨front, back, found', -⟩
    cases found.symm.trans found'
    exact ih r (by simp)

theorem Refused.acc (refused : t.Refused n fault) : Acc (fun r n => t.LooksInto n r) n := by
  induction refused with
  | here failed =>
    constructor
    rintro r ⟨front, back, found, -⟩
    cases failed.symm.trans found
  | part found fixed refused ih =>
    constructor
    rintro q ⟨front, back, found', fixed'⟩
    have same := Option.some.inj (Except.ok.inj (found.symm.trans found'))
    rcases Tree.same_place same fixed fixed' with rfl | first | second
    · exact ih
    · exact absurd refused first.not_refused
    · exact second.acc

/-- A type that leads back to itself is not decided by the types it is made of. -/
theorem variable_of_circle (circle : Relation.TransGen t.LooksInto n n) : t.SizeAnswer n (.ok false) := by
  have endless (acc : Acc (fun r n => t.LooksInto n r) n) : False := by
    induction acc with
    | intro n _ ih =>
      obtain ⟨r, first, rest⟩ := Relation.TransGen.head'_iff.mp circle
      exact ih r first (.tail' rest first)
  exact ⟨fun fixed => endless fixed.acc, fun fault refused => endless refused.acc⟩

end Tree

/-! ## The search -/

namespace SizeTable

variable {t : Tree} {n : Nat} {busy : List Nat}

/-- What is settled is right. -/
def Sound (t : Tree) (table : SizeTable) : Prop :=
  ∀ n fixed, table.settled.lookup n = some fixed → t.SizeAnswer n (.ok fixed)

/-- A search that ends with the types `busy` put aside has answered for `n` and settled what it has found out. -/
def Found (t : Tree) (busy : List Nat) (n : Nat) : EStateM.Result Fault SizeTable Bool → Prop
  | .ok fixed after => t.SizeAnswer n (.ok fixed) ∧ after.Sound t ∧ after.busy = busy
  | .error fault after => t.SizeAnswer n (.error fault) ∧ after.Sound t ∧ after.busy = busy

def Finds (t : Tree) (busy : List Nat) (n : Nat) (act : Sizing Bool) : Prop :=
  ∀ table, table.Sound t → table.busy = busy → Found t busy n (act table)

theorem Finds.pure {fixed : Bool} (answer : t.SizeAnswer n (.ok fixed)) : Finds t busy n (Pure.pure fixed) :=
  fun _ sound same => ⟨answer, sound, same⟩

theorem judge_eq (recurse : Nat → Sizing Bool) (n : Nat) :
    judge t recurse n = (do let parts ← t.sizeParts n; parts.elim (pure false) (·.allM recurse)) := by
  have single (r : Nat) : [r].allM recurse = recurse r := by
    rw [← bind_pure (recurse r)]
    exact bind_congr fun fixed => by cases fixed <;> rfl
  unfold judge Tree.sizeParts
  cases t.need n with
  | error fault => rfl
  | ok node =>
    obtain ⟨_, _, kind, _, _⟩ := node
    cases kind with
    | primitive p =>
      show pure p.isFixedSize =
        (if p.isFixedSize then some [] else none : Option (List Nat)).elim (pure false) (·.allM recurse)
      cases p.isFixedSize <;> rfl
    | array dims element => exact (single element).symm
    | typedef base => exact (single base).symm
    | _ => rfl

theorem allM_finds {recurse : Nat → Sizing Bool} {front rest : List Nat}
    (found : t.sizeParts n = .ok (some (front ++ rest))) (fixed : ∀ q ∈ front, t.FixedSize q)
    (each : ∀ r, t.LooksInto n r → Finds t busy r (recurse r)) : Finds t busy n (rest.allM recurse) := by
  induction rest generalizing front with
  | nil =>
    rw [List.append_nil] at found
    exact .pure (Tree.FixedSize.made found fixed)
  | cons r rest ih =>
    intro table sound same
    have finds := each r ⟨front, rest, found, fixed⟩ table sound same
    show Found t busy n ((recurse r >>= fun fixed => match fixed with
      | true => rest.allM recurse
      | false => pure false) table)
    rw [bind_apply]
    cases run : recurse r table with
    | error fault after =>
      rw [run] at finds
      exact ⟨.part found fixed finds.1, finds.2⟩
    | ok answer after =>
      rw [run] at finds
      obtain ⟨answered, soundAfter, sameAfter⟩ := finds
      cases answer with
      | true =>
        have more : ∀ q ∈ front ++ [r], t.FixedSize q := by
          intro q listed
          rcases List.mem_append.mp listed with early | last
          · exact fixed q early
          · exact List.mem_singleton.mp last ▸ answered
        exact ih (by simpa using found) more after soundAfter sameAfter
      | false =>
        refine ⟨⟨?_, ?_⟩, soundAfter, sameAfter⟩
        · rintro ⟨found', each'⟩
          cases found.symm.trans found'
          exact answered.1 (each' r (by simp))
        · rintro fault (failed | ⟨found', fixed', refused⟩)
          · cases found.symm.trans failed
          · have same := Option.some.inj (Except.ok.inj (found.symm.trans found'))
            rcases Tree.same_place same fixed fixed' with rfl | first | second
            · exact answered.2 fault refused
            · exact answered.1 first
            · exact second.not_refused refused

theorem judge_finds {recurse : Nat → Sizing Bool} (each : ∀ r, t.LooksInto n r → Finds t busy r (recurse r)) :
    Finds t busy n (judge t recurse n) := by
  rw [judge_eq]
  cases parts : t.sizeParts n with
  | error fault => exact fun table sound same => ⟨.here parts, sound, same⟩
  | ok given =>
    cases given with
    | some list =>
      have whole : t.sizeParts n = .ok (some ([] ++ list)) := parts
      exact allM_finds whole nofun each
    | none =>
      refine .pure ⟨?_, ?_⟩
      · rintro ⟨found, -⟩
        cases parts.symm.trans found
      · rintro fault (failed | ⟨found, -, -⟩)
        · cases parts.symm.trans failed
        · cases parts.symm.trans found

theorem during_finds {act : Sizing Bool} (inside : Finds t (n :: busy) n act) : Finds t busy n (during n act) := by
  intro table sound same
  have finds := inside { table with busy := n :: table.busy } sound (congrArg _ same)
  unfold during
  cases run : act { table with busy := n :: table.busy } with
  | ok fixed after =>
    rw [run] at finds
    exact ⟨finds.1, finds.2.1, by simp [finds.2.2]⟩
  | error fault after =>
    rw [run] at finds
    exact ⟨finds.1, finds.2.1, by simp [finds.2.2]⟩

theorem Sound.settle {table : SizeTable} {fixed : Bool} (sound : table.Sound t) (answer : t.SizeAnswer n (.ok fixed)) :
    Sound t { table with settled := (n, fixed) :: table.settled } := by
  intro m known listed
  simp only [List.lookup_cons] at listed
  split at listed
  · simp_all
  · exact sound m known listed

theorem settle_finds {act : Sizing Bool} (finds : Finds t busy n act) :
    Finds t busy n (do let fixed ← act; settle n fixed; return fixed) := by
  intro table sound same
  have finds := finds table sound same
  rw [bind_apply]
  cases run : act table with
  | ok fixed after =>
    rw [run] at finds
    exact ⟨finds.1, finds.2.1.settle finds.1, finds.2.2⟩
  | error fault after =>
    rw [run] at finds
    exact finds

theorem mem_ids_of_looksInto {r : Nat} (looks : t.LooksInto n r) : n ∈ t.ids := by
  obtain ⟨front, back, found, -⟩ := looks
  unfold Tree.sizeParts at found
  cases present : t.node? n with
  | none =>
    rw [Tree.need, present] at found
    cases found
  | some node => exact Tree.mem_ids_of_kind? (by rw [Tree.kind?, present]; rfl)

/-- The types put aside lead to the one that is looked into. -/
theorem isFixedWithin_finds {depth : Nat} (room : t.Room busy depth)
    (path : ∀ b ∈ busy, Relation.TransGen t.LooksInto b n) : Finds t busy n (isFixedWithin t depth n) := by
  induction depth generalizing busy n with
  | zero => exact absurd room.not_zero id
  | succ depth ih =>
    intro table sound same
    rw [isFixedWithin, bind_of_ok (get_apply table)]
    cases known : table.settled.lookup n with
    | some fixed => exact ⟨sound n fixed known, sound, same⟩
    | none =>
      dsimp only
      by_cases aside : table.busy.contains n = true
      · rw [if_pos aside]
        have circle := path n (same ▸ List.contains_iff_mem.mp aside)
        exact ⟨Tree.variable_of_circle circle, sound, same⟩
      · rw [if_neg aside]
        refine settle_finds (during_finds (judge_finds fun r looks => ih ?_ ?_)) table sound same
        · refine room.push (mem_ids_of_looksInto looks) fun listed => aside ?_
          exact List.contains_iff_mem.mpr (same ▸ listed)
        · rintro b (_ | ⟨_, listed⟩)
          · exact .single looks
          · exact .tail (path b listed) looks

/-- The answer for a type, and what is settled on the way, are right; nothing else is left behind. -/
theorem isFixed_finds (t : Tree) (n : Nat) : Finds t [] n (isFixed t n) :=
  isFixedWithin_finds (.start t) nofun

end SizeTable

end AdaStubs
