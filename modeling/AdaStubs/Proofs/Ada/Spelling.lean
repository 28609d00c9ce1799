import AdaStubs.Ada.Identifier

/-!
# Free spellings

Numbering a spelling gives spellings that differ also after folding, so that one of them is free however
many are used: `distinct` always answers a free one.
-/

namespace AdaStubs.Ada

theorem toList_fold (s : String) : (fold s).toList = s.toList.map Char.toLower := String.toList_map

theorem fold_eq_iff {s t : String} : fold s = t ↔ s.toList.map Char.toLower = t.toList := by
  rw [← String.toList_inj, toList_fold]

theorem nodup_map_fold {words : List String} (apart : (words.map fun s => s.toList.map Char.toLower).Nodup) :
    (words.map fold).Nodup := by
  have lists : ((words.map fold).map String.toList).Nodup := by
    simpa only [List.map_map, Function.comp_def, toList_fold] using apart
  exact List.Pairwise.of_map String.toList (fun _ _ differ same => differ (congrArg String.toList same)) lists

theorem toLower_of_isDigit {c : Char} (digit : c.isDigit = true) : c.toLower = c := by
  simp only [Char.isDigit, Bool.and_eq_true, decide_eq_true_eq] at digit
  have low : ¬ (c.val ≥ 'A'.val ∧ c.val ≤ 'Z'.val) := by
    intro capital
    exact absurd (UInt32.le_trans capital.1 digit.2) (by decide)
  unfold Char.toLower
  split
  · next capital => exact absurd capital low
  · rfl

theorem toList_numbered (base : String) (k : Nat) :
    (numbered base k).toList = base.toList ++ '_' :: Nat.toDigits 10 k := by
  simp [numbered, toString]

theorem toList_fold_numbered (base : String) (k : Nat) :
    (fold (numbered base k)).toList = (fold base).toList ++ '_' :: Nat.toDigits 10 k := by
  have digits : (Nat.toDigits 10 k).map Char.toLower = Nat.toDigits 10 k := by
    refine (List.map_congr_left fun c listed => ?_).trans (List.map_id _)
    exact toLower_of_isDigit (Nat.isDigit_of_mem_toDigits (by decide) (by decide) listed)
  have underscore : '_'.toLower = '_' := by decide
  rw [toList_fold, toList_fold, toList_numbered, List.map_append, List.map_cons, digits, underscore]

theorem fold_numbered_injective {base : String} {j k : Nat}
    (same : fold (numbered base j) = fold (numbered base k)) : j = k := by
  have lists := congrArg String.toList same
  rw [toList_fold_numbered, toList_fold_numbered] at lists
  have digits := (List.cons.inj (List.append_cancel_left lists)).2
  have values := congrArg (Nat.ofDigitChars 10 · 0) digits
  simpa using values

theorem fold_numbered_ne (base : String) (k : Nat) : fold (numbered base k) ≠ fold base := by
  intro same
  have lists := congrArg (List.length ∘ String.toList) same
  simp [toList_fold_numbered] at lists

/-- A spelling that is not free is preceded by others that are not. -/
theorem numbered_mem_of_firstFree_mem {used : List String} {base : String} (tries k : Nat)
    (taken : fold (firstFree used base tries k) ∈ used) :
    ∀ j, k ≤ j → j ≤ k + tries → fold (numbered base j) ∈ used := by
  induction tries generalizing k with
  | zero =>
    intro j lower upper
    have same : j = k := by omega
    rwa [same]
  | succ tries ih =>
    intro j lower upper
    unfold firstFree at taken
    split at taken
    · next first =>
      by_cases same : j = k
      · rw [same]
        exact List.contains_iff_mem.mp first
      · exact ih (k + 1) taken j (by omega) (by omega)
    · next free => exact absurd (List.contains_iff_mem.mpr taken) free

theorem fold_distinct_not_mem (used : List String) (base : String) : fold (distinct used base) ∉ used := by
  unfold distinct
  split
  · next baseTaken =>
    intro taken
    -- Otherwise `base` and its first `used.length + 1` numbered spellings would all be used.
    let spellings := fold base :: (List.range (used.length + 1)).map fun j => fold (numbered base (j + 1))
    have apart : spellings.Nodup := by
      refine List.nodup_cons.mpr ⟨?_, List.Pairwise.map _ ?_ List.nodup_range⟩
      · intro listed
        obtain ⟨j, -, same⟩ := List.mem_map.mp listed
        exact fold_numbered_ne base (j + 1) same
      · intro i j differ same
        have := fold_numbered_injective same
        omega
    have allUsed : spellings ⊆ used := by
      intro spelling listed
      rcases List.mem_cons.mp listed with rfl | numberedOne
      · exact List.contains_iff_mem.mp baseTaken
      · obtain ⟨j, bounded, rfl⟩ := List.mem_map.mp numberedOne
        have bound := List.mem_range.mp bounded
        exact numbered_mem_of_firstFree_mem used.length 1 taken (j + 1) (by omega) (by omega)
    have tooMany := apart.length_le_of_subset allUsed
    simp only [spellings, List.length_cons, List.length_map, List.length_range] at tooMany
    omega
  · next free => exact fun taken => free (List.contains_iff_mem.mpr taken)

end AdaStubs.Ada
