import GoodbyeDpi.CSem.CString

/-!
# Occurrences that do not overlap

Going through a list from the left, each occurrence is looked for behind the one before.  `occurrences` counts them
and `replaceFirst` replaces the first `k` of them; a replacement is not searched itself.
-/

namespace CSem

section

variable {α : Type} [BEq α]

/-- The number of the occurrences, `k` at most. -/
def countUpTo (find : List α) : Nat → List α → Nat
  | 0, _ => 0
  | k + 1, s =>
    match firstOcc find s with
    | none => 0
    | some j => countUpTo find k (s.drop (j + find.length)) + 1

/-- The number of the occurrences. -/
def occurrences (find s : List α) : Nat := countUpTo find s.length s

/-- The list with its first `k` occurrences replaced. -/
def replaceFirst (find replace : List α) : Nat → List α → List α
  | 0, s => s
  | k + 1, s =>
    match firstOcc find s with
    | none => s
    | some j => s.take j ++ replace ++ replaceFirst find replace k (s.drop (j + find.length))

theorem occurrences_of_none {find s : List α} (h : firstOcc find s = none) : occurrences find s = 0 := by
  unfold occurrences
  cases s with
  | nil => rfl
  | cons c s => rw [List.length_cons, countUpTo, h]

theorem notMem_replaceFirst {find replace s : List α} {c : α} (hs : c ∉ s) (hr : c ∉ replace) (k : Nat) :
    c ∉ replaceFirst find replace k s := by
  induction k generalizing s with
  | zero => exact hs
  | succ k ih =>
    unfold replaceFirst
    split
    · exact hs
    · rename_i j hj
      have htake : c ∉ s.take j := fun h => hs (List.mem_of_mem_take h)
      have hdrop := ih (s := s.drop (j + find.length)) fun h => hs (List.mem_of_mem_drop h)
      simp [htake, hr, hdrop]

end

section

variable {α : Type} [BEq α] [LawfulBEq α] {find replace s : List α}

/-- The list in front of the first occurrence, the occurrence and the rest. -/
theorem eq_of_firstOcc {j : Nat} (h : firstOcc find s = some j) :
    s = s.take j ++ find ++ s.drop (j + find.length) := by
  obtain ⟨r, hr⟩ := prefix_drop_of_firstOcc h
  have hrest : s.drop (j + find.length) = r := by rw [← List.drop_drop, ← hr, List.drop_left]
  rw [hrest, List.append_assoc, hr, List.take_append_drop]

private theorem length_drop_lt {j : Nat} (hne : find ≠ []) (h : firstOcc find s = some j) :
    (s.drop (j + find.length)).length < s.length := by
  have hlen := firstOcc_length h
  have hpos := List.length_pos_iff.2 hne
  rw [List.length_drop]
  omega

/-- A list has no more occurrences than elements. -/
private theorem countUpTo_of_le (hne : find ≠ []) {k k' : Nat} (hk : s.length ≤ k) (hk' : s.length ≤ k') :
    countUpTo find k s = countUpTo find k' s := by
  induction k generalizing s k' with
  | zero =>
    have hnil : s = [] := List.length_eq_zero_iff.1 (by omega)
    subst hnil
    cases k' with
    | zero => rfl
    | succ k' => simp [countUpTo, firstOcc, hne]
  | succ k ih =>
    cases k' with
    | zero =>
      have hnil : s = [] := List.length_eq_zero_iff.1 (by omega)
      subst hnil
      simp [countUpTo, firstOcc, hne]
    | succ k' =>
      unfold countUpTo
      split
      · rfl
      · rename_i j hj
        have hlt := length_drop_lt hne hj
        have hrest : countUpTo find k (s.drop (j + find.length)) = countUpTo find k' (s.drop (j + find.length)) :=
          ih (by omega) (by omega)
        rw [hrest]

theorem occurrences_of_some (hne : find ≠ []) {j : Nat} (h : firstOcc find s = some j) :
    occurrences find s = occurrences find (s.drop (j + find.length)) + 1 := by
  have hlt := length_drop_lt hne h
  obtain ⟨n, hn⟩ : ∃ n, s.length = n + 1 := ⟨s.length - 1, by omega⟩
  unfold occurrences
  rw [hn, countUpTo, h]
  dsimp only
  rw [countUpTo_of_le hne (k := n) (by omega) (Nat.le_refl _)]

/-- The occurrences lie side by side. -/
theorem occurrences_mul_le (hne : find ≠ []) : occurrences find s * find.length ≤ s.length := by
  induction hn : s.length using Nat.strongRecOn generalizing s with
  | ind n ih =>
    cases h : firstOcc find s with
    | none =>
      rw [occurrences_of_none h]
      omega
    | some j =>
      have hlen := firstOcc_length h
      have hlt := length_drop_lt hne h
      have hrest := ih (s.drop (j + find.length)).length (hn ▸ hlt) rfl
      rw [occurrences_of_some hne h, Nat.add_mul]
      rw [List.length_drop] at hrest
      omega

theorem occurrences_le_length (hne : find ≠ []) : occurrences find s ≤ s.length :=
  Nat.le_trans (Nat.le_mul_of_pos_right _ (List.length_pos_iff.2 hne)) (occurrences_mul_le hne)

/-- Every replacement changes the length by the difference of the two texts. -/
theorem length_replaceFirst (replace : List α) (hne : find ≠ []) {k : Nat} (hk : k ≤ occurrences find s) :
    (replaceFirst find replace k s).length + k * find.length = s.length + k * replace.length := by
  induction k generalizing s with
  | zero => simp [replaceFirst]
  | succ k ih =>
    cases h : firstOcc find s with
    | none =>
      rw [occurrences_of_none h] at hk
      omega
    | some j =>
      rw [occurrences_of_some hne h] at hk
      have hrest := ih (s := s.drop (j + find.length)) (by omega)
      have hlen := firstOcc_length h
      simp only [replaceFirst, h, List.length_append, List.length_take, List.length_drop, Nat.add_mul, Nat.one_mul]
        at hrest ⊢
      omega

/-- When one more replacement is too long while `k` are not, so is every number above `k`. -/
theorem not_fits_of_succ (hne : find ≠ []) {size k m : Nat} (hk : k + 1 ≤ occurrences find s)
    (hfits : (replaceFirst find replace k s).length < size)
    (hnext : ¬ (replaceFirst find replace (k + 1) s).length < size) (hm : m ≤ occurrences find s) (hkm : k < m) :
    ¬ (replaceFirst find replace m s).length < size := by
  have h0 := length_replaceFirst replace hne (show k ≤ occurrences find s by omega)
  have h1 := length_replaceFirst replace hne hk
  have h2 := length_replaceFirst replace hne hm
  obtain ⟨d, rfl⟩ := Nat.exists_eq_add_of_lt hkm
  simp only [Nat.add_mul, Nat.one_mul] at h0 h1 h2
  have hgrow : find.length < replace.length := by omega
  have hmul : d * find.length ≤ d * replace.length := Nat.mul_le_mul_left d (by omega)
  omega

end

end CSem
