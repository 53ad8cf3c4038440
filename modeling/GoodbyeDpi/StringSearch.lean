import GoodbyeDpi.PacketProcess

/-!
# Searching with a needle in memory (`stristr`)

The payload is searched for the literal `Host:`, and there the needle is a plain list.  Here both strings are buffers
that end with a NUL, and the reads of both are logged.  The inner loop tests the haystack first, then the needle; the
test after it reads the needle once more.
-/

namespace GoodbyeDpi.StringSearch

open CSem Traced Access

/-- The two strings of a search. -/
inductive StrBuf where
  | haystack
  | needle
deriving DecidableEq, Repr

/-! ### The code -/

/-- `while (*h && *n && tolower(*h) == tolower(*n)) { h++; n++; }`: the offset of `n` at the end.  `fuel` is what is
left of the haystack. -/
def matchLoop (haystack needle : List UInt8) : Nat → Nat → Nat → CRun StrBuf Nat
  | 0, h, n => do
    let _ ← load .haystack haystack h
    pure n
  | fuel + 1, h, n => do
    let c ← load .haystack haystack h
    if c = 0 then pure n
    else
      let d ← load .needle needle n
      if d = 0 then pure n
      else if toLower c = toLower d then matchLoop haystack needle fuel (h + 1) (n + 1)
      else pure n

/-- `for (; *haystack; haystack++)`; `fuel` is what is left of the haystack. -/
def searchLoop (haystack needle : List UInt8) : Nat → Nat → CRun StrBuf (Option Nat)
  | 0, i => do
    let _ ← load .haystack haystack i
    pure none
  | fuel + 1, i => do
    let c ← load .haystack haystack i
    if c = 0 then pure none
    else
      let d ← load .needle needle 0
      if toLower c = toLower d then
        let n ← matchLoop haystack needle (fuel + 1) i 0
        let e ← load .needle needle n
        if e = 0 then pure (some i) else searchLoop haystack needle fuel (i + 1)
      else searchLoop haystack needle fuel (i + 1)

/-- `stristr`: the offset of the result in the haystack.  A pointer that is NULL is `none`. -/
def stristr (haystack needle : Option (List UInt8)) : CRun StrBuf (Option Nat) :=
  match haystack, needle with
  | some haystack, some needle => do
    let d ← load .needle needle 0
    if d = 0 then pure (some 0) else searchLoop haystack needle haystack.length 0
  | _, _ => pure none

/-! ### What a search is for -/

/-- The needle occurs at `i` up to letter case. -/
def OccursAt (needle s : List UInt8) (i : Nat) : Prop := i ≤ s.length ∧ ciPrefix needle (s.drop i)

/-- The access is good, and it does not go behind the NUL of its string. -/
def UpToNul (haystack needle : List UInt8) (e : Access StrBuf) : Prop :=
  e.Ok ∧ (∀ i, e.Covers .haystack i → i ≤ (cstr haystack).length) ∧ ∀ i, e.Covers .needle i → i ≤ (cstr needle).length

theorem findCi_eq_some_iff {needle s : List UInt8} {i : Nat} :
    findCi needle s = some i ↔ OccursAt needle s i ∧ ∀ k, k < i → ¬ OccursAt needle s k := by
  have hdrop : ∀ k, ciPrefix needle (s.drop k) ↔ needle.map toLower <+: (s.map toLower).drop k := by
    intro k
    rw [ciPrefix, List.map_drop]
  constructor
  · intro h
    have hlen := firstOcc_length h
    simp only [List.length_map] at hlen
    refine ⟨⟨by omega, (hdrop i).2 (prefix_drop_of_firstOcc h)⟩, ?_⟩
    rintro k hk ⟨-, hpre⟩
    exact not_prefix_of_lt_firstOcc h hk ((hdrop k).1 hpre)
  · rintro ⟨⟨hi, hpre⟩, hfirst⟩
    cases hfound : findCi needle s with
    | none =>
      have hnone := firstOcc_eq_none_iff.1 hfound i (by simpa using hi)
      exact absurd ((hdrop i).1 hpre) hnone
    | some j =>
      have hlen := firstOcc_length hfound
      simp only [List.length_map] at hlen
      have hj : OccursAt needle s j := ⟨by omega, (hdrop j).2 (prefix_drop_of_firstOcc hfound)⟩
      have hij : ¬ j < i := fun h => hfirst j h hj
      have hji : ¬ i < j := fun h => not_prefix_of_lt_firstOcc hfound h ((hdrop i).1 hpre)
      rw [show j = i by omega]

theorem findCi_eq_none_iff {needle s : List UInt8} : findCi needle s = none ↔ ∀ i, ¬ OccursAt needle s i := by
  constructor
  · rintro h i ⟨hi, hpre⟩
    rw [ciPrefix, List.map_drop] at hpre
    exact firstOcc_eq_none_iff.1 h i (by simpa using hi) hpre
  · intro h
    cases hfound : findCi needle s with
    | none => rfl
    | some i => exact absurd (findCi_eq_some_iff.1 hfound).1 (h i)

/-! ### Contracts -/

section

variable {haystack needle : List UInt8}

private theorem upToNul_haystack (hh : (0 : UInt8) ∈ haystack) {i : Nat} (hi : i ≤ (cstr haystack).length) :
    UpToNul haystack needle (.read .haystack i 1 haystack.length) := by
  have hlen := (take_cstr_length_succ hh).2
  refine ⟨ok_read.2 (Or.inr (by omega)), ?_, ?_⟩
  · rintro k ⟨-, h1, h2⟩
    omega
  · rintro k ⟨ht, -⟩
    cases ht

private theorem upToNul_needle (hn : (0 : UInt8) ∈ needle) {i : Nat} (hi : i ≤ (cstr needle).length) :
    UpToNul haystack needle (.read .needle i 1 needle.length) := by
  have hlen := (take_cstr_length_succ hn).2
  refine ⟨ok_read.2 (Or.inr (by omega)), ?_, ?_⟩
  · rintro k ⟨ht, -⟩
    cases ht
  · rintro k ⟨-, h1, h2⟩
    omega

private theorem cstr_getElem_ne_zero {b : List UInt8} {i : Nat} (hi : i < (cstr b).length) : (cstr b)[i] ≠ 0 :=
  fun h => zero_notMem_cstr b (h ▸ List.getElem_mem hi)

/-- The inner loop comes to the end of the needle exactly when what is left of it is a prefix of what is left of the
haystack. -/
private theorem obeys_matchLoop (hh : (0 : UInt8) ∈ haystack) (hn : (0 : UInt8) ∈ needle) (fuel h n : Nat)
    (hf : (cstr haystack).length < h + fuel) (hhle : h ≤ (cstr haystack).length) (hnle : n ≤ (cstr needle).length) :
    Obeys (UpToNul haystack needle) (matchLoop haystack needle fuel h n) fun m =>
      m ≤ (cstr needle).length ∧
        (m = (cstr needle).length ↔ ciPrefix ((cstr needle).drop n) ((cstr haystack).drop h)) := by
  induction fuel generalizing h n with
  | zero => omega
  | succ fuel ih =>
    rw [matchLoop, obeys_bind]
    rcases Nat.lt_or_eq_of_le hhle with hlt | rfl
    · have hc := cstr_getElem_ne_zero hlt
      rw [obeys_load_cstr hlt (upToNul_haystack hh hhle), if_neg hc, obeys_bind]
      rcases Nat.lt_or_eq_of_le hnle with hlt' | rfl
      · have hd := cstr_getElem_ne_zero hlt'
        rw [obeys_load_cstr hlt' (upToNul_needle hn hnle), if_neg hd, List.drop_eq_getElem_cons hlt,
          List.drop_eq_getElem_cons hlt', ciPrefix_cons]
        split
        · rename_i heq
          refine (ih (h + 1) (n + 1) (by omega) (by omega) (by omega)).mono ?_
          intro m hm
          simpa [heq] using hm
        · rename_i hne
          rw [obeys_pure]
          simp [Ne.symm hne]
          omega
      · rw [obeys_load_nul hn (upToNul_needle hn (Nat.le_refl _)), if_pos rfl, obeys_pure]
        simp [ciPrefix]
    · -- the haystack ends first
      rw [obeys_load_nul hh (upToNul_haystack hh (Nat.le_refl _)), if_pos rfl, obeys_pure]
      refine ⟨hnle, ?_⟩
      simp [ciPrefix]
      omega

/-- The outer loop from `i` on finds the first occurrence from there on. -/
private theorem obeys_searchLoop (hh : (0 : UInt8) ∈ haystack) (hn : (0 : UInt8) ∈ needle)
    (hne : 0 < (cstr needle).length) (fuel i : Nat) (hf : (cstr haystack).length < i + fuel)
    (hi : i ≤ (cstr haystack).length) :
    Obeys (UpToNul haystack needle) (searchLoop haystack needle fuel i) fun r =>
      r = (findCi (cstr needle) ((cstr haystack).drop i)).map (i + ·) := by
  induction fuel generalizing i with
  | zero => omega
  | succ fuel ih =>
    rw [searchLoop, obeys_bind]
    rcases Nat.lt_or_eq_of_le hi with hlt | rfl
    · have hc := cstr_getElem_ne_zero hlt
      have hnext : ¬ ciPrefix (cstr needle) ((cstr haystack).drop i) →
          Obeys (UpToNul haystack needle) (searchLoop haystack needle fuel (i + 1)) fun r =>
            r = (findCi (cstr needle) ((cstr haystack).drop i)).map (i + ·) := by
        intro hp
        refine (ih (i + 1) (by omega) (by omega)).mono ?_
        rintro r rfl
        rw [List.drop_eq_getElem_cons hlt] at hp ⊢
        rw [findCi_cons, if_neg hp, Option.map_map]
        congr 1
        funext j
        simp only [Function.comp_apply]
        omega
      rw [obeys_load_cstr hlt (upToNul_haystack hh hi), if_neg hc, obeys_bind,
        obeys_load_cstr hne (upToNul_needle hn (Nat.zero_le _))]
      split
      · rw [obeys_bind]
        refine (obeys_matchLoop hh hn (fuel + 1) i 0 hf hi (Nat.zero_le _)).mono ?_
        rintro m ⟨hm, hiff⟩
        rw [List.drop_zero] at hiff
        rw [obeys_bind]
        rcases Nat.lt_or_eq_of_le hm with hlt' | rfl
        · rw [obeys_load_cstr hlt' (upToNul_needle hn hm), if_neg (cstr_getElem_ne_zero hlt')]
          exact hnext (fun hp => by have := hiff.2 hp; omega)
        · rw [obeys_load_nul hn (upToNul_needle hn hm), if_pos rfl, obeys_pure]
          have hp := hiff.1 rfl
          rw [List.drop_eq_getElem_cons hlt] at hp ⊢
          rw [findCi_cons, if_pos hp]
          rfl
      · rename_i hfirst
        have hhead : cstr needle = (cstr needle)[0] :: (cstr needle).drop 1 := by
          rw [← List.drop_eq_getElem_cons hne, List.drop_zero]
        apply hnext
        intro hp
        rw [List.drop_eq_getElem_cons hlt, hhead, ciPrefix_cons] at hp
        exact hfirst hp.1.symm
    · rw [obeys_load_nul hh (upToNul_haystack hh hi), if_pos rfl, obeys_pure]
      cases hs : cstr needle with
      | nil => simp [hs] at hne
      | cons d ds => simp [findCi, firstOcc]

/-- The contract of `stristr` on two strings. -/
theorem obeys_stristr_strings (hh : (0 : UInt8) ∈ haystack) (hn : (0 : UInt8) ∈ needle) :
    Obeys (UpToNul haystack needle) (stristr (some haystack) (some needle)) fun r =>
      r = findCi (cstr needle) (cstr haystack) := by
  rw [stristr, obeys_bind]
  rcases Nat.eq_zero_or_pos (cstr needle).length with hnil | hpos
  · have hload : Obeys (UpToNul haystack needle) (load .needle needle (cstr needle).length) fun d =>
        Obeys (UpToNul haystack needle) (if d = 0 then pure (some 0) else searchLoop haystack needle haystack.length 0)
          fun r => r = findCi (cstr needle) (cstr haystack) := by
      rw [obeys_load_nul hn (upToNul_needle hn (Nat.le_refl _)), if_pos rfl, obeys_pure, List.length_eq_zero_iff.1 hnil]
      cases cstr haystack <;> rfl
    rwa [hnil] at hload
  · rw [obeys_load_cstr hpos (upToNul_needle hn (Nat.zero_le _)), if_neg (cstr_getElem_ne_zero hpos)]
    have hlen := (take_cstr_length_succ hh).2
    refine (obeys_searchLoop hh hn hpos haystack.length 0 (by omega) (Nat.zero_le _)).mono ?_
    rintro r rfl
    simp

end

theorem UpToNul.inRange {haystack needle : List UInt8} (e : Access StrBuf) (h : UpToNul haystack needle e) :
    e.InRange := inRange_of_ok e h.1

/-- The search is the one for a literal, as the payload is searched. -/
theorem stristr_eq_literal {b literal : List UInt8} (hb : (0 : UInt8) ∈ b) (hne : literal ≠ [])
    (hz : (0 : UInt8) ∉ literal) :
    (stristr (some b) (some (literal ++ [0]))).val = (GoodbyeDpi.stristr b literal).val := by
  have hcstr : cstr (literal ++ [0]) = literal := by rw [cstr_append_zero, cstr_of_notMem hz]
  have hleft : (stristr (some b) (some (literal ++ [0]))).val = some (findCi (cstr (literal ++ [0])) (cstr b)) :=
    val_of_obeys_eq UpToNul.inRange (obeys_stristr_strings hb (by simp))
  rw [hleft, hcstr]
  symm
  apply val_of_obeys_eq (fun e h => h)
  rw [obeys_stristr (watches_inRange _) hne hz]
  have hlen := (take_cstr_length_succ hb).2
  cases hfound : findCi literal (cstr b) with
  | none => exact ⟨hb, rfl⟩
  | some j =>
    have hj := firstOcc_length hfound
    simp only [List.length_map] at hj
    exact ⟨by omega, rfl⟩

/-- `find_host_header` on a payload with a NUL in it. -/
theorem findHostHeader_eq_stristr {b : List UInt8} {payloadLen : Nat} (hb : (0 : UInt8) ∈ b) (hlen : 6 ≤ payloadLen) :
    (findHostHeader b payloadLen).val = (stristr (some b) (some (hostHeader ++ [0]))).val := by
  rw [findHostHeader, if_neg (by omega), stristr_eq_literal hb (by decide) (by decide)]

/-- `stristr` gives the smallest position at which the needle occurs up to letter case, and reads neither string behind
its NUL. -/
theorem stristr_finds_first (haystack needle : List UInt8) (hh : (0 : UInt8) ∈ haystack)
    (hn : (0 : UInt8) ∈ needle) :
    (stristr (some haystack) (some needle)).All (UpToNul haystack needle) ∧
      ∃ r, (stristr (some haystack) (some needle)).val = some r ∧
        (∀ i, r = some i ↔ OccursAt (cstr needle) (cstr haystack) i ∧
          ∀ k, k < i → ¬ OccursAt (cstr needle) (cstr haystack) k) ∧
        (r = none ↔ ∀ i, ¬ OccursAt (cstr needle) (cstr haystack) i) ∧
        (cstr needle = [] → r = some 0) := by
  obtain ⟨hall, r, hval, rfl⟩ := (obeys_iff_of_imp UpToNul.inRange).1 (obeys_stristr_strings hh hn)
  refine ⟨hall, _, hval, fun i => findCi_eq_some_iff, findCi_eq_none_iff, ?_⟩
  intro hempty
  rw [hempty]
  cases cstr haystack <;> rfl

/-- A needle that overlaps itself, after a partial match. -/
theorem stristr_finds_first_overlap :
    (stristr (some (ascii "xABABac" ++ [0])) (some (ascii "abac" ++ [0]))).All
        (UpToNul (ascii "xABABac" ++ [0]) (ascii "abac" ++ [0])) ∧
      (stristr (some (ascii "xABABac" ++ [0])) (some (ascii "abac" ++ [0]))).val = some (some 3) :=
  ⟨(stristr_finds_first (ascii "xABABac" ++ [0]) (ascii "abac" ++ [0]) (by decide +kernel) (by decide +kernel)).1,
    by decide +kernel⟩

end GoodbyeDpi.StringSearch
