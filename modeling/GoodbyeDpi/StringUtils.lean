import GoodbyeDpi.Packet
import GoodbyeDpi.CSem.CString

/-!
# String helpers (`src/utils/string_utils.c`)

`stristr`, `mix_case` and `string_to_upper`, all on the payload of a packet.  `stristr` looks one byte past the
occurrence it finds, because its inner loop tests the haystack before the needle.
-/

namespace GoodbyeDpi

open CSem Traced Access

/-! ### `stristr` -/

/-- The inner loop: the haystack at `h` against what is left of the needle. -/
def stristrMatch (b : List UInt8) : List UInt8 → Nat → CRun Buf Bool
  | [], h => do
    let _ ← load .payload b h
    pure true
  | n :: ns, h => do
    let c ← load .payload b h
    if c = 0 then pure false
    else if toLower c = toLower n then stristrMatch b ns (h + 1)
    else pure false

/-- The outer loop; `fuel` is what is left of the buffer. -/
def stristrFrom (b : List UInt8) (n : UInt8) (ns : List UInt8) : Nat → Nat → CRun Buf (Option Nat)
  | 0, i => do
    let _ ← load .payload b i
    pure none
  | fuel + 1, i => do
    let c ← load .payload b i
    if c = 0 then pure none
    else if toLower c = toLower n then
      let found ← stristrMatch b (n :: ns) i
      if found then pure (some i) else stristrFrom b n ns fuel (i + 1)
    else stristrFrom b n ns fuel (i + 1)

/-- `stristr`: the position of the first occurrence of the needle, up to letter case. -/
def stristr (b : List UInt8) : List UInt8 → CRun Buf (Option Nat)
  | [] => pure (some 0)
  | n :: ns => stristrFrom b n ns b.length 0

/-- The first occurrence of `needle` in `s` up to letter case. -/
def findCi (needle s : List UInt8) : Option Nat := firstOcc (needle.map toLower) (s.map toLower)

/-! ### `mix_case` -/

def mixByte (i : Nat) (c : UInt8) : UInt8 := if i % 2 = 0 then toLower c else toUpper c

/-- The loop of `mix_case` on the string at `off`, with `n` bytes to go. -/
def mixCaseFrom (off : Nat) : Nat → Nat → List UInt8 → CRun Buf (List UInt8)
  | 0, _, b => pure b
  | n + 1, i, b => do
    let c ← load .payload b (off + i)
    if c = 0 then pure b
    else
      let b ← store .payload b (off + i) [mixByte i c]
      mixCaseFrom off n (i + 1) b

/-- `mix_case(b + off, len)`. -/
def mixCase (b : List UInt8) (off len : Nat) : CRun Buf (List UInt8) := mixCaseFrom off len 0 b

/-- The bytes of a string with alternating case, the first one at position `i`. -/
def alternateCase : Nat → List UInt8 → List UInt8
  | _, [] => []
  | i, c :: s => mixByte i c :: alternateCase (i + 1) s

/-! ### `string_to_upper` -/

/-- The loop of `string_to_upper`; `fuel` is what is left of the buffer. -/
def stringToUpperFrom : Nat → Nat → List UInt8 → CRun Buf (List UInt8)
  | 0, i, b => do
    let _ ← load .payload b i
    pure b
  | fuel + 1, i, b => do
    let c ← load .payload b i
    if c = 0 then pure b
    else
      let b ← store .payload b i [toUpper c]
      stringToUpperFrom fuel (i + 1) b

/-- `string_to_upper(b + off)`. -/
def stringToUpper (b : List UInt8) (off : Nat) : CRun Buf (List UInt8) := stringToUpperFrom (b.length - off) off b

/-! ### Letter case -/

theorem toLower_toLower (c : UInt8) : toLower (toLower c) = toLower c := by
  unfold toLower
  grind

theorem toLower_toUpper (c : UInt8) : toLower (toUpper c) = toLower c := by
  unfold toLower toUpper
  grind

theorem toLower_eq_zero {c : UInt8} : toLower c = 0 ↔ c = 0 := by
  unfold toLower
  grind

theorem toLower_eq_space {c : UInt8} : toLower c = 32 ↔ c = 32 := by
  unfold toLower
  grind

theorem toLower_mixByte (i : Nat) (c : UInt8) : toLower (mixByte i c) = toLower c := by
  unfold mixByte
  split
  · exact toLower_toLower c
  · exact toLower_toUpper c

theorem map_toLower_alternateCase (i : Nat) (s : List UInt8) :
    (alternateCase i s).map toLower = s.map toLower := by
  induction s generalizing i with
  | nil => rfl
  | cons c s ih => simp only [alternateCase, List.map_cons, toLower_mixByte, ih]

/-- The bytes before the first NUL, up to letter case. -/
theorem map_toLower_cstr (b : List UInt8) : (cstr b).map toLower = cstr (b.map toLower) := by
  induction b with
  | nil => rfl
  | cons c b ih =>
    unfold cstr at ih ⊢
    rw [List.map_cons, List.takeWhile_cons, List.takeWhile_cons]
    by_cases hc : c = 0
    · simp [hc, toLower_eq_zero]
    · simp [hc, toLower_eq_zero, ih]

theorem zero_mem_congr {b b' : List UInt8} (h : b.map toLower = b'.map toLower) :
    (0 : UInt8) ∈ b ↔ (0 : UInt8) ∈ b' := by
  have hmem : ∀ l : List UInt8, (0 : UInt8) ∈ l ↔ (0 : UInt8) ∈ l.map toLower := by
    intro l
    simp only [List.mem_map, toLower_eq_zero]
    constructor
    · intro hl
      exact ⟨0, hl, rfl⟩
    · rintro ⟨c, hc, rfl⟩
      exact hc
  rw [hmem b, hmem b', h]

/-! ### Contracts -/

/-- The needle is a prefix of `s` up to letter case. -/
def ciPrefix (needle s : List UInt8) : Prop := needle.map toLower <+: s.map toLower

instance (needle s : List UInt8) : Decidable (ciPrefix needle s) := inferInstanceAs (Decidable (_ <+: _))

theorem ciPrefix_cons {n c : UInt8} {ns s : List UInt8} :
    ciPrefix (n :: ns) (c :: s) ↔ toLower n = toLower c ∧ ciPrefix ns s := by
  simp only [ciPrefix, List.map_cons, List.cons_prefix_cons]

theorem findCi_cons {needle s : List UInt8} {c : UInt8} :
    findCi needle (c :: s) = if ciPrefix needle (c :: s) then some 0 else (findCi needle s).map (· + 1) := by
  simp only [findCi, List.map_cons, firstOcc, ciPrefix, List.isPrefixOf_iff_prefix]

theorem ciPrefix_cstr {needle s : List UInt8} (hz : (0 : UInt8) ∉ needle) :
    ciPrefix needle (cstr s) ↔ ciPrefix needle s := by
  induction needle generalizing s with
  | nil => simp [ciPrefix]
  | cons n ns ih =>
    simp only [List.mem_cons, not_or] at hz
    cases s with
    | nil => rfl
    | cons c s =>
      by_cases hc : c = 0
      · subst hc
        have hne : ¬ toLower n = toLower 0 := by
          intro h
          exact hz.1 (toLower_eq_zero.1 h).symm
        rw [ciPrefix_cons]
        simp [hne, cstr, ciPrefix]
      · rw [cstr_cons hc, ciPrefix_cons, ciPrefix_cons, ih hz.2]

section

variable {P : Access Buf → Prop}

/-- The inner loop leaves the buffer when the bytes that are left are a proper prefix of the needle, or the needle
itself. -/
theorem obeys_stristrMatch (hw : Watches P .payload) {b ns : List UInt8} (hz : (0 : UInt8) ∉ ns) {h : Nat}
    {Q : Bool → Prop} :
    Obeys P (stristrMatch b ns h) Q ↔
      (ciPrefix ns (b.drop h) → h + ns.length < b.length ∧ Q true) ∧
      (¬ ciPrefix ns (b.drop h) → ¬ ciPrefix (b.drop h) ns ∧ Q false) := by
  induction ns generalizing h with
  | nil =>
    simp only [stristrMatch, obeys_bind, obeys_load hw, obeys_pure, exists_prop]
    simp [ciPrefix]
  | cons n ns ih =>
    simp only [List.mem_cons, not_or] at hz
    simp only [stristrMatch, obeys_bind, obeys_load hw]
    by_cases hlt : h < b.length
    · rw [List.drop_eq_getElem_cons hlt, ciPrefix_cons, ciPrefix_cons]
      simp only [hlt, exists_true_left]
      by_cases hc : b[h] = 0
      · have hne : ¬ toLower n = toLower b[h] := by
          intro heq
          rw [hc] at heq
          exact hz.1 (toLower_eq_zero.1 heq).symm
        simp only [hc, ↓reduceIte, obeys_pure]
        rw [hc] at hne
        simp only [hne, false_and, Ne.symm hne, not_false_eq_true, true_and, false_imp_iff, true_imp_iff]
      · by_cases heq : toLower b[h] = toLower n
        · simp only [hc, ↓reduceIte, heq, true_and, ih hz.2, List.length_cons]
          rw [show h + 1 + ns.length = h + (ns.length + 1) by omega]
        · simp only [hc, ↓reduceIte, heq, obeys_pure, Ne.symm heq, false_and, not_false_eq_true, true_and,
            false_imp_iff, true_imp_iff]
    · have hnil : b.drop h = [] := List.drop_eq_nil_of_le (by omega)
      simp only [hlt, IsEmpty.exists_iff, hnil]
      simp [ciPrefix]

/-- What the search from `i` on does, as a formula: where the first occurrence ends inside the buffer, or a NUL
stops the search. -/
private def SearchFrom (b needle : List UInt8) (i : Nat) (Q : Option Nat → Prop) : Prop :=
  match findCi needle (cstr (b.drop i)) with
  | some j => i + j + needle.length < b.length ∧ Q (some (i + j))
  | none => (0 : UInt8) ∈ b.drop i ∧ Q none

private theorem searchFrom_of_le {b needle : List UInt8} {i : Nat} {Q : Option Nat → Prop} (hn : needle ≠ [])
    (h : b.length ≤ i) : ¬ SearchFrom b needle i Q := by
  cases needle with
  | nil => exact absurd rfl hn
  | cons n ns => simp [SearchFrom, List.drop_eq_nil_of_le h, cstr, findCi, firstOcc]

private theorem searchFrom_zero {b needle : List UInt8} {i : Nat} {Q : Option Nat → Prop} (hn : needle ≠ [])
    (h : i < b.length) (hc : b[i] = 0) : SearchFrom b needle i Q ↔ Q none := by
  have hdrop : b.drop i = 0 :: b.drop (i + 1) := by rw [List.drop_eq_getElem_cons h, hc]
  cases needle with
  | nil => exact absurd rfl hn
  | cons n ns => simp [SearchFrom, hdrop, cstr, findCi, firstOcc]

private theorem searchFrom_found {b needle : List UInt8} {i : Nat} {Q : Option Nat → Prop} (hz : (0 : UInt8) ∉ needle)
    (h : i < b.length) (hc : b[i] ≠ 0) (hp : ciPrefix needle (b.drop i)) :
    SearchFrom b needle i Q ↔ i + needle.length < b.length ∧ Q (some i) := by
  have hcstr : cstr (b.drop i) = b[i] :: cstr (b.drop (i + 1)) := by
    rw [List.drop_eq_getElem_cons h, cstr_cons hc]
  rw [← ciPrefix_cstr hz, hcstr] at hp
  simp only [SearchFrom, hcstr, findCi_cons, hp, ↓reduceIte, Nat.add_zero]

private theorem searchFrom_next {b needle : List UInt8} {i : Nat} {Q : Option Nat → Prop} (hz : (0 : UInt8) ∉ needle)
    (h : i < b.length) (hc : b[i] ≠ 0) (hp : ¬ ciPrefix needle (b.drop i)) :
    SearchFrom b needle i Q ↔ SearchFrom b needle (i + 1) Q := by
  have hcstr : cstr (b.drop i) = b[i] :: cstr (b.drop (i + 1)) := by
    rw [List.drop_eq_getElem_cons h, cstr_cons hc]
  have hmem : (0 : UInt8) ∈ b.drop i ↔ (0 : UInt8) ∈ b.drop (i + 1) := by
    rw [List.drop_eq_getElem_cons h, List.mem_cons]
    simp [Ne.symm hc]
  rw [← ciPrefix_cstr hz, hcstr] at hp
  simp only [SearchFrom, hcstr, findCi_cons, hp, ↓reduceIte, hmem]
  cases findCi needle (cstr (b.drop (i + 1))) with
  | none => rfl
  | some j =>
    simp only [Option.map_some]
    rw [show i + (j + 1) = i + 1 + j by omega]

/-- A search that goes on and stays inside the buffer has not run out of it in the inner loop before. -/
private theorem not_ciPrefix_of_searchFrom {b needle : List UInt8} {i : Nat} {Q : Option Nat → Prop}
    (hz : (0 : UInt8) ∉ needle) (h : SearchFrom b needle (i + 1) Q) : ¬ ciPrefix (b.drop i) needle := by
  intro hp
  unfold SearchFrom at h
  split at h
  · have hlen := hp.length_le
    simp only [List.length_map, List.length_drop] at hlen
    omega
  · have hz0 : (0 : UInt8) ∈ (b.drop i).map toLower := by
      refine List.mem_map.2 ⟨0, List.mem_of_mem_drop (i := 1) ?_, rfl⟩
      rw [List.drop_drop]
      exact h.1
    obtain ⟨c, hcm, hc⟩ := List.mem_map.1 (hp.subset hz0)
    exact hz (toLower_eq_zero.1 hc ▸ hcm)

private theorem obeys_stristrFrom (hw : Watches P .payload) {b ns : List UInt8} {n : UInt8}
    (hz : (0 : UInt8) ∉ n :: ns) (fuel i : Nat) (hf : b.length ≤ i + fuel) {Q : Option Nat → Prop} :
    Obeys P (stristrFrom b n ns fuel i) Q ↔ SearchFrom b (n :: ns) i Q := by
  have hn : n :: ns ≠ [] := List.cons_ne_nil n ns
  induction fuel generalizing i with
  | zero =>
    have hi : ¬ i < b.length := by omega
    simp only [stristrFrom, obeys_bind, obeys_load hw, hi, IsEmpty.exists_iff, searchFrom_of_le hn (Nat.not_lt.1 hi)]
  | succ fuel ih =>
    simp only [stristrFrom, obeys_bind, obeys_load hw]
    by_cases hi : i < b.length
    · simp only [hi, exists_true_left]
      by_cases hc : b[i] = 0
      · rw [searchFrom_zero hn hi hc, if_pos hc, obeys_pure]
      · rw [if_neg hc]
        by_cases hp : ciPrefix (n :: ns) (b.drop i)
        · have heq : toLower b[i] = toLower n := by
            rw [List.drop_eq_getElem_cons hi, ciPrefix_cons] at hp
            exact hp.1.symm
          rw [searchFrom_found hz hi hc hp, if_pos heq, obeys_bind, obeys_stristrMatch hw hz]
          simp [hp]
        · rw [searchFrom_next hz hi hc hp]
          by_cases heq : toLower b[i] = toLower n
          · rw [if_pos heq, obeys_bind, obeys_stristrMatch hw hz]
            simp only [hp, false_imp_iff, not_false_eq_true, true_imp_iff, true_and, Bool.false_eq_true, ↓reduceIte,
              ih (i + 1) (by omega)]
            exact and_iff_right_of_imp (not_ciPrefix_of_searchFrom hz)
          · rw [if_neg heq]
            exact ih (i + 1) (by omega)
    · simp only [hi, IsEmpty.exists_iff, searchFrom_of_le hn (Nat.not_lt.1 hi)]

/-- The contract of `stristr`: an occurrence must be followed by at least one byte, and without an occurrence the
buffer must hold a NUL. -/
theorem obeys_stristr (hw : Watches P .payload) {b needle : List UInt8} (hn : needle ≠ [])
    (hz : (0 : UInt8) ∉ needle) {Q : Option Nat → Prop} :
    Obeys P (stristr b needle) Q ↔
      match findCi needle (cstr b) with
      | some j => j + needle.length < b.length ∧ Q (some j)
      | none => (0 : UInt8) ∈ b ∧ Q none := by
  cases needle with
  | nil => exact absurd rfl hn
  | cons n ns =>
    have h := obeys_stristrFrom (b := b) hw hz b.length 0 (by omega) (Q := Q)
    simpa only [stristr, SearchFrom, List.drop_zero, Nat.zero_add] using h

/-- `mix_case` on a stretch of the buffer without a NUL. -/
private theorem obeys_mixCaseFrom (hw : Watches P .payload) {pre tail : List UInt8} (s : List UInt8) (i off : Nat)
    (hoff : off + i = pre.length) (hz : (0 : UInt8) ∉ s) {Q : List UInt8 → Prop} :
    Obeys P (mixCaseFrom off s.length i (pre ++ s ++ tail)) Q ↔ Q (pre ++ alternateCase i s ++ tail) := by
  induction s generalizing i pre with
  | nil => simp [mixCaseFrom, alternateCase]
  | cons c s ih =>
    simp only [List.mem_cons, not_or] at hz
    have hlt : off + i < (pre ++ (c :: s) ++ tail).length := by simp; omega
    have hget : (pre ++ (c :: s) ++ tail)[off + i] = c := by simp [hoff]
    have hover : overwrite (pre ++ (c :: s) ++ tail) (off + i) [mixByte i c] = (pre ++ [mixByte i c]) ++ s ++ tail := by
      simp [overwrite, hoff]
    simp only [List.length_cons, mixCaseFrom, obeys_bind, obeys_load hw, hlt, exists_true_left, hget,
      if_neg (Ne.symm hz.1), obeys_store hw, hover]
    rw [ih (i + 1) (by simp; omega) hz.2]
    simp [alternateCase]
    omega

private theorem stringToUpperFrom_eq (fuel i : Nat) (b : List UInt8) :
    stringToUpperFrom fuel i b = mapString .payload toUpper fuel i b := by
  induction fuel generalizing i b with
  | zero => rfl
  | succ fuel ih => simp only [stringToUpperFrom, mapString, ih]

/-- `string_to_upper` on a string that ends with a NUL. -/
theorem obeys_stringToUpper (hw : Watches P .payload) {pre s tail : List UInt8} (hz : (0 : UInt8) ∉ s)
    {Q : List UInt8 → Prop} :
    Obeys P (stringToUpper (pre ++ s ++ 0 :: tail) pre.length) Q ↔ Q (pre ++ s.map toUpper ++ 0 :: tail) := by
  rw [stringToUpper, stringToUpperFrom_eq]
  exact obeys_mapString hw toUpper pre s tail _ (by simp) hz

theorem obeys_mixCase (hw : Watches P .payload) {pre s tail : List UInt8} (hz : (0 : UInt8) ∉ s)
    {Q : List UInt8 → Prop} :
    Obeys P (mixCase (pre ++ s ++ tail) pre.length s.length) Q ↔ Q (pre ++ alternateCase 0 s ++ tail) :=
  obeys_mixCaseFrom hw s 0 pre.length (by omega) hz

end

end GoodbyeDpi
