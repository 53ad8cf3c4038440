import GoodbyeDpi.CSem.Memory
import Mathlib.Data.List.TakeWhile

/-!
# C strings in counted buffers

The `string.h` functions on a string that starts somewhere in a counted buffer.  They look for a NUL, and when the
buffer holds none they run out of it.  Every function is matched with a plain function on the list of bytes that
has no result where the C function leaves the buffer, and its contract says just that.
-/

namespace CSem

open Traced Access

/-! ### Plain functions on bytes -/

/-- The string at the start of `b`: the bytes before the first NUL. -/
def cstr (b : List UInt8) : List UInt8 := b.takeWhile (· != 0)

/-- `tolower` in the C locale. -/
def toLower (c : UInt8) : UInt8 := if 65 ≤ c ∧ c ≤ 90 then c + 32 else c

/-- `toupper` in the C locale. -/
def toUpper (c : UInt8) : UInt8 := if 97 ≤ c ∧ c ≤ 122 then c - 32 else c

/-- The first position at which `n` occurs in `s`. -/
def firstOcc {α : Type} [BEq α] (n : List α) : List α → Option Nat
  | [] => if n.isEmpty then some 0 else none
  | c :: s => if n.isPrefixOf (c :: s) then some 0 else (firstOcc n s).map (· + 1)

/-- A hexadecimal digit as `%x` prints it. -/
def hexDigit (d : Nat) : UInt8 := if d < 10 then UInt8.ofNat (48 + d) else UInt8.ofNat (87 + d)

/-- `%0wx` for a number of at most `w` hexadecimal digits. -/
def hexPadded : Nat → Nat → List UInt8
  | 0, _ => []
  | w + 1, n => hexPadded w (n / 16) ++ [hexDigit (n % 16)]

/-- `snprintf` into an array of `size` bytes: the string that is left there. -/
def snprintf (size : Nat) (text : List UInt8) : List UInt8 := text.take (size - 1)

theorem zero_notMem_cstr (b : List UInt8) : (0 : UInt8) ∉ cstr b := by
  intro h
  have := List.mem_takeWhile_imp h
  simp at this

theorem cstr_cons {c : UInt8} {b : List UInt8} (h : c ≠ 0) : cstr (c :: b) = c :: cstr b := by
  simp [cstr, h]

theorem cstr_append {a b : List UInt8} (ha : (0 : UInt8) ∉ a) : cstr (a ++ b) = a ++ cstr b := by
  unfold cstr
  apply List.takeWhile_append_of_pos
  intro c hc
  have : c ≠ 0 := fun h => ha (h ▸ hc)
  simpa using this

/-- Nothing behind a NUL belongs to the string. -/
theorem cstr_append_zero (a b : List UInt8) : cstr (a ++ 0 :: b) = cstr a := by
  induction a with
  | nil => simp [cstr]
  | cons c a ih =>
    by_cases hc : c = 0
    · simp [cstr, hc]
    · rw [List.cons_append, cstr_cons hc, cstr_cons hc, ih]

/-- A string that is followed by a NUL. -/
theorem take_cstr_length_succ {b : List UInt8} (h : (0 : UInt8) ∈ b) :
    b.take ((cstr b).length + 1) = cstr b ++ [0] ∧ (cstr b).length < b.length := by
  induction b with
  | nil => cases h
  | cons c b ih =>
    by_cases hc : c = 0
    · subst hc
      simp [cstr]
    · have hb : (0 : UInt8) ∈ b := by
        rcases List.mem_cons.1 h with h0 | hb
        · exact absurd h0.symm hc
        · exact hb
      rw [cstr_cons hc, List.length_cons, List.length_cons, List.take_succ_cons, (ih hb).1]
      exact ⟨rfl, by have := (ih hb).2; omega⟩

theorem cstr_of_notMem {b : List UInt8} (h : (0 : UInt8) ∉ b) : cstr b = b := by
  have := cstr_append (b := []) h
  rw [List.append_nil] at this
  rw [this]
  simp [cstr]

theorem cstr_isPrefix (b : List UInt8) : cstr b <+: b := List.takeWhile_prefix _

theorem notMem_of_le_cstr {a r : List UInt8} (h : a.length ≤ (cstr (a ++ r)).length) : (0 : UInt8) ∉ a := by
  have hpre : a <+: cstr (a ++ r) := List.prefix_of_prefix_length_le (List.prefix_append a r) (cstr_isPrefix _) h
  intro hmem
  exact zero_notMem_cstr _ (hpre.subset hmem)

theorem exists_eq_cstr_append {r : List UInt8} (h : (0 : UInt8) ∈ r) : ∃ t, r = cstr r ++ 0 :: t := by
  refine ⟨r.drop ((cstr r).length + 1), ?_⟩
  have hsplit := List.take_append_drop ((cstr r).length + 1) r
  rw [(take_cstr_length_succ h).1, List.append_assoc] at hsplit
  exact hsplit.symm

private theorem hexDigit_inj {a b : Nat} (ha : a < 16) (hb : b < 16) (h : hexDigit a = hexDigit b) : a = b := by
  revert h
  revert b
  revert a
  decide

theorem length_hexPadded (w n : Nat) : (hexPadded w n).length = w := by
  induction w generalizing n with
  | zero => rfl
  | succ w ih => rw [hexPadded, List.length_append, ih, List.length_singleton]

/-- Numbers that fit the width are printed differently. -/
theorem hexPadded_inj {w a b : Nat} (ha : a < 16 ^ w) (hb : b < 16 ^ w) (h : hexPadded w a = hexPadded w b) :
    a = b := by
  induction w generalizing a b with
  | zero => omega
  | succ w ih =>
    obtain ⟨hhigh, hlow⟩ := List.append_inj' h rfl
    have hdiv : a / 16 = b / 16 := ih (by omega) (by omega) hhigh
    have hmod : a % 16 = b % 16 := hexDigit_inj (by omega) (by omega) (List.singleton_inj.1 hlow)
    omega

section

variable {α : Type} [BEq α] [LawfulBEq α]

private theorem firstOcc_of_isPrefixOf {n s : List α} (h : n.isPrefixOf s) : firstOcc n s = some 0 := by
  cases s with
  | nil =>
    rw [firstOcc, if_pos]
    simpa using h
  | cons c s => rw [firstOcc, if_pos h]

theorem firstOcc_length {n s : List α} {j : Nat} (h : firstOcc n s = some j) : j + n.length ≤ s.length := by
  induction s generalizing j with
  | nil =>
    cases n with
    | nil => simpa [firstOcc, eq_comm] using h
    | cons a n => simp [firstOcc] at h
  | cons c s ih =>
    unfold firstOcc at h
    split at h
    · rename_i hp
      cases h
      have := (List.isPrefixOf_iff_prefix.1 hp).length_le
      omega
    · obtain ⟨k, hk, rfl⟩ := Option.map_eq_some_iff.1 h
      have := ih hk
      rw [List.length_cons]
      omega

/-- What is found is there. -/
theorem prefix_drop_of_firstOcc {n s : List α} {j : Nat} (h : firstOcc n s = some j) : n <+: s.drop j := by
  induction s generalizing j with
  | nil =>
    cases n with
    | nil => exact List.nil_prefix
    | cons a n => simp [firstOcc] at h
  | cons c s ih =>
    unfold firstOcc at h
    split at h
    · rename_i hp
      cases h
      exact List.isPrefixOf_iff_prefix.1 hp
    · obtain ⟨k, hk, rfl⟩ := Option.map_eq_some_iff.1 h
      exact ih hk

/-- What is there is found, there or before. -/
theorem isSome_firstOcc_append {n s t : List α} (h : n <+: t) : (firstOcc n (s ++ t)).isSome := by
  induction s with
  | nil =>
    rw [List.nil_append, firstOcc_of_isPrefixOf (List.isPrefixOf_iff_prefix.2 h)]
    rfl
  | cons c s ih =>
    rw [List.cons_append, firstOcc]
    split
    · rfl
    · rw [Option.isSome_map]
      exact ih

/-- Before what is found there is nothing. -/
theorem not_prefix_of_lt_firstOcc {n s : List α} {j i : Nat} (h : firstOcc n s = some j) (hi : i < j) :
    ¬ n <+: s.drop i := by
  induction s generalizing j i with
  | nil =>
    have := firstOcc_length h
    simp at this
    omega
  | cons c s ih =>
    unfold firstOcc at h
    split at h
    · cases h
      omega
    · rename_i hp
      obtain ⟨k, hk, rfl⟩ := Option.map_eq_some_iff.1 h
      cases i with
      | zero =>
        intro hpre
        exact hp (List.isPrefixOf_iff_prefix.2 hpre)
      | succ i => exact ih hk (by omega)

theorem firstOcc_eq_none_iff {n s : List α} : firstOcc n s = none ↔ ∀ i ≤ s.length, ¬ n <+: s.drop i := by
  constructor
  · intro h i hi hpre
    have hsome := isSome_firstOcc_append (s := s.take i) hpre
    rw [List.take_append_drop, h] at hsome
    cases hsome
  · intro h
    cases hfound : firstOcc n s with
    | none => rfl
    | some j =>
      have hlen := firstOcc_length hfound
      exact absurd (prefix_drop_of_firstOcc hfound) (h j (by omega))

private theorem isPrefixOf_append_right {n s r : List α} (h : n.length ≤ s.length) :
    n.isPrefixOf (s ++ r) = n.isPrefixOf s := by
  rw [Bool.eq_iff_iff, List.isPrefixOf_iff_prefix, List.isPrefixOf_iff_prefix]
  constructor
  · intro hp
    exact List.prefix_of_prefix_length_le hp (List.prefix_append s r) h
  · intro hp
    exact hp.trans (List.prefix_append s r)

private theorem isPrefixOf_take {n s : List α} {k : Nat} (h : n.length ≤ k) :
    n.isPrefixOf (s.take k) = n.isPrefixOf s := by
  rw [Bool.eq_iff_iff, List.isPrefixOf_iff_prefix, List.isPrefixOf_iff_prefix, List.prefix_take_iff]
  exact and_iff_left h

/-- The first occurrence does not depend on what follows it. -/
theorem firstOcc_take_append {n s r : List α} {j : Nat} (h : firstOcc n s = some j) :
    firstOcc n (s.take (j + n.length) ++ r) = some j := by
  induction s generalizing j with
  | nil =>
    cases n with
    | nil =>
      cases r <;> simpa [firstOcc] using h
    | cons a n => simp [firstOcc] at h
  | cons c s ih =>
    have hlen := firstOcc_length h
    unfold firstOcc at h
    split at h
    · rename_i hp
      cases h
      apply firstOcc_of_isPrefixOf
      rw [Nat.zero_add, isPrefixOf_append_right, isPrefixOf_take (Nat.le_refl _)]
      · exact hp
      · rw [List.length_take]
        omega
    · rename_i hp
      obtain ⟨k, hk, rfl⟩ := Option.map_eq_some_iff.1 h
      rw [show k + 1 + n.length = k + n.length + 1 by omega, List.take_succ_cons, List.cons_append, firstOcc,
        ← List.cons_append, isPrefixOf_append_right (by simp at hlen ⊢; omega), if_neg, ih hk, Option.map_some]
      rw [← List.take_succ_cons, isPrefixOf_take (by omega)]
      exact hp

/-- An occurrence does not reach over a letter that the needle does not have. -/
private theorem isPrefixOf_append_cons {n s r : List α} {c : α} (hc : c ∉ n) :
    n.isPrefixOf (s ++ c :: r) = n.isPrefixOf s := by
  rw [Bool.eq_iff_iff, List.isPrefixOf_iff_prefix, List.isPrefixOf_iff_prefix]
  constructor
  · intro hp
    rcases Nat.lt_or_ge s.length n.length with hlen | hlen
    · have hsc : s ++ [c] <+: s ++ c :: r := ⟨r, by rw [List.append_assoc, List.singleton_append]⟩
      have hs : s ++ [c] <+: n := by
        apply List.prefix_of_prefix_length_le hsc hp
        rw [List.length_append]
        exact hlen
      exact absurd (hs.subset (List.mem_append_right s (List.mem_singleton.2 rfl))) hc
    · exact List.prefix_of_prefix_length_le hp (List.prefix_append _ _) hlen
  · intro hp
    exact hp.trans (List.prefix_append _ _)

/-- The first occurrence is in front of a letter that the needle does not have, or behind it. -/
theorem firstOcc_append_cons {n s r : List α} {c : α} (hn : n ≠ []) (hc : c ∉ n) :
    firstOcc n (s ++ c :: r) = (firstOcc n s).or ((firstOcc n r).map (s.length + 1 + ·)) := by
  have hempty : n.isEmpty = false := by simpa using hn
  induction s with
  | nil =>
    have hp := isPrefixOf_append_cons (s := []) (r := r) hc
    have hnil : n.isPrefixOf [] = false := by
      cases n with
      | nil => exact absurd rfl hn
      | cons a n => rfl
    rw [List.nil_append, hnil] at hp
    simp only [List.nil_append, firstOcc, hp, hempty, Bool.false_eq_true, ↓reduceIte, Option.none_or,
      List.length_nil, Nat.zero_add, Nat.add_comm 1]
  | cons d s ih =>
    have hp := isPrefixOf_append_cons (s := d :: s) (r := r) hc
    rw [List.cons_append] at hp ⊢
    simp only [firstOcc, hp, ih]
    split
    · rfl
    · cases firstOcc n s with
      | some j => rfl
      | none =>
        simp only [Option.none_or, Option.map_none, Option.map_map, List.length_cons]
        congr 1
        funext j
        simp only [Function.comp_apply]
        omega

end

/-! ### The C functions -/

section

variable {β : Type}

/-- `while (!p(b[i])) i++;` — the buffer is left at the latest after `fuel` steps, where `fuel` is what is left of
it. -/
def scan (t : β) (p : UInt8 → Bool) (b : List UInt8) : Nat → Nat → CRun β Nat
  | 0, i => do
    let _ ← load t b i
    pure i
  | fuel + 1, i => do
    let c ← load t b i
    if p c then pure i else scan t p b fuel (i + 1)

def scanFrom (t : β) (p : UInt8 → Bool) (b : List UInt8) (i : Nat) : CRun β Nat := scan t p b (b.length - i) i

/-- `strlen(b + i)`. -/
def strlen (t : β) (b : List UInt8) (i : Nat) : CRun β Nat := do
  let z ← scanFrom t (· == 0) b i
  pure (z - i)

/-- `strncmp(b + i, s + k, n) == 0` for a string literal `s`. -/
def strncmpEq (t : β) (b s : List UInt8) : Nat → Nat → Nat → CRun β Bool
  | 0, _, _ => pure true
  | n + 1, i, k => do
    let c ← load t b i
    if c ≠ s.getD k 0 then pure false
    else if c = 0 then pure true
    else strncmpEq t b s n (i + 1) (k + 1)

/-- `strstr(b + i, n)` as an offset into the buffer; the string is taken to be read to its end. -/
def strstr (t : β) (b n : List UInt8) (i : Nat) : CRun β (Option Nat) := do
  let z ← scanFrom t (· == 0) b i
  pure ((firstOcc n ((b.drop i).take (z - i))).map (i + ·))

/-- The bytes that `strncpy(_, b + i, n)` writes: the string is read up to its NUL or for `n` bytes, and zeros fill
up the rest. -/
def strncpyBytes (t : β) (b : List UInt8) : Nat → Nat → CRun β (List UInt8)
  | 0, _ => pure []
  | n + 1, i => do
    let c ← load t b i
    if c = 0 then pure (List.replicate (n + 1) 0)
    else
      let rest ← strncpyBytes t b n (i + 1)
      pure (c :: rest)

/-- `for (; b[i]; i++) b[i] = f(b[i]);` — `fuel` is what is left of the buffer. -/
def mapString (t : β) (f : UInt8 → UInt8) : Nat → Nat → List UInt8 → CRun β (List UInt8)
  | 0, i, b => do
    let _ ← load t b i
    pure b
  | fuel + 1, i, b => do
    let c ← load t b i
    if c = 0 then pure b
    else
      let b ← store t b i [f c]
      mapString t f fuel (i + 1) b

/-- `memmove(b + dst, b + src, n)`. -/
def memmove (t : β) (b : List UInt8) (dst src n : Nat) : CRun β (List UInt8) := do
  let bytes ← slice t b src n
  store t b dst bytes

end

/-! ### Contracts -/

section

variable {β : Type} {P : Access β → Prop} {t : β}

private theorem obeys_scan (hw : Watches P t) {p : UInt8 → Bool} {b : List UInt8} (fuel i : Nat)
    (hf : b.length ≤ i + fuel) {Q : Nat → Prop} :
    Obeys P (scan t p b fuel i) Q ↔ (b.drop i).any p ∧ Q (i + ((b.drop i).takeWhile (!p ·)).length) := by
  induction fuel generalizing i with
  | zero =>
    have hi : ¬ i < b.length := by omega
    simp only [scan, obeys_bind, obeys_pure, obeys_load hw, hi, IsEmpty.exists_iff,
      List.drop_eq_nil_of_le (show b.length ≤ i by omega), List.any_nil, Bool.false_eq_true, false_and]
  | succ fuel ih =>
    simp only [scan, obeys_bind, obeys_load hw]
    by_cases h : i < b.length
    · rw [List.drop_eq_getElem_cons h, List.any_cons, List.takeWhile_cons]
      by_cases hp : p b[i]
      · simp [hp, h]
      · have hlen : ∀ n, i + 1 + n = i + (n + 1) := by omega
        simp only [hp, h, exists_true_left, Bool.false_eq_true, ↓reduceIte, Bool.false_or, Bool.not_false,
          List.length_cons, ih (i + 1) (by omega), hlen]
    · simp only [h, IsEmpty.exists_iff, List.drop_eq_nil_of_le (show b.length ≤ i by omega), List.any_nil,
        Bool.false_eq_true, false_and]

/-- A scan stays inside the buffer exactly when the byte it looks for is there. -/
theorem obeys_scanFrom (hw : Watches P t) {p : UInt8 → Bool} {b : List UInt8} {i : Nat} {Q : Nat → Prop} :
    Obeys P (scanFrom t p b i) Q ↔ (b.drop i).any p ∧ Q (i + ((b.drop i).takeWhile (!p ·)).length) :=
  obeys_scan hw _ _ (by omega)

/-- A byte of the string at the start of a buffer. -/
theorem obeys_load_cstr {b : List UInt8} {i : Nat} (hi : i < (cstr b).length) (hP : P (.read t i 1 b.length))
    {Q : UInt8 → Prop} : Obeys P (load t b i) Q ↔ Q (cstr b)[i] := by
  have hlt : i < b.length := Nat.lt_of_lt_of_le hi (cstr_isPrefix b).length_le
  rw [obeys_load_of hlt hP, (cstr_isPrefix b).getElem hi]

/-- The NUL behind the string. -/
theorem obeys_load_nul {b : List UInt8} (hz : (0 : UInt8) ∈ b) (hP : P (.read t (cstr b).length 1 b.length))
    {Q : UInt8 → Prop} : Obeys P (load t b (cstr b).length) Q ↔ Q 0 := by
  have hlt := (take_cstr_length_succ hz).2
  obtain ⟨r, hr⟩ := exists_eq_cstr_append hz
  have hget : b[(cstr b).length]? = some 0 := by
    conv => lhs; lhs; rw [hr]
    rw [List.getElem?_append_right (Nat.le_refl _), Nat.sub_self]
    rfl
  rw [List.getElem?_eq_getElem hlt] at hget
  rw [obeys_load_of hlt hP, Option.some.inj hget]

theorem obeys_strlen (hw : Watches P t) {b : List UInt8} {i : Nat} {Q : Nat → Prop} :
    Obeys P (strlen t b i) Q ↔ 0 ∈ b.drop i ∧ Q (cstr (b.drop i)).length := by
  simp only [strlen, obeys_bind, obeys_scanFrom hw, obeys_pure, Nat.add_sub_cancel_left, cstr]
  simp [bne]

theorem obeys_strstr (hw : Watches P t) {b n : List UInt8} {i : Nat} {Q : Option Nat → Prop} :
    Obeys P (strstr t b n i) Q ↔ 0 ∈ b.drop i ∧ Q ((firstOcc n (cstr (b.drop i))).map (i + ·)) := by
  have htake : (b.drop i).take (cstr (b.drop i)).length = cstr (b.drop i) :=
    List.prefix_iff_eq_take.1 (cstr_isPrefix _) |>.symm
  have hcstr : (b.drop i).takeWhile (fun c => !(c == 0)) = cstr (b.drop i) := rfl
  simp only [strstr, obeys_bind, obeys_scanFrom hw, obeys_pure, Nat.add_sub_cancel_left, hcstr, htake]
  simp

/-- `strncpy` from `n` bytes that are there: the string at their start and a filling of zeros. -/
theorem obeys_strncpyBytes (hw : Watches P t) {b : List UInt8} {n i : Nat} (hin : i + n ≤ b.length)
    {Q : List UInt8 → Prop} :
    Obeys P (strncpyBytes t b n i) Q ↔
      Q (cstr ((b.drop i).take n) ++ List.replicate (n - (cstr ((b.drop i).take n)).length) 0) := by
  induction n generalizing i Q with
  | zero => simp [strncpyBytes, cstr]
  | succ n ih =>
    have hi : i < b.length := by omega
    rw [strncpyBytes, obeys_bind, obeys_load hw, List.drop_eq_getElem_cons hi, List.take_succ_cons]
    simp only [hi, exists_true_left]
    by_cases hc : b[i] = 0
    · rw [if_pos hc, obeys_pure, hc]
      simp [cstr]
    · rw [if_neg hc, obeys_bind, ih (by omega), obeys_pure, cstr_cons hc, List.length_cons, Nat.add_sub_add_right,
        List.cons_append]

theorem obeys_memmove (hw : Watches P t) {b : List UInt8} {dst src n : Nat} (hn : 0 < n) {Q : List UInt8 → Prop} :
    Obeys P (memmove t b dst src n) Q ↔
      src + n ≤ b.length ∧ dst + n ≤ b.length ∧ Q (overwrite b dst ((b.drop src).take n)) := by
  simp only [memmove, obeys_bind, obeys_slice hw, obeys_store hw]
  by_cases hsrc : src + n ≤ b.length
  · have hlen : ((b.drop src).take n).length = n := by simp; omega
    rw [hlen]
    constructor
    · rintro ⟨-, h2, hQ⟩
      exact ⟨hsrc, by omega, hQ⟩
    · rintro ⟨-, h2, hQ⟩
      exact ⟨Or.inr hsrc, Or.inr h2, hQ⟩
  · constructor
    · rintro ⟨h, -⟩
      omega
    · rintro ⟨h, -⟩
      exact absurd h hsrc

theorem obeys_memmove_zero (hw : Watches P t) {b : List UInt8} {dst src : Nat} {Q : List UInt8 → Prop} :
    Obeys P (memmove t b dst src 0) Q ↔ Q b := by
  have hover : overwrite b dst [] = b := by simp [overwrite]
  simp [memmove, obeys_slice hw, obeys_store hw, hover]

/-- A string that ends with a NUL is mapped byte by byte. -/
theorem obeys_mapString (hw : Watches P t) (f : UInt8 → UInt8) (pre s tail : List UInt8) (fuel : Nat)
    (hf : s.length < fuel) (hz : (0 : UInt8) ∉ s) {Q : List UInt8 → Prop} :
    Obeys P (mapString t f fuel pre.length (pre ++ s ++ 0 :: tail)) Q ↔ Q (pre ++ s.map f ++ 0 :: tail) := by
  induction s generalizing pre fuel with
  | nil =>
    obtain ⟨fuel, rfl⟩ : ∃ n, fuel = n + 1 := ⟨fuel - 1, by omega⟩
    have hlt : pre.length < (pre ++ [] ++ 0 :: tail).length := by simp
    have hget : (pre ++ [] ++ 0 :: tail)[pre.length] = 0 := by simp
    simp only [mapString, obeys_bind, obeys_load hw, hlt, exists_true_left, hget, ↓reduceIte, obeys_pure, List.map_nil]
  | cons c s ih =>
    simp only [List.mem_cons, not_or] at hz
    obtain ⟨fuel, rfl⟩ : ∃ n, fuel = n + 1 := ⟨fuel - 1, by omega⟩
    have hlt : pre.length < (pre ++ (c :: s) ++ 0 :: tail).length := by simp
    have hget : (pre ++ (c :: s) ++ 0 :: tail)[pre.length] = c := by simp
    have hroom : pre.length + [f c].length ≤ (pre ++ (c :: s) ++ 0 :: tail).length := by simp
    have hover : overwrite (pre ++ (c :: s) ++ 0 :: tail) pre.length [f c] = (pre ++ [f c]) ++ s ++ 0 :: tail := by
      simp [overwrite]
    have hnext : pre.length + 1 = (pre ++ [f c]).length := by simp
    simp only [mapString, obeys_bind, obeys_load hw, hlt, exists_true_left, hget, if_neg (Ne.symm hz.1),
      obeys_store hw, hover, and_iff_right (Or.inr hroom)]
    rw [hnext, ih (pre ++ [f c]) fuel (by simp at hf; omega) hz.2]
    simp

/-- `strncmp` of the string at `i` with a literal of exactly `n` bytes leaves the buffer exactly when what is left of
the buffer is a proper prefix of the literal. -/
theorem obeys_strncmpEq_at (hw : Watches P t) {b s : List UInt8} (hs : (0 : UInt8) ∉ s) (i : Nat) {Q : Bool → Prop} :
    Obeys P (strncmpEq t b s s.length i 0) Q ↔
      ¬ (b.drop i <+: s ∧ (b.drop i).length < s.length) ∧ Q (s.isPrefixOf (b.drop i)) := by
  -- the loop after `k` equal bytes, on what is left of both
  have key : ∀ n k, k + n = s.length →
      (Obeys P (strncmpEq t b s n (i + k) k) Q ↔
        ¬ (b.drop (i + k) <+: s.drop k ∧ (b.drop (i + k)).length < n) ∧
          Q ((s.drop k).isPrefixOf (b.drop (i + k)))) := by
    intro n
    induction n with
    | zero =>
      intro k hk
      simp [strncmpEq, List.drop_eq_nil_of_le (show s.length ≤ k by omega)]
    | succ n ih =>
      intro k hk
      have hks : k < s.length := by omega
      simp only [strncmpEq, obeys_bind, obeys_load hw]
      by_cases hkb : i + k < b.length
      · rw [List.drop_eq_getElem_cons hkb, List.drop_eq_getElem_cons hks]
        have hget : s.getD k 0 = s[k] := by simp [List.getD_eq_getElem?_getD, List.getElem?_eq_getElem hks]
        have hnz : s[k] ≠ 0 := fun h => hs (h ▸ List.getElem_mem hks)
        simp only [hkb, exists_true_left, hget]
        by_cases hc : b[i + k] = s[k]
        · have ih := ih (k + 1) (by omega)
          rw [← Nat.add_assoc] at ih
          simp only [hc, ne_eq, not_true_eq_false, ↓reduceIte, hnz, ih, List.cons_prefix_cons,
            true_and, List.isPrefixOf_cons_cons, beq_self_eq_true, Bool.true_and, List.length_cons,
            Nat.add_lt_add_iff_right]
        · have hbeq : (s[k] == b[i + k]) = false := by simpa using Ne.symm hc
          simp only [ne_eq, hc, not_false_eq_true, ↓reduceIte, obeys_pure, List.cons_prefix_cons, false_and,
            List.isPrefixOf_cons_cons, hbeq, Bool.false_and, true_and]
      · simp [hkb, List.drop_eq_nil_of_le (show b.length ≤ i + k by omega)]
  simpa using key s.length 0 (by omega)

/-- `strncmp` with a literal of exactly `n` bytes leaves the buffer exactly when the buffer is a proper prefix of
the literal. -/
theorem obeys_strncmpEq (hw : Watches P t) {b s : List UInt8} (hs : (0 : UInt8) ∉ s) {Q : Bool → Prop} :
    Obeys P (strncmpEq t b s s.length 0 0) Q ↔
      ¬ (b <+: s ∧ b.length < s.length) ∧ Q (s.isPrefixOf b) := by
  simpa using obeys_strncmpEq_at hw hs 0 (Q := Q)

end

end CSem
