import Mathlib.Data.Nat.ModEq
import Mathlib.Algebra.BigOperators.Group.List.Basic

/-!
# One's-complement addition

Numbers of a fixed width, the greatest of them `m`, are added with an end-around carry: what runs over the width is
added back at the low end.  This is addition modulo `m`, with the one subtlety that `0` has the two representations
`0` and `m`: a sum is `0` only when every summand is.  So a sum is determined by what it represents, and it does not
matter in which order, in which width or in which byte order it was accumulated.
-/

namespace OnesComplement

/-- The carry out of the width is added back to the low part. -/
def endAround (m n : Nat) : Nat := n % (m + 1) + n / (m + 1)

def add (m a b : Nat) : Nat := endAround m (a + b)

/-- The sum of some words, from left to right. -/
def sum (m : Nat) (ws : List Nat) : Nat := ws.foldl (add m) 0

/-- `s` is the number of the width that stands for `n`: congruent to it, and `0` only for `0`. -/
structure Represents (m s n : Nat) : Prop where
  le : s ≤ m
  modEq : s ≡ n [MOD m]
  eq_zero_iff : s = 0 ↔ n = 0

section

variable {m s t n k : Nat}

theorem Represents.unique (hs : Represents m s n) (ht : Represents m t n) : s = t := by
  have hst : s ≡ t [MOD m] := hs.modEq.trans ht.modEq.symm
  have hs0 := hs.eq_zero_iff
  have ht0 := ht.eq_zero_iff
  have hsm := hs.le
  have htm := ht.le
  rcases Nat.eq_zero_or_pos s with h0 | h0
  · omega
  · rcases Nat.le_total s t with h | h
    · have hd := (Nat.modEq_iff_dvd' h).1 hst
      have := Nat.eq_zero_of_dvd_of_lt hd (by omega)
      omega
    · have hd := (Nat.modEq_iff_dvd' h).1 hst.symm
      have := Nat.eq_zero_of_dvd_of_lt hd (by omega)
      omega

theorem represents_self (h : n ≤ m) : Represents m n n := ⟨h, rfl, Iff.rfl⟩

private theorem endAround_add (m n : Nat) : endAround m n + m * (n / (m + 1)) = n := by
  have h := Nat.div_add_mod n (m + 1)
  rw [Nat.add_mul, Nat.one_mul] at h
  unfold endAround
  omega

theorem endAround_modEq (m n : Nat) : endAround m n ≡ n [MOD m] := by
  have h := endAround_add m n
  calc endAround m n ≡ endAround m n + m * (n / (m + 1)) [MOD m] := by simp [Nat.ModEq]
    _ = n := h

theorem endAround_eq_zero_iff : endAround m n = 0 ↔ n = 0 := by
  have h := endAround_add m n
  constructor
  · intro h0
    have hq : n / (m + 1) = 0 := (Nat.add_eq_zero_iff.1 h0).2
    rw [h0, hq] at h
    exact h.symm
  · intro h0
    subst h0
    simp [endAround]

theorem endAround_of_le (h : n ≤ m) : endAround m n = n := by
  rw [endAround, Nat.mod_eq_of_lt (by omega), Nat.div_eq_of_lt (by omega), Nat.add_zero]

/-- Folding the carry in changes nothing of what is represented. -/
theorem represents_endAround : Represents m s (endAround m n) ↔ Represents m s n := by
  constructor
  · intro h
    exact ⟨h.le, h.modEq.trans (endAround_modEq m n), h.eq_zero_iff.trans endAround_eq_zero_iff⟩
  · intro h
    exact ⟨h.le, h.modEq.trans (endAround_modEq m n).symm, h.eq_zero_iff.trans endAround_eq_zero_iff.symm⟩

theorem Represents.add (hs : Represents m s n) (ht : Represents m t k) : Represents m (add m s t) (n + k) := by
  have hsm := hs.le
  have htm := ht.le
  have hs0 := hs.eq_zero_iff
  have ht0 := ht.eq_zero_iff
  refine ⟨?_, (endAround_modEq m _).trans (hs.modEq.add ht.modEq), ?_⟩
  · rcases Nat.lt_or_ge m (s + t) with h | h
    · have hq := endAround_add m (s + t)
      have h1 : 1 ≤ (s + t) / (m + 1) := (Nat.le_div_iff_mul_le (by omega)).2 (by omega)
      have h2 : m * 1 ≤ m * ((s + t) / (m + 1)) := Nat.mul_le_mul_left m h1
      unfold OnesComplement.add
      omega
    · unfold OnesComplement.add
      rwa [endAround_of_le h]
  · rw [OnesComplement.add, endAround_eq_zero_iff]
    omega

private theorem represents_foldl {ws : List Nat} (h : ∀ w ∈ ws, w ≤ m) (hs : Represents m s n) :
    Represents m (ws.foldl (OnesComplement.add m) s) (n + ws.sum) := by
  induction ws generalizing s n with
  | nil => simpa using hs
  | cons w ws ih =>
    have hw := represents_self (h w (List.mem_cons_self ..))
    have hrest := ih (fun x hx => h x (List.mem_cons_of_mem _ hx)) (hs.add hw)
    rw [List.sum_cons, ← Nat.add_assoc]
    exact hrest

theorem represents_sum {ws : List Nat} (h : ∀ w ∈ ws, w ≤ m) : Represents m (sum m ws) ws.sum := by
  have h0 := represents_foldl h (represents_self (Nat.zero_le m))
  rwa [Nat.zero_add] at h0

/-- Exchanging the halves of a word multiplies it by the base of the halves: the sum does not depend on the byte
order. -/
theorem Represents.swap {B : Nat} (hB : m + 1 = B * B) (hs : Represents m s n) :
    Represents m (s % B * B + s / B) (B * n) := by
  have hpos : 0 < B := Nat.pos_of_ne_zero (by rintro rfl; omega)
  have hsm := hs.le
  have hlow := Nat.mod_lt s hpos
  have hhigh : s / B < B := (Nat.div_lt_iff_lt_mul hpos).2 (by omega)
  have hdiv := Nat.div_add_mod s B
  refine ⟨?_, ?_, ?_⟩
  · have h1 : s % B * B ≤ (B - 1) * B := Nat.mul_le_mul_right B (by omega)
    have h2 : (B - 1) * B + B = B * B := by
      rw [Nat.sub_mul, Nat.one_mul, Nat.sub_add_cancel (Nat.le_mul_of_pos_left B hpos)]
    omega
  · have hcarry : s % B * B + s / B + m * (s / B) = B * s := by
      calc s % B * B + s / B + m * (s / B) = s % B * B + (m + 1) * (s / B) := by rw [Nat.add_mul, Nat.one_mul]; omega
        _ = s % B * B + B * B * (s / B) := by rw [hB]
        _ = B * (B * (s / B) + s % B) := by rw [Nat.mul_add, Nat.mul_assoc, Nat.mul_comm (s % B), Nat.add_comm]
        _ = B * s := by rw [hdiv]
    calc s % B * B + s / B ≡ s % B * B + s / B + m * (s / B) [MOD m] := by simp [Nat.ModEq]
      _ = B * s := hcarry
      _ ≡ B * n [MOD m] := hs.modEq.mul_left B
  · have hs0 := hs.eq_zero_iff
    constructor
    · intro h0
      obtain ⟨hrB, hq⟩ := Nat.add_eq_zero_iff.1 h0
      have hr : s % B = 0 := (Nat.mul_eq_zero.1 hrB).resolve_right (by omega)
      rw [hq, hr] at hdiv
      simp only [Nat.mul_zero, Nat.add_zero] at hdiv
      simp [hs0.1 hdiv.symm]
    · intro h0
      have hn : n = 0 := by
        rcases Nat.mul_eq_zero.1 h0 with h | h
        · omega
        · exact h
      simp [hs0.2 hn]

/-- The other representation of `0`. -/
theorem represents_top_iff (hm : 0 < m) : Represents m m n ↔ n ≠ 0 ∧ m ∣ n := by
  constructor
  · intro h
    have h0 := h.eq_zero_iff
    exact ⟨by omega, (Nat.modEq_zero_iff_dvd).1 (h.modEq.symm.trans (by simp [Nat.ModEq]))⟩
  · intro h
    obtain ⟨h0, hd⟩ := h
    exact ⟨Nat.le_refl m, Nat.ModEq.trans (by simp [Nat.ModEq]) (Nat.modEq_zero_iff_dvd.2 hd).symm, by omega⟩

/-- A sum to which its complement is added is the other representation of `0`. -/
theorem Represents.add_complement (hm : 0 < m) (hs : Represents m s n) : Represents m m (n + (m - s)) := by
  have hsm := hs.le
  have hs0 := hs.eq_zero_iff
  rw [represents_top_iff hm]
  refine ⟨by omega, Nat.modEq_zero_iff_dvd.1 ?_⟩
  calc n + (m - s) ≡ s + (m - s) [MOD m] := hs.modEq.symm.add_right _
    _ = m := by omega
    _ ≡ 0 [MOD m] := by simp [Nat.ModEq]

end

end OnesComplement
