import GoodbyeDpi.CSem.Text
import Mathlib.Data.List.Induction

/-!
# Addresses in dotted decimal

`inet_pton` and `inet_ntop` for `AF_INET`.  `inet_pton` reads the text one byte at a time.  In every state that it
reaches what it has read is the text of what it has stored, so it accepts only what `inet_ntop` writes, and every text
that `inet_ntop` writes.
-/

namespace CSem

/-- `%u`. -/
def printDecimal (n : Nat) : List UInt8 := (Nat.toDigits 10 n).map fun c => UInt8.ofNat c.toNat

/-- `inet_ntop` for `AF_INET`. -/
def inetNtop4 (octets : List UInt8) : List UInt8 := [46].intercalate (octets.map fun o => printDecimal o.toNat)

/-- What `inet_pton` has stored: the octets that a dot has ended, the one that it is reading, and whether that one has a
digit. -/
structure PtonState where
  done : List UInt8
  cur : UInt8
  sawDigit : Bool
deriving DecidableEq, Repr

namespace PtonState

def init : PtonState := ⟨[], 0, false⟩

/-- The number of the octets that have a digit. -/
def octets (st : PtonState) : Nat := if st.sawDigit then st.done.length + 1 else st.done.length

/-- One byte; `none` where `inet_pton` returns 0. -/
def step (st : PtonState) (ch : UInt8) : Option PtonState :=
  if isDigit ch then
    let new := st.cur.toNat * 10 + (ch.toNat - 48)
    if st.sawDigit ∧ st.cur = 0 then none
    else if 255 < new then none
    else if st.sawDigit then some { st with cur := UInt8.ofNat new }
    else if 4 < st.octets + 1 then none
    else some { st with cur := UInt8.ofNat new, sawDigit := true }
  else if ch = 46 ∧ st.sawDigit then
    if st.octets = 4 then none else some ⟨st.done ++ [st.cur], 0, false⟩
  else none

/-- The text of what is stored. -/
def text (st : PtonState) : List UInt8 :=
  (st.done.flatMap fun o => printDecimal o.toNat ++ [46]) ++ if st.sawDigit then printDecimal st.cur.toNat else []

end PtonState

/-- `inet_pton` for `AF_INET`: the four octets, or `none` where it returns 0. -/
def inetPton4 (s : List UInt8) : Option (List UInt8) := do
  let st ← s.foldlM PtonState.step .init
  if st.octets < 4 then none else some (st.done ++ [st.cur])

/-! ### Numbers -/

theorem printDecimal_of_lt {n : Nat} (h : n < 10) : printDecimal n = [UInt8.ofNat (48 + n)] := by
  rw [printDecimal, Nat.toDigits_of_lt_base h]
  revert n
  decide

theorem printDecimal_append {n d : Nat} (hn : 0 < n) (hd : d < 10) :
    printDecimal (n * 10 + d) = printDecimal n ++ [UInt8.ofNat (48 + d)] := by
  rw [← printDecimal_of_lt hd, printDecimal, printDecimal, printDecimal, ← List.map_append,
    Nat.toDigits_append_toDigits (by decide) hn hd, Nat.mul_comm]

/-! ### Reading -/

variable {st st' : PtonState} {ch : UInt8} {s : List UInt8}

/-- An octet without a digit is 0, and at most three octets have ended. -/
structure PtonState.Valid (st : PtonState) : Prop where
  fresh : st.sawDigit = false → st.cur = 0
  few : st.done.length ≤ 3

theorem isDigit_iff : isDigit ch = true ↔ 48 ≤ ch.toNat ∧ ch.toNat ≤ 57 := by
  simp [isDigit, UInt8.le_iff_toNat_le]

theorem ofNat_digit (h : isDigit ch = true) : UInt8.ofNat (48 + (ch.toNat - 48)) = ch := by
  obtain ⟨hlo, hhi⟩ := isDigit_iff.1 h
  rw [Nat.add_sub_cancel' hlo, UInt8.ofNat_toNat]

/-- One byte more is read and one byte more is in the text. -/
theorem PtonState.text_step (hst : st.Valid) (h : st.step ch = some st') :
    st'.text = st.text ++ [ch] ∧ st'.Valid := by
  unfold step at h
  split at h
  · rename_i hdigit
    obtain ⟨hlo, hhi⟩ := isDigit_iff.1 hdigit
    dsimp only at h
    split at h
    · cases h
    rename_i hzero
    split at h
    · cases h
    rename_i hbig
    have hnew : (UInt8.ofNat (st.cur.toNat * 10 + (ch.toNat - 48))).toNat = st.cur.toNat * 10 + (ch.toNat - 48) := by
      rw [UInt8.toNat_ofNat']
      omega
    split at h
    · rename_i hsaw
      have hpos : 0 < st.cur.toNat := by
        rcases Nat.eq_zero_or_pos st.cur.toNat with h0 | hpos
        · exact absurd ⟨hsaw, UInt8.toNat_inj.1 h0⟩ hzero
        · exact hpos
      cases h
      refine ⟨?_, ⟨fun hfalse => ?_, hst.few⟩⟩
      · rw [text, text, if_pos hsaw, if_pos hsaw, hnew, printDecimal_append hpos (by omega), ofNat_digit hdigit,
          List.append_assoc]
      · rw [hsaw] at hfalse
        cases hfalse
    · rename_i hsaw
      split at h
      · cases h
      cases h
      have hcur : st.cur = 0 := hst.fresh (by simpa using hsaw)
      refine ⟨?_, ⟨fun hfalse => ?_, hst.few⟩⟩
      · rw [text, text, if_pos rfl, if_neg hsaw, hnew, hcur, List.append_nil]
        change _ ++ printDecimal (0 * 10 + _) = _
        rw [Nat.zero_mul, Nat.zero_add, printDecimal_of_lt (by omega), ofNat_digit hdigit]
      · cases hfalse
  · split at h
    · rename_i hdot
      obtain ⟨rfl, hsaw⟩ := hdot
      split at h
      · cases h
      rename_i hfour
      cases h
      have hfew := hst.few
      rw [octets, if_pos hsaw] at hfour
      refine ⟨?_, ⟨fun _ => rfl, ?_⟩⟩
      · rw [text, text, if_pos hsaw]
        simp
      · rw [List.length_append, List.length_singleton]
        omega
    · cases h

theorem PtonState.text_foldlM (hst : st.Valid) (h : s.foldlM step st = some st') :
    st'.text = st.text ++ s ∧ st'.Valid := by
  induction s generalizing st with
  | nil =>
    cases h
    exact ⟨(List.append_nil _).symm, hst⟩
  | cons c s ih =>
    obtain ⟨mid, hstep, hrest⟩ := Option.bind_eq_some_iff.1 h
    obtain ⟨htext, hmid⟩ := text_step hst hstep
    obtain ⟨htext', hst'⟩ := ih hmid hrest
    rw [htext', htext, List.append_assoc, List.singleton_append]
    exact ⟨rfl, hst'⟩

theorem inetNtop4_append (done : List UInt8) (cur : UInt8) :
    inetNtop4 (done ++ [cur]) = (done.flatMap fun o => printDecimal o.toNat ++ [46]) ++ printDecimal cur.toNat := by
  induction done with
  | nil => simp [inetNtop4]
  | cons o done ih =>
    rw [List.flatMap_cons, List.append_assoc, ← ih]
    cases done with
    | nil => simp [inetNtop4, List.intercalate]
    | cons o' done => simp [inetNtop4, List.intercalate]

theorem eq_inetNtop4_of_inetPton4 {octets : List UInt8} (h : inetPton4 s = some octets) :
    octets.length = 4 ∧ s = inetNtop4 octets := by
  obtain ⟨st, hrun, hend⟩ := Option.bind_eq_some_iff.1 h
  have hinit : PtonState.init.Valid := ⟨fun _ => rfl, Nat.zero_le 3⟩
  obtain ⟨htext, hst⟩ := PtonState.text_foldlM hinit hrun
  have hfew := hst.few
  split at hend
  · cases hend
  rename_i hfour
  cases hend
  rw [PtonState.octets] at hfour
  split at hfour
  · rename_i hsaw
    refine ⟨by rw [List.length_append, List.length_singleton]; omega, ?_⟩
    have hs : st.text = s := htext
    rw [inetNtop4_append, ← hs, PtonState.text, if_pos hsaw]
  · omega

/-! ### Reading what was written -/

theorem toNat_ofNat_of_le {n : Nat} (hn : n ≤ 255) : (UInt8.ofNat n).toNat = n := by
  rw [UInt8.toNat_ofNat']
  omega

theorem isDigit_ofNat {d : Nat} (hd : d < 10) : isDigit (UInt8.ofNat (48 + d)) = true := by
  rw [isDigit_iff, toNat_ofNat_of_le (by omega)]
  omega

/-- The first digit of an octet. -/
theorem step_first {done : List UInt8} (hdone : done.length ≤ 3) {d : Nat} (hd : d < 10) :
    PtonState.step ⟨done, 0, false⟩ (UInt8.ofNat (48 + d)) = some ⟨done, UInt8.ofNat d, true⟩ := by
  have hnew : (0 : UInt8).toNat * 10 + ((UInt8.ofNat (48 + d)).toNat - 48) = d := by
    rw [toNat_ofNat_of_le (by omega), UInt8.toNat_zero]
    omega
  have hfew : ¬ 4 < (PtonState.mk done 0 false).octets + 1 := by
    change ¬ 4 < done.length + 1
    omega
  rw [PtonState.step, if_pos (isDigit_ofNat hd)]
  dsimp only
  rw [hnew, if_neg (by simp), if_neg (by omega), if_neg (by simp), if_neg hfew]

/-- Another digit, behind a number other than 0. -/
theorem step_next (done : List UInt8) {n d : Nat} (hn : 0 < n) (hd : d < 10) (hle : n * 10 + d ≤ 255) :
    PtonState.step ⟨done, UInt8.ofNat n, true⟩ (UInt8.ofNat (48 + d)) =
      some ⟨done, UInt8.ofNat (n * 10 + d), true⟩ := by
  have hcur : (UInt8.ofNat n).toNat = n := toNat_ofNat_of_le (by omega)
  have hnew : (UInt8.ofNat n).toNat * 10 + ((UInt8.ofNat (48 + d)).toNat - 48) = n * 10 + d := by
    rw [hcur, toNat_ofNat_of_le (by omega)]
    omega
  have hne : ¬ UInt8.ofNat n = 0 := by
    intro h0
    rw [h0, UInt8.toNat_zero] at hcur
    omega
  rw [PtonState.step, if_pos (isDigit_ofNat hd)]
  dsimp only
  rw [hnew, if_neg (by simp [hne]), if_neg (by omega), if_pos rfl]

/-- The digits of an octet. -/
theorem foldlM_printDecimal (done : List UInt8) (hdone : done.length ≤ 3) {n : Nat} (hn : n ≤ 255) :
    (printDecimal n).foldlM PtonState.step ⟨done, 0, false⟩ = some ⟨done, UInt8.ofNat n, true⟩ := by
  induction n using Nat.strongRecOn with
  | ind n ih =>
    by_cases hsmall : n < 10
    · rw [printDecimal_of_lt hsmall, List.foldlM_cons, step_first hdone hsmall]
      rfl
    · have hpos : 0 < n / 10 := by omega
      have hlast : n % 10 < 10 := by omega
      have hsplit : n / 10 * 10 + n % 10 = n := by omega
      have hhead := ih (n / 10) (by omega) (by omega)
      have hstep := step_next done hpos hlast (by omega)
      rw [hsplit] at hstep
      rw [← hsplit, printDecimal_append hpos hlast, List.foldlM_append, hhead, hsplit]
      change List.foldlM PtonState.step ⟨done, UInt8.ofNat (n / 10), true⟩ [UInt8.ofNat (48 + n % 10)] = _
      rw [List.foldlM_cons, hstep]
      rfl

theorem step_dot {done : List UInt8} {o : UInt8} (hdone : done.length ≤ 2) :
    PtonState.step ⟨done, o, true⟩ 46 = some ⟨done ++ [o], 0, false⟩ := by
  have hfour : (PtonState.mk done o true).octets ≠ 4 := by
    change done.length + 1 ≠ 4
    omega
  have hdigit : isDigit 46 = false := by decide
  simp [PtonState.step, hdigit, hfour]

/-- Reading goes on behind what has been read. -/
theorem foldlM_append_of_eq {s' : List UInt8} {mid : PtonState} (h : s.foldlM PtonState.step st = some mid) :
    (s ++ s').foldlM PtonState.step st = s'.foldlM PtonState.step mid := by
  rw [List.foldlM_append, h]
  rfl

/-- The octets with the dots behind them. -/
theorem foldlM_done {done : List UInt8} (hdone : done.length ≤ 3) :
    (done.flatMap fun o => printDecimal o.toNat ++ [46]).foldlM PtonState.step .init = some ⟨done, 0, false⟩ := by
  induction done using List.reverseRecOn with
  | nil => rfl
  | append_singleton done o ih =>
    rw [List.length_append, List.length_singleton] at hdone
    have ho := foldlM_printDecimal done (by omega) (Nat.le_of_lt_succ o.toNat_lt)
    rw [UInt8.ofNat_toNat] at ho
    rw [List.flatMap_append, foldlM_append_of_eq (ih (by omega)), List.flatMap_singleton, foldlM_append_of_eq ho,
      List.foldlM_cons, step_dot (by omega)]
    rfl

theorem inetPton4_inetNtop4 {octets : List UInt8} (h : octets.length = 4) :
    inetPton4 (inetNtop4 octets) = some octets := by
  obtain ⟨done, cur, rfl⟩ : ∃ done cur, octets = done ++ [cur] :=
    ⟨octets.dropLast, octets.getLast (List.ne_nil_of_length_pos (by omega)),
      (List.dropLast_append_getLast _).symm⟩
  rw [List.length_append, List.length_singleton] at h
  have hcur := foldlM_printDecimal done (by omega) (Nat.le_of_lt_succ cur.toNat_lt)
  rw [UInt8.ofNat_toNat] at hcur
  have hrun : (inetNtop4 (done ++ [cur])).foldlM PtonState.step .init = some ⟨done, cur, true⟩ := by
    rw [inetNtop4_append, foldlM_append_of_eq (foldlM_done (by omega)), hcur]
  have hfour : ¬ (PtonState.mk done cur true).octets < 4 := by
    change ¬ done.length + 1 < 4
    omega
  rw [inetPton4, hrun]
  exact if_neg hfour

/-- `inet_pton` accepts exactly what `inet_ntop` writes. -/
theorem inetPton4_eq_some_iff {octets : List UInt8} :
    inetPton4 s = some octets ↔ octets.length = 4 ∧ inetNtop4 octets = s := by
  constructor
  · intro h
    obtain ⟨hlen, hs⟩ := eq_inetNtop4_of_inetPton4 h
    exact ⟨hlen, hs.symm⟩
  · rintro ⟨hlen, rfl⟩
    exact inetPton4_inetNtop4 hlen

end CSem
