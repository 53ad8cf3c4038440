import GoodbyeDpi.OnesComplement
import GoodbyeDpi.CSem.Scalars

/-!
# The checksum of a header (`src/src/utils/net_utils.c`)

`calculate_ip_checksum` adds the 16 bit words of a header in the byte order of the host, with 32 bits for the sum, and
folds the carries in afterwards.  For every header that fits a length field this is the Internet checksum of RFC 1071,
which adds the words in network byte order and folds every carry as it occurs.  The pointer and the length of the
source are one list of bytes here.
-/

namespace GoodbyeDpi

open CSem OnesComplement

/-- The two bytes that `ptr` points to, and an odd last byte, are added to `sum`. -/
def sumWords (sum : UInt32) : List UInt8 → UInt32
  | lo :: hi :: rest => sumWords (sum + UInt32.ofNat (lo.toNat + hi.toNat * 256)) rest
  | [last] => sum + UInt32.ofNat last.toNat
  | [] => sum

/-- One round of the loop that folds the sum to 16 bits. -/
def foldRound (sum : UInt32) : UInt32 := (sum &&& (0xFFFF : UInt32)) + (sum >>> 16)

theorem toNat_foldRound (sum : UInt32) : (foldRound sum).toNat = endAround 65535 sum.toNat := by
  have h : sum.toNat < 4294967296 := sum.toNat_lt
  have hand : sum.toNat &&& 65535 = sum.toNat % 65536 := Nat.and_two_pow_sub_one_eq_mod sum.toNat 16
  have hshift : sum.toNat >>> 16 = sum.toNat / 65536 := Nat.shiftRight_eq_div_pow _ 16
  rw [foldRound, UInt32.toNat_add, UInt32.toNat_and, UInt32.toNat_shiftRight]
  change ((sum.toNat &&& 65535) + sum.toNat >>> 16) % 4294967296 = sum.toNat % 65536 + sum.toNat / 65536
  rw [hand, hshift]
  omega

theorem shiftRight_eq_zero_iff (sum : UInt32) : sum >>> 16 = 0 ↔ sum.toNat ≤ 65535 := by
  have hshift : (sum >>> 16).toNat = sum.toNat / 65536 := by
    rw [UInt32.toNat_shiftRight]
    exact Nat.shiftRight_eq_div_pow _ 16
  rw [← UInt32.toNat_inj, hshift]
  change sum.toNat / 65536 = 0 ↔ _
  omega

/-- The rounds are made as long as there is a carry. -/
def foldCarries (sum : UInt32) : UInt32 := if sum >>> 16 = 0 then sum else foldCarries (foldRound sum)
termination_by sum.toNat
decreasing_by
  rename_i h
  rw [shiftRight_eq_zero_iff] at h
  rw [toNat_foldRound, endAround]
  omega

def calculateIpChecksum (header : List UInt8) : UInt16 := (~~~ foldCarries (sumWords 0 header)).toUInt16

/-! ### The Internet checksum -/

/-- A zero byte is added when the length is odd. -/
def padEven (b : List UInt8) : List UInt8 := if b.length % 2 = 1 then b ++ [0] else b

/-- The 16 bit words in network byte order. -/
def beWords : List UInt8 → List Nat
  | hi :: lo :: rest => (hi.toNat * 256 + lo.toNat) :: beWords rest
  | _ => []

/-- The checksum of RFC 1071: the complement of the one's-complement sum of the words. -/
def internetChecksum (b : List UInt8) : Nat := 65535 - OnesComplement.sum 65535 (beWords (padEven b))

/-! ### The accumulated sum -/

/-- The words that the code adds. -/
def leWords : List UInt8 → List Nat
  | lo :: hi :: rest => (lo.toNat + hi.toNat * 256) :: leWords rest
  | [last] => [last.toNat]
  | [] => []

private theorem two_mul_sum_leWords_le (b : List UInt8) : 2 * (leWords b).sum ≤ 65535 * (b.length + 1) := by
  induction b using leWords.induct with
  | case1 lo hi rest ih =>
    have hlo := lo.toNat_lt
    have hhi := hi.toNat_lt
    simp only [leWords, List.sum_cons, List.length_cons]
    omega
  | case2 last =>
    have hlast := last.toNat_lt
    simp [leWords]
    omega
  | case3 => simp [leWords]

private theorem toNat_sumWords_of_lt (b : List UInt8) (sum : UInt32) (h : sum.toNat + (leWords b).sum < 4294967296) :
    (sumWords sum b).toNat = sum.toNat + (leWords b).sum := by
  induction sum, b using sumWords.induct with
  | case1 sum lo hi rest ih =>
    have hlo := lo.toNat_lt
    have hhi := hi.toNat_lt
    rw [leWords, List.sum_cons] at h ⊢
    have hadd : (sum + UInt32.ofNat (lo.toNat + hi.toNat * 256)).toNat = sum.toNat + (lo.toNat + hi.toNat * 256) := by
      rw [UInt32.toNat_add, UInt32.toNat_ofNat']
      omega
    rw [sumWords, ih (by omega), hadd]
    omega
  | case2 sum last =>
    have hlast := last.toNat_lt
    simp only [leWords, List.sum_cons, List.sum_nil, Nat.add_zero] at h ⊢
    rw [sumWords, UInt32.toNat_add, UInt32.toNat_ofNat']
    omega
  | case3 sum => simp [sumWords, leWords]

/-- The accumulator does not overflow. -/
theorem toNat_sumWords {b : List UInt8} (h : b.length ≤ 65535) : (sumWords 0 b).toNat = (leWords b).sum := by
  have hle := two_mul_sum_leWords_le b
  have h0 : (0 : UInt32).toNat = 0 := rfl
  rw [toNat_sumWords_of_lt b 0 (by omega), h0, Nat.zero_add]

/-! ### The folded sum -/

theorem represents_foldCarries (sum : UInt32) : Represents 65535 (foldCarries sum).toNat sum.toNat := by
  induction sum using foldCarries.induct with
  | case1 sum h =>
    rw [foldCarries, if_pos h]
    exact represents_self ((shiftRight_eq_zero_iff sum).1 h)
  | case2 sum h ih =>
    rw [foldCarries, if_neg h]
    rw [toNat_foldRound, represents_endAround] at ih
    exact ih

/-- Two rounds fold every carry. -/
theorem foldRound_foldRound (sum : UInt32) : foldRound (foldRound sum) >>> 16 = 0 := by
  have h : sum.toNat < 4294967296 := sum.toNat_lt
  rw [shiftRight_eq_zero_iff, toNat_foldRound, toNat_foldRound, endAround, endAround]
  omega

theorem toNat_calculateIpChecksum (header : List UInt8) :
    (calculateIpChecksum header).toNat = 65535 - (foldCarries (sumWords 0 header)).toNat := by
  have hle := (represents_foldCarries (sumWords 0 header)).le
  rw [calculateIpChecksum, UInt32.toNat_toUInt16, UInt32.toNat_not]
  change (4294967296 - 1 - _) % 65536 = _
  omega

/-- The checksum is the complement of the number that stands for the sum of the words. -/
theorem represents_calculateIpChecksum {header : List UInt8} (h : header.length ≤ 65535) :
    Represents 65535 (65535 - (calculateIpChecksum header).toNat) (leWords header).sum := by
  have hr := represents_foldCarries (sumWords 0 header)
  have hle := hr.le
  rw [toNat_calculateIpChecksum, Nat.sub_sub_self hle, ← toNat_sumWords h]
  exact hr

/-! ### Byte order -/

private theorem padEven_cons_cons (x y : UInt8) (b : List UInt8) : padEven (x :: y :: b) = x :: y :: padEven b := by
  have hlen : (x :: y :: b).length % 2 = b.length % 2 := by
    simp only [List.length_cons]
    omega
  simp only [padEven, hlen]
  split
  · rfl
  · rfl

private theorem beWords_le (b : List UInt8) : ∀ w ∈ beWords b, w ≤ 65535 := by
  induction b using beWords.induct with
  | case1 hi lo rest ih =>
    have hhi := hi.toNat_lt
    have hlo := lo.toNat_lt
    intro w hw
    rcases List.mem_cons.1 hw with rfl | hw
    · omega
    · exact ih w hw
  | case2 b hb =>
    intro w hw
    rw [beWords] at hw
    · cases hw
    · exact hb

/-- The words in network byte order add up to 256 times the words in host byte order, modulo 65535; the one sum is
zero when the other is. -/
private theorem sum_beWords_padEven (b : List UInt8) :
    (beWords (padEven b)).sum ≡ 256 * (leWords b).sum [MOD 65535] ∧
      ((beWords (padEven b)).sum = 0 ↔ 256 * (leWords b).sum = 0) := by
  induction b using leWords.induct with
  | case1 x y rest ih =>
    obtain ⟨hmod, hzero⟩ := ih
    have hword : x.toNat * 256 + y.toNat ≡ 256 * (x.toNat + y.toNat * 256) [MOD 65535] := by
      unfold Nat.ModEq
      omega
    rw [padEven_cons_cons, beWords, leWords, List.sum_cons, List.sum_cons, Nat.mul_add]
    exact ⟨hword.add hmod, by omega⟩
  | case2 last =>
    have hsum : (beWords (padEven [last])).sum = 256 * (leWords [last]).sum := by
      simp [padEven, beWords, leWords, Nat.mul_comm]
    rw [hsum]
    exact ⟨rfl, Iff.rfl⟩
  | case3 => exact ⟨rfl, by simp [padEven, beWords, leWords]⟩

private theorem represents_swap {s n k : Nat} (h : Represents 65535 s n) (hmod : k ≡ 256 * n [MOD 65535])
    (hzero : k = 0 ↔ 256 * n = 0) : Represents 65535 (s % 256 * 256 + s / 256) k := by
  have hs : Represents 65535 (s % 256 * 256 + s / 256) (256 * n) := h.swap rfl
  exact ⟨hs.le, hs.modEq.trans hmod.symm, hs.eq_zero_iff.trans hzero.symm⟩

/-- The complement of a number with its bytes exchanged. -/
private theorem le16Bytes_eq_be16Bytes (w : UInt16) :
    le16Bytes w = be16Bytes (65535 - ((65535 - w.toNat) % 256 * 256 + (65535 - w.toNat) / 256)) := by
  have hw : w.toNat < 65536 := w.toNat_lt
  have hbyte : ∀ {x y : Nat}, x % 256 = y % 256 → UInt8.ofNat x = UInt8.ofNat y := by
    intro x y hxy
    apply UInt8.toNat.inj
    rw [UInt8.toNat_ofNat', UInt8.toNat_ofNat']
    exact hxy
  have hlow : (65535 - w.toNat) % 256 = 255 - w.toNat % 256 := by omega
  have hhigh : (65535 - w.toNat) / 256 = 255 - w.toNat / 256 := by omega
  have hswap : 65535 - ((255 - w.toNat % 256) * 256 + (255 - w.toNat / 256)) = w.toNat % 256 * 256 + w.toNat / 256 := by
    omega
  have hfirst : (w.toNat % 256 * 256 + w.toNat / 256) / 256 = w.toNat % 256 := by
    rw [Nat.add_comm, Nat.add_mul_div_right _ _ (by omega), Nat.div_eq_of_lt (by omega), Nat.zero_add]
  rw [hlow, hhigh, hswap]
  unfold le16Bytes be16Bytes
  congr 1
  · rw [hfirst]
    exact hbyte (Nat.mod_mod _ _).symm
  congr 1
  · exact hbyte (by omega)

/-- For every header whose length fits 16 bits: at no point is the sum too large for its 32 bits, the loop that folds
it ends within two rounds, and the checksum in the memory of the host is the Internet checksum in network byte
order. -/
theorem calculateIpChecksum_eq_internetChecksum (header : List UInt8) (hlen : header.length ≤ 65535) :
    (∀ n, (sumWords 0 (header.take n)).toNat = (leWords (header.take n)).sum) ∧
      (∃ rounds ≤ 2, (foldRound^[rounds] (sumWords 0 header)) >>> 16 = 0) ∧
      le16Bytes (calculateIpChecksum header) = be16Bytes (internetChecksum header) := by
  refine ⟨?_, ⟨2, Nat.le_refl 2, foldRound_foldRound _⟩, ?_⟩
  · intro n
    have htake : (header.take n).length ≤ 65535 := (List.length_take_le' n header).trans hlen
    exact toNat_sumWords htake
  · obtain ⟨hmod, hzero⟩ := sum_beWords_padEven header
    have hcode := represents_swap (represents_calculateIpChecksum hlen) hmod hzero
    have hrfc := represents_sum (beWords_le (padEven header))
    rw [internetChecksum, hrfc.unique hcode]
    exact le16Bytes_eq_be16Bytes _

theorem calculateIpChecksum_of_odd_header :
    le16Bytes (calculateIpChecksum [0x45, 0, 0xff]) = be16Bytes (internetChecksum [0x45, 0, 0xff]) :=
  (calculateIpChecksum_eq_internetChecksum [0x45, 0, 0xff] (by decide)).2.2

/-! ### Verification -/

/-- A header verifies when its words add up to a multiple of 65535 other than zero. -/
theorem calculateIpChecksum_eq_zero_iff {header : List UInt8} (h : header.length ≤ 65535) :
    calculateIpChecksum header = 0 ↔ (leWords header).sum ≠ 0 ∧ 65535 ∣ (leWords header).sum := by
  have hr := represents_calculateIpChecksum h
  have h0 : (0 : UInt16).toNat = 0 := rfl
  rw [← represents_top_iff (by omega : 0 < 65535), ← UInt16.toNat_inj, h0]
  constructor
  · intro hc
    rwa [hc] at hr
  · intro htop
    have hc : (calculateIpChecksum header).toNat < 65536 := (calculateIpChecksum header).toNat_lt
    have := hr.unique htop
    omega

/-- What storing a word at an even offset does to the sum. -/
private theorem sum_leWords_overwrite (w : UInt16) {b : List UInt8} {i : Nat} (h : 2 * i + 1 < b.length) :
    (leWords (overwrite b (2 * i) (le16Bytes w))).sum + le16At b (2 * i) = (leWords b).sum + w.toNat := by
  have hw : w.toNat < 65536 := w.toNat_lt
  induction i generalizing b with
  | zero =>
    match b with
    | [] => simp at h
    | [_] => simp at h
    | x :: y :: rest =>
      have hnew : overwrite (x :: y :: rest) (2 * 0) (le16Bytes w) =
          UInt8.ofNat w.toNat :: UInt8.ofNat (w.toNat / 256) :: rest := rfl
      have hold : le16At (x :: y :: rest) (2 * 0) = x.toNat + y.toNat * 256 := rfl
      rw [hnew, hold, leWords, leWords, List.sum_cons, List.sum_cons, UInt8.toNat_ofNat', UInt8.toNat_ofNat']
      omega
  | succ i ih =>
    match b with
    | [] => simp at h
    | [_] => simp at h
    | x :: y :: rest =>
      have hrest : 2 * i + 1 < rest.length := by
        simp only [List.length_cons] at h
        omega
      have hnew : overwrite (x :: y :: rest) (2 * (i + 1)) (le16Bytes w) =
          x :: y :: overwrite rest (2 * i) (le16Bytes w) := by
        have := overwrite_append [x, y] rest (2 * i) (le16Bytes w)
        rwa [List.length_cons, List.length_singleton, Nat.add_comm _ (2 * i)] at this
      have hold : le16At (x :: y :: rest) (2 * (i + 1)) = le16At rest (2 * i) := rfl
      have := ih hrest
      rw [hnew, hold, leWords, leWords, List.sum_cons, List.sum_cons]
      omega

/-- A header verifies with its checksum in its empty checksum field. -/
private theorem calculateIpChecksum_store {header : List UInt8} (hmin : 12 ≤ header.length)
    (hmax : header.length ≤ 65535) (h10 : byteAt header 10 = 0) (h11 : byteAt header 11 = 0) :
    calculateIpChecksum (overwrite header 10 (le16Bytes (calculateIpChecksum header))) = 0 := by
  have hlen : (overwrite header 10 (le16Bytes (calculateIpChecksum header))).length = header.length :=
    length_overwrite (by simp [le16Bytes]; omega)
  have hfield : le16At header (2 * 5) = 0 := by
    rw [le16At, h10, h11]
  have hsum := sum_leWords_overwrite (calculateIpChecksum header) (show 2 * 5 + 1 < header.length by omega)
  have hc : (calculateIpChecksum header).toNat < 65536 := (calculateIpChecksum header).toNat_lt
  have htop := (represents_calculateIpChecksum hmax).add_complement (by omega)
  rw [hfield, Nat.add_zero] at hsum
  rw [Nat.sub_sub_self (by omega), ← hsum, represents_top_iff (by omega)] at htop
  exact (calculateIpChecksum_eq_zero_iff (by omega)).2 htop

/-- A header that verifies before and after a word is changed has a congruent word there. -/
theorem modEq_of_calculateIpChecksum {header : List UInt8} {i : Nat} {word : UInt16} (hmax : header.length ≤ 65535)
    (hi : 2 * i + 1 < header.length) (hold : calculateIpChecksum header = 0)
    (hnew : calculateIpChecksum (overwrite header (2 * i) (le16Bytes word)) = 0) :
    word.toNat ≡ le16At header (2 * i) [MOD 65535] := by
  have hlen : (overwrite header (2 * i) (le16Bytes word)).length = header.length :=
    length_overwrite (by simp [le16Bytes]; omega)
  have hdvd := ((calculateIpChecksum_eq_zero_iff hmax).1 hold).2
  have hdvd' := ((calculateIpChecksum_eq_zero_iff (by omega)).1 hnew).2
  have hsum := sum_leWords_overwrite word hi
  have hmod : (leWords header).sum + word.toNat ≡ (leWords header).sum + le16At header (2 * i) [MOD 65535] := by
    rw [← hsum]
    exact ((Nat.modEq_zero_iff_dvd.2 hdvd').trans (Nat.modEq_zero_iff_dvd.2 hdvd).symm).add_right _
  exact Nat.ModEq.add_left_cancel' _ hmod

/-- A header of even length in whose empty checksum field its checksum is stored verifies; a header that verifies no
longer does so when one of its words is changed to a number that is not congruent to it. -/
theorem calculateIpChecksum_verifies :
    (∀ header : List UInt8, header.length % 2 = 0 → 12 ≤ header.length → header.length ≤ 65534 →
        byteAt header 10 = 0 → byteAt header 11 = 0 →
        calculateIpChecksum (overwrite header 10 (le16Bytes (calculateIpChecksum header))) = 0) ∧
      (∀ (header : List UInt8) (i : Nat) (word : UInt16), header.length ≤ 65535 → 2 * i + 1 < header.length →
        calculateIpChecksum header = 0 → ¬ word.toNat ≡ le16At header (2 * i) [MOD 65535] →
        calculateIpChecksum (overwrite header (2 * i) (le16Bytes word)) ≠ 0) := by
  constructor
  · intro header _ hmin hmax h10 h11
    exact calculateIpChecksum_store hmin (by omega) h10 h11
  · intro header i word hmax hi hold hword hnew
    exact hword (modEq_of_calculateIpChecksum hmax hi hold hnew)

/-- A header with TTL 64 and an empty checksum field. -/
def headerTtl64 : List UInt8 := [0x45, 0, 0, 40, 0x12, 0x34, 0x40, 0, 64, 6, 0, 0, 10, 0, 0, 1, 10, 0, 0, 2]

/-- The same header with its checksum. -/
def headerTtl64Sum : List UInt8 := [0x45, 0, 0, 40, 0x12, 0x34, 0x40, 0, 64, 6, 20, 154, 10, 0, 0, 1, 10, 0, 0, 2]

theorem calculateIpChecksum_verifies_headerTtl64 :
    calculateIpChecksum (overwrite headerTtl64 10 (le16Bytes (calculateIpChecksum headerTtl64))) = 0 ∧
      calculateIpChecksum (overwrite headerTtl64Sum (2 * 4) (le16Bytes 0x063f)) ≠ 0 := by
  constructor
  · exact calculateIpChecksum_verifies.1 headerTtl64 (by decide) (by decide) (by decide) (by decide) (by decide)
  · exact calculateIpChecksum_verifies.2 headerTtl64Sum 4 0x063f (by decide) (by decide) (by decide +kernel) (by decide)

/-! ### A single byte -/

/-- Storing one byte at an even offset stores a word. -/
private theorem overwrite_byte_eq_word {header : List UInt8} {i : Nat} {c : UInt8} (hi : 2 * i + 1 < header.length) :
    overwrite header (2 * i) [c] =
      overwrite header (2 * i) (le16Bytes (UInt16.ofNat (c.toNat + byteAt header (2 * i + 1) * 256))) := by
  have hc := c.toNat_lt
  have hb := byteAt_lt header (2 * i + 1)
  have hword : (UInt16.ofNat (c.toNat + byteAt header (2 * i + 1) * 256)).toNat =
      c.toNat + byteAt header (2 * i + 1) * 256 := by
    rw [UInt16.toNat_ofNat']
    omega
  have hlow : UInt8.ofNat (c.toNat + byteAt header (2 * i + 1) * 256) = c := by
    apply UInt8.toNat.inj
    rw [UInt8.toNat_ofNat']
    omega
  have hhigh : UInt8.ofNat ((c.toNat + byteAt header (2 * i + 1) * 256) / 256) = header[2 * i + 1] := by
    apply UInt8.toNat.inj
    rw [UInt8.toNat_ofNat', ← byteAt_of_lt hi]
    omega
  rw [le16Bytes, hword, hlow, hhigh, overwrite, overwrite]
  simp only [List.append_assoc, List.cons_append, List.nil_append, List.length_cons, List.length_nil, Nat.zero_add]
  rw [List.drop_eq_getElem_cons hi]

/-- A header that verifies still does so after a byte at an even offset is stored only when the byte was there. -/
theorem calculateIpChecksum_overwrite_byte_iff {header : List UInt8} {i : Nat} {c : UInt8}
    (hmax : header.length ≤ 65535) (hi : 2 * i + 1 < header.length) (hold : calculateIpChecksum header = 0) :
    calculateIpChecksum (overwrite header (2 * i) [c]) = 0 ↔ byteAt header (2 * i) = c.toNat := by
  have hc := c.toNat_lt
  have hbyte := byteAt_lt header (2 * i)
  have hnext := byteAt_lt header (2 * i + 1)
  constructor
  · intro hnew
    rw [overwrite_byte_eq_word hi] at hnew
    have hmod := modEq_of_calculateIpChecksum hmax hi hold hnew
    rw [UInt16.toNat_ofNat', Nat.mod_eq_of_lt (by omega), le16At] at hmod
    have hlow := Nat.ModEq.add_right_cancel' _ hmod
    exact (hlow.eq_of_lt_of_lt (by omega) (by omega)).symm
  · intro hsame
    have heq : header[2 * i] = c := by
      apply UInt8.toNat.inj
      rw [← hsame, byteAt_of_lt]
    have hover : overwrite header (2 * i) [c] = header := by
      rw [overwrite, ← heq, List.append_assoc, List.singleton_append, List.length_singleton,
        ← List.drop_eq_getElem_cons, List.take_append_drop]
    rwa [hover]

end GoodbyeDpi
