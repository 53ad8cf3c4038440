import GoodbyeDpi.Sni

/-!
# Which records the SNI extractor reads within bounds

A cursor is valid when it points at the last `len` bytes of the record.  The header checks and the extension walk
keep the cursor valid and every access good.  Skipping a vector does so exactly when the vector fits into the
bytes that are left, which the code does not check: its length is subtracted first, and the comparison that
follows sees the wrapped counter.
-/

namespace GoodbyeDpi

open CSem Traced Access

/-- The cursor points at the last `len` bytes of the record. -/
def Cursor.Valid (tls : List UInt8) (c : Cursor) : Prop := c.pos + c.len = tls.length

/-- The record header passes the checks of `evasion_extract_sni`. -/
def SniRecordAccepted (tls : List UInt8) : Prop :=
  6 ≤ tls.length ∧ byteAt tls 0 = 0x16 ∧ (le16At tls 2 = 0x0301 ∨ le16At tls 2 = 0x0303)

/-- The handshake header passes the checks of `evasion_extract_sni`. -/
def SniHandshakeAccepted (tls : List UInt8) : Prop :=
  13 ≤ tls.length ∧ byteAt tls 6 = 0x01 ∧
    byteAt tls 7 * 65536 + byteAt tls 8 * 256 + byteAt tls 9 ≤ tls.length - 12

instance (tls : List UInt8) : Decidable (SniRecordAccepted tls) := inferInstanceAs (Decidable (_ ∧ _))

instance (tls : List UInt8) : Decidable (SniHandshakeAccepted tls) := inferInstanceAs (Decidable (_ ∧ _))

/-- The offset just after the vector at `pos` with a length prefix of `width` bytes. -/
def sniVectorEnd (tls : List UInt8) (width pos : Nat) : Nat :=
  pos + (width + if width = 1 then byteAt tls pos else be16At tls pos)

/-- The session id, the cipher suites and the compression methods each end inside the record, as far as the
extractor gets to them. -/
def SniVectorsFit (tls : List UInt8) : Prop :=
  SniRecordAccepted tls → SniHandshakeAccepted tls →
    sniVectorEnd tls 1 12 ≤ tls.length ∧
    (sniVectorEnd tls 1 12 + 2 ≤ tls.length →
      sniVectorEnd tls 2 (sniVectorEnd tls 1 12) ≤ tls.length ∧
      (sniVectorEnd tls 2 (sniVectorEnd tls 1 12) + 1 ≤ tls.length →
        sniVectorEnd tls 1 (sniVectorEnd tls 2 (sniVectorEnd tls 1 12)) ≤ tls.length))

section

variable {tls : List UInt8} {Q : Option Cursor → Prop}

theorem obeys_sniRecordHeader (hlen : tls.length < sizeMod) :
    Obeys Ok (sniRecordHeader tls) Q ↔
      (SniRecordAccepted tls → Q (some ⟨6, tls.length - 6⟩)) ∧ (¬ SniRecordAccepted tls → Q none) := by
  unfold sniRecordHeader SniRecordAccepted
  simp only [obeys_ite, obeys_pure, obeys_bind, obeys_loadByte (watches_ok _), obeys_loadLe16 (watches_ok _),
    obeys_subSize, ok_sub]
  simp only [sizeOf_tlsRecordHeader, offsetOf_tlsRecordHeader_version, show offsetOf tlsRecordHeader 0 = 0 from rfl]
  by_cases h6 : tls.length < 6
  · simp [h6, show ¬ 6 ≤ tls.length by omega]
  · have hsub := wrapSub_of_le hlen (show 6 ≤ tls.length by omega)
    simp only [h6, hsub, show 6 ≤ tls.length by omega, show 0 < tls.length by omega,
      show 2 + 1 < tls.length by omega]
    by_cases ht : byteAt tls 0 = 0x16 <;>
      by_cases hv : le16At tls 2 = 0x0301 <;> by_cases hv' : le16At tls 2 = 0x0303 <;> simp_all

theorem obeys_sniHandshakeHeader (hlen : tls.length < sizeMod) (h6 : 6 ≤ tls.length) :
    Obeys Ok (sniHandshakeHeader tls ⟨6, tls.length - 6⟩) Q ↔
      (SniHandshakeAccepted tls → Q (some ⟨12, tls.length - 12⟩)) ∧ (¬ SniHandshakeAccepted tls → Q none) := by
  unfold sniHandshakeHeader SniHandshakeAccepted
  simp only [obeys_ite, obeys_pure, obeys_bind, obeys_loadByte (watches_ok _), obeys_subSize, ok_sub]
  simp only [sizeOf_tlsHandshakeHeader, show offsetOf tlsHandshakeHeader 0 = 0 from rfl,
    show offsetOf tlsHandshakeHeader 1 = 1 from rfl, show offsetOf tlsHandshakeHeader 2 = 2 from rfl,
    show offsetOf tlsHandshakeHeader 3 = 3 from rfl]
  by_cases h12 : tls.length - 6 < 6
  · simp [h12, show ¬ 13 ≤ tls.length by omega]
  · have hsub := wrapSub_of_le (show tls.length - 6 < sizeMod by omega) (show 6 ≤ tls.length - 6 by omega)
    have e : tls.length - 6 - 6 = tls.length - 12 := by omega
    have hb : 6 + 3 < tls.length := by omega
    simp only [h12, hsub, e, show 6 ≤ tls.length - 6 by omega, hb, show 6 < tls.length by omega,
      show 6 + 1 < tls.length by omega, show 6 + 2 < tls.length by omega]
    by_cases ht : byteAt tls 6 = 0x01
    · by_cases hh : tls.length - 12 < byteAt tls 7 * 65536 + byteAt tls 8 * 256 + byteAt tls 9
      · simp [ht, hh, Nat.not_le.2 hh]
      · by_cases h1 : tls.length - 12 < 1
        · simp [ht, h1, show ¬ 13 ≤ tls.length by omega]
        · simp [ht, hh, h1, show 13 ≤ tls.length by omega]
          omega
    · simp [ht]

/-- Skipping a vector is safe exactly when the vector fits into the bytes that are left. -/
theorem obeys_sniSkipVector {width next : Nat} {c : Cursor} (hwidth : width = 1 ∨ width = 2)
    (hlen : tls.length < sizeMod) (hc : c.Valid tls) (hroom : width ≤ c.len) :
    Obeys Ok (sniSkipVector width next tls c) Q ↔
      sniVectorEnd tls width c.pos ≤ tls.length ∧
      Q (if tls.length - sniVectorEnd tls width c.pos < next then none
        else some ⟨sniVectorEnd tls width c.pos, tls.length - sniVectorEnd tls width c.pos⟩) := by
  unfold Cursor.Valid at hc
  have key : ∀ n, sniVectorEnd tls width c.pos = c.pos + (width + n) →
      ((Obeys Ok (subSize c.len (width + n) : CRun Buf Nat) fun len =>
        Obeys Ok (if len < next then pure none else pure (some ⟨c.pos + (width + n), len⟩) : CRun Buf _) Q) ↔
      sniVectorEnd tls width c.pos ≤ tls.length ∧
      Q (if tls.length - sniVectorEnd tls width c.pos < next then none
        else some ⟨sniVectorEnd tls width c.pos, tls.length - sniVectorEnd tls width c.pos⟩)) := by
    intro n hn
    rw [hn, obeys_subSize, ok_sub]
    by_cases hfit : width + n ≤ c.len
    · have hsub := wrapSub_of_le (show c.len < sizeMod by omega) hfit
      have e : tls.length - (c.pos + (width + n)) = c.len - (width + n) := by omega
      rw [hsub, e]
      simp only [hfit, show c.pos + (width + n) ≤ tls.length by omega, true_and]
      split <;> simp
    · simp only [hfit, show ¬ c.pos + (width + n) ≤ tls.length by omega, false_and]
  unfold sniSkipVector
  rcases hwidth with rfl | rfl
  · simp only [↓reduceIte, obeys_bind, obeys_loadByte (watches_ok _)]
    rw [key _ (by simp [sniVectorEnd])]
    exact and_iff_right (by omega)
  · simp only [show ¬ 2 = 1 by omega, ↓reduceIte, obeys_bind, obeys_loadBe16 (watches_ok _)]
    rw [key _ (by simp [sniVectorEnd])]
    exact and_iff_right (by omega)

theorem obeys_sniExtensionBlock {c : Cursor} (hlen : tls.length < sizeMod) (hc : c.Valid tls) (hroom : 2 ≤ c.len) :
    Obeys Ok (sniExtensionBlock tls c) Q ↔
      Q (if c.len - 2 < be16At tls c.pos then none else some ⟨c.pos + 2, be16At tls c.pos⟩) := by
  unfold Cursor.Valid at hc
  unfold sniExtensionBlock
  simp only [obeys_bind, obeys_loadBe16 (watches_ok _), obeys_subSize, ok_sub,
    wrapSub_of_le (show c.len < sizeMod by omega) hroom, hroom, show c.pos + 1 < tls.length by omega, true_and]
  split <;> simp

end

section

variable {tls hostname : List UInt8}

/-- `parse_sni_extension` on an extension inside the record makes good accesses only. -/
theorem all_ok_parseSniExtension {ext extLen : Nat} (hlen : tls.length < sizeMod) (hext : ext + extLen ≤ tls.length) :
    (parseSniExtension tls ext extLen hostname).All Ok := by
  rw [all_iff_obeys]
  unfold parseSniExtension
  by_cases h5 : extLen < 5 ∨ hostname.length = 0
  · simp only [h5, ↓reduceIte, obeys_pure]
  · have hs2 := wrapSub_of_le (show extLen < sizeMod by omega) (show 2 ≤ extLen by omega)
    have hs3 := wrapSub_of_le (show extLen - 2 < sizeMod by omega) (show 3 ≤ extLen - 2 by omega)
    have hname : be16At tls (ext + 3) < 65536 := be16At_lt _ _
    simp only [obeys_ite, h5, not_false_eq_true, true_and, true_imp_iff, obeys_bind,
      obeys_pure, obeys_subSize, ok_sub, hs2, obeys_loadByte (watches_ok _), obeys_loadBe16 (watches_ok _), hs3,
      obeys_slice (watches_ok _), obeys_store (watches_ok _), imp_true_iff, and_true]
    refine ⟨by omega, fun _ => ⟨by omega, fun _ => ⟨by omega, by omega, fun hfit => ?_⟩⟩⟩
    have htake : ((tls.drop (ext + 5)).take (be16At tls (ext + 3))).length = be16At tls (ext + 3) := by
      simp
      omega
    rw [htake, length_overwrite (by omega)]
    simp only [List.length_singleton]
    omega

/-- The walk over an extension block inside the record makes good accesses only. -/
theorem all_ok_sniWalk {stop : Nat} (hlen : tls.length < sizeMod) (hstop : stop ≤ tls.length) (fuel pos : Nat) :
    (sniWalk tls stop hostname fuel pos).All Ok := by
  rw [all_iff_obeys]
  induction fuel generalizing pos with
  | zero =>
    unfold sniWalk
    simp
  | succ fuel ih =>
    unfold sniWalk
    simp only [obeys_ite, obeys_pure, obeys_bind, obeys_loadBe16 (watches_ok _), imp_true_iff, true_and]
    intro hroom
    refine ⟨by omega, by omega, fun hfit => ⟨fun _ => ?_, fun _ => ih _⟩⟩
    exact all_iff_obeys.1 (all_ok_parseSniExtension hlen (by omega))

end

section

variable {tls hostname : List UInt8}

/-- The parser goes on behind a vector when `next` bytes are left there, and fails otherwise. -/
private theorem obeys_skip {width next e : Nat} (hwidth : width = 1 ∨ width = 2) (hlen : tls.length < sizeMod)
    (hroom : e + width ≤ tls.length) {β : Type} {r : β} {k : Cursor → CRun Buf β} :
    (Obeys Ok ((sniSkipVector width next tls ⟨e, tls.length - e⟩).orReturn r k) fun _ => True) ↔
      sniVectorEnd tls width e ≤ tls.length ∧
      (sniVectorEnd tls width e + next ≤ tls.length →
        Obeys Ok (k ⟨sniVectorEnd tls width e, tls.length - sniVectorEnd tls width e⟩) fun _ => True) := by
  have hc : (⟨e, tls.length - e⟩ : Cursor).Valid tls := by
    simp only [Cursor.Valid]
    omega
  rw [obeys_orReturn, obeys_sniSkipVector hwidth hlen hc (by show width ≤ tls.length - e; omega)]
  refine and_congr_right fun (hfit : sniVectorEnd tls width e ≤ tls.length) => ?_
  by_cases hnext : tls.length - sniVectorEnd tls width e < next
  · simp [hnext, show ¬ sniVectorEnd tls width e + next ≤ tls.length by omega]
  · simp [hnext, show sniVectorEnd tls width e + next ≤ tls.length by omega]

/-- From the extension block on nothing can go wrong. -/
private theorem obeys_sniExtensions {e : Nat} (hlen : tls.length < sizeMod) (hroom : e + 2 ≤ tls.length)
    {r : Int × List UInt8} :
    Obeys Ok ((sniExtensionBlock tls ⟨e, tls.length - e⟩).orReturn r fun c =>
      (sniWalk tls (c.pos + c.len) hostname c.len c.pos).orReturn r pure) fun _ => True := by
  have hc : (⟨e, tls.length - e⟩ : Cursor).Valid tls := by
    simp only [Cursor.Valid]
    omega
  rw [obeys_orReturn, obeys_sniExtensionBlock hlen hc (by show 2 ≤ tls.length - e; omega)]
  by_cases hblock : tls.length - e - 2 < be16At tls e
  · simp [hblock]
  · simp only [hblock, ↓reduceIte, Option.elim_some]
    rw [obeys_orReturn]
    apply (all_iff_obeys.1 (all_ok_sniWalk hlen (by omega) _ _)).mono
    rintro (_ | out) -
    · trivial
    · exact obeys_pure.2 trivial

end

/-- Every access of `evasion_extract_sni` is inside its buffer and no subtraction from `data_len` wraps exactly
when the three vectors before the extensions fit. -/
theorem evasionExtractSni_all_ok_iff {tls hostname : List UInt8} (hlen : tls.length < sizeMod)
    (hhost : 0 < hostname.length) : (evasionExtractSni tls hostname).All Ok ↔ SniVectorsFit tls := by
  rw [all_iff_obeys]
  unfold evasionExtractSni SniVectorsFit
  by_cases h5 : tls.length < 5
  · have : ¬ SniRecordAccepted tls := fun h => by have := h.1; omega
    simp [h5, this]
  rw [if_neg (by omega), obeys_orReturn, obeys_sniRecordHeader hlen]
  by_cases hrec : SniRecordAccepted tls
  swap
  · simp [hrec]
  have h6 := hrec.1
  simp only [hrec, true_imp_iff, not_true_eq_false, false_imp_iff, and_true, Option.elim_some]
  rw [obeys_orReturn, obeys_sniHandshakeHeader hlen h6]
  by_cases hhs : SniHandshakeAccepted tls
  swap
  · simp [hhs]
  have h13 := hhs.1
  simp only [hhs, true_imp_iff, not_true_eq_false, false_imp_iff, and_true, Option.elim_some]
  unfold sniSkipSessionId sniSkipCipherSuites sniSkipCompressionMethods
  -- the session id is at offset 12, and each vector starts where the one before it ends
  rw [obeys_skip (Or.inl rfl) hlen (by omega)]
  refine and_congr_right fun _ => imp_congr_right fun hroom1 => ?_
  rw [obeys_skip (Or.inr rfl) hlen hroom1]
  refine and_congr_right fun _ => imp_congr_right fun hroom2 => ?_
  rw [obeys_skip (Or.inl rfl) hlen hroom2]
  exact and_iff_left_of_imp fun _ hroom3 => obeys_sniExtensions hlen hroom3

/-- A record of 13 bytes whose session id claims 255: the counter wraps to `2 ^ 64 - 255` and the cipher suites
are read at offset 268. -/
theorem evasionExtractSni_not_all_ok :
    ¬ (evasionExtractSni [0x16, 0, 0x01, 0x03, 0, 0, 0x01, 0, 0, 0, 0, 0, 255] (List.replicate 64 0)).All Ok := by
  unfold Traced.All
  decide

theorem evasionExtractSni_all_ok_iff_short :
    (evasionExtractSni [0x16, 0, 0x01, 0x03, 0, 0, 0x01, 0, 0, 0, 0, 0, 0] (List.replicate 64 0)).All Ok ↔
      SniVectorsFit [0x16, 0, 0x01, 0x03, 0, 0, 0x01, 0, 0, 0, 0, 0, 0] :=
  evasionExtractSni_all_ok_iff (by decide) (by decide)

end GoodbyeDpi
