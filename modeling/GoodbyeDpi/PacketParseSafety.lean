import GoodbyeDpi.PacketParseSpec

/-!
# Which buffers the packet parser handles within bounds

The parser's contract: every byte it reads lies in the buffer and the payload length does not wrap, an accepted
IPv4 packet has headers that fit, and a rejected packet owns no buffer.  It is met exactly when an IPv4 packet that
passes the minimum size checks also has header lengths that fit.
-/

namespace GoodbyeDpi

open CSem Traced Access

/-- The header lengths are at least the minimum and their sum is at most the length of the buffer. -/
def HeadersFit (data : List UInt8) : Prop :=
  5 ≤ ipIhl data ∧ (ipProtocol data = ipprotoTcp → 5 ≤ tcpDoff data) ∧ headersLen data ≤ data.length

instance (data : List UInt8) : Decidable (HeadersFit data) := inferInstanceAs (Decidable (_ ∧ _))

/-- The run of `packet_parse` on a buffer, its length and the zeroed packet of the caller. -/
def parseRun (env : Env) (data : List UInt8) : CRun Buf (Int × Packet) :=
  packetParse env data data.length packetInit

/-- What the callers of `packet_parse` rely on. -/
structure ParseContract (env : Env) (data : List UInt8) : Prop where
  inside : (parseRun env data).All Ok
  accepts : ∀ p, (parseRun env data).val = some (0, p) → ipVersion data = 4 → HeadersFit data
  rejects : ∀ p, (parseRun env data).val = some (-1, p) →
    p.payload = none ∧ p.headers = none ∧ p.rawPacket = none

/-- An IPv4 packet that passes the size checks of the parser. -/
def PassesSizeChecks (data : List UInt8) : Prop :=
  iphdrSize ≤ data.length ∧ ipVersion data = 4 ∧ ¬ TransportTooShort data

instance (data : List UInt8) : Decidable (PassesSizeChecks data) := inferInstanceAs (Decidable (_ ∧ _))

section

variable {env : Env} {data : List UInt8}

/-- The payload length of an accepted packet does not wrap when the headers fit. -/
theorem transportSubs_ok (hlen : data.length < sizeMod) (h : headersLen data ≤ data.length) :
    TransportSubs Ok data := by
  intro _
  unfold headersLen at h
  rw [ok_sub, ok_sub, wrapSub_of_le hlen (by omega)]
  omega

/-- The transport header fields lie inside the buffer when the headers fit. -/
theorem HeadersFit.transportInside (h : HeadersFit data) : TransportInside data := by
  obtain ⟨-, hdoff, hle⟩ := h
  unfold headersLen transportLen at hle
  constructor
  · intro htcp
    have := hdoff htcp
    rw [if_pos htcp] at hle
    omega
  · intro hudp
    rw [if_neg (by rw [hudp]; decide), if_pos hudp] at hle
    unfold udphdrSize at hle
    omega

/-- A packet that passes the size checks and is read without a bad access is accepted. -/
theorem parseRun_of_passes (hlen : data.length < sizeMod) (hp : PassesSizeChecks data)
    (h : (parseRun env data).All Ok) : (parseRun env data).val = some (0, parsedIpv4 env data) := by
  obtain ⟨h20, hver, hshort⟩ := hp
  rw [all_iff_obeys, parseRun, obeys_packetParse (watches_ok _) hlen, if_neg (by omega), if_pos hver] at h
  obtain ⟨hin, hsubs, hhead, -⟩ := h.2 hshort
  apply val_of_obeys_eq inRange_of_ok
  rw [parseRun, obeys_packetParse (watches_ok _) hlen, if_neg (by omega), if_pos hver]
  exact ⟨fun hs => absurd hs hshort, fun _ => ⟨hin, hsubs, hhead, rfl⟩⟩

/-- The contract as one postcondition. -/
theorem parseRun_obeys (env : Env) (hlen : data.length < sizeMod) (hfit : PassesSizeChecks data → HeadersFit data) :
    Obeys Ok (parseRun env data) fun r =>
      (r.1 = 0 → ipVersion data = 4 → HeadersFit data) ∧
      (r.1 = -1 → r.2.payload = none ∧ r.2.headers = none ∧ r.2.rawPacket = none) := by
  rw [parseRun, obeys_packetParse (watches_ok _) hlen]
  by_cases h20 : data.length < iphdrSize
  · rw [if_pos h20]
    exact ⟨fun h => absurd h (by simp), fun _ => ⟨rfl, rfl, rfl⟩⟩
  rw [if_neg h20]
  by_cases h4 : ipVersion data = 4
  · rw [if_pos h4]
    refine ⟨fun _ => ⟨fun h => absurd h (by simp), fun _ => ⟨rfl, rfl, rfl⟩⟩, fun hshort => ?_⟩
    have hf := hfit ⟨by omega, h4, hshort⟩
    exact ⟨hf.transportInside, transportSubs_ok hlen hf.2.2, fun _ => Or.inr hf.2.2, fun _ _ => hf,
      fun h => absurd h (by simp)⟩
  · rw [if_neg h4]
    split
    · exact ⟨fun _ h => absurd h h4, fun h => absurd h (by simp)⟩
    · exact ⟨fun h => absurd h (by simp), fun _ => ⟨rfl, rfl, rfl⟩⟩

end

/-- The parser meets its contract on exactly the buffers where an IPv4 packet that passes the size checks has
header lengths that fit. -/
theorem parseContract_iff (env : Env) (data : List UInt8) (hlen : data.length < sizeMod) :
    ParseContract env data ↔ (PassesSizeChecks data → HeadersFit data) := by
  constructor
  · intro hc hp
    exact hc.accepts _ (parseRun_of_passes hlen hp hc.inside) hp.2.1
  · intro hfit
    have h := parseRun_obeys env hlen hfit
    exact ⟨h.1, fun p hp => (h.2 _ hp).1 rfl, fun p hp => (h.2 _ hp).2 rfl⟩

/-- A 40 byte packet with `ihl = 15` and protocol TCP: the TCP header is read at offset 60. -/
def longIhlPacket : List UInt8 := 0x4f :: (List.replicate 8 0 ++ 6 :: List.replicate 30 0)

def plainEnv : Env := ⟨true, true, true, true, -1, -1, 0, 0⟩

theorem longIhlPacket_breaks_contract : ¬ ParseContract plainEnv longIhlPacket := by
  intro h
  have hbad : ¬ (parseRun plainEnv longIhlPacket).All Ok := by
    unfold Traced.All
    decide
  exact hbad h.inside

/-- A 40 byte packet with minimal headers and no payload. -/
theorem parseContract_iff_minimal :
    ParseContract plainEnv (0x45 :: (List.replicate 8 0 ++ 6 :: (List.replicate 22 0 ++ 0x50 :: List.replicate 7 0))) ↔
      (PassesSizeChecks (0x45 :: (List.replicate 8 0 ++ 6 :: (List.replicate 22 0 ++ 0x50 :: List.replicate 7 0))) →
        HeadersFit (0x45 :: (List.replicate 8 0 ++ 6 :: (List.replicate 22 0 ++ 0x50 :: List.replicate 7 0)))) :=
  parseContract_iff _ _ (by decide)

end GoodbyeDpi
