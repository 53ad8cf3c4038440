import GoodbyeDpi.PacketParse

/-!
# What the packet parser does

The contract of `packetParse` on a buffer and its length, as a formula in the bytes.  A packet that passes the
minimum size checks is read in range exactly when the transport header fields it looks at lie inside the buffer
and the headers, if they are copied, do not reach beyond it.  The payload copy never leaves the buffer: when the
header lengths exceed the buffer, the payload length wraps to a size that `malloc` refuses.
-/

namespace GoodbyeDpi

open CSem Traced Access

/-! ### The fields of the headers -/

def ipVersion (data : List UInt8) : Nat := byteAt data 0 / 16

def ipIhl (data : List UInt8) : Nat := byteAt data 0 % 16

def ipProtocol (data : List UInt8) : Nat := byteAt data 9

def tcpDoff (data : List UInt8) : Nat := byteAt data (ipIhl data * 4 + 12) / 16

/-- The length of the transport header, by protocol. -/
def transportLen (data : List UInt8) : Nat :=
  if ipProtocol data = ipprotoTcp then tcpDoff data * 4
  else if ipProtocol data = ipprotoUdp then udphdrSize
  else 0

def headersLen (data : List UInt8) : Nat := ipIhl data * 4 + transportLen data

theorem headersLen_le (data : List UInt8) : headersLen data ≤ 120 := by
  have hihl : ipIhl data ≤ 15 := by unfold ipIhl; omega
  have hdoff : tcpDoff data ≤ 15 := by
    have := byteAt_lt data (ipIhl data * 4 + 12)
    unfold tcpDoff
    omega
  unfold headersLen transportLen udphdrSize
  split
  · omega
  · split <;> omega

/-- Two subtractions of small numbers wrap as one. -/
theorem wrapSub_wrapSub {a b c : Nat} (hbc : b + c ≤ 120) : wrapSub (wrapSub a b) c = wrapSub a (b + c) := by
  have hs : sizeMod = 18446744073709551616 := rfl
  simp only [wrapSub, hs]
  omega

/-- A payload length that `malloc` serves has not wrapped. -/
theorem add_wrapSub_of_lt {a b : Nat} (ha : a < sizeMod) (hb : b ≤ 120) (h : wrapSub a b < 2 ^ 63) :
    b + wrapSub a b = a := by
  have hs : sizeMod = 18446744073709551616 := rfl
  simp only [wrapSub, hs] at *
  omega

/-! ### The packet that is built -/

/-- The packet after the IP header. -/
def ipv4Base (data : List UInt8) : Packet :=
  { packetInit with
    ttl := UInt8.ofNat (byteAt data 8)
    srcIp := Addr.ofWord (UInt32.ofNat (le32At data 12))
    dstIp := Addr.ofWord (UInt32.ofNat (le32At data 16))
    isOutbound := decide (ntohl (le32At data 12) < ntohl (le32At data 16)) }

def withPayload (env : Env) (data : List UInt8) (dataType emptyType : PacketType) (off n : Nat) (p : Packet) : Packet :=
  if 0 < n then
    if malloc env.mallocPayload n then
      { p with type := dataType, payload := some ((data.drop off).take n), payloadLen := n }
    else { p with type := dataType }
  else { p with type := emptyType }

def withPorts (data : List UInt8) (p : Packet) : Packet :=
  p.setPorts (be16At data (ipIhl data * 4)) (be16At data (ipIhl data * 4 + 2))

/-- The packet after the transport header. -/
def withTransport (env : Env) (data : List UInt8) (p : Packet) : Packet :=
  if ipProtocol data = ipprotoTcp then
    withPayload env data .ipv4TcpData .ipv4Tcp (headersLen data) (wrapSub data.length (headersLen data))
      (withPorts data p)
  else if ipProtocol data = ipprotoUdp then
    withPayload env data .ipv4UdpData p.type (headersLen data) (wrapSub data.length (headersLen data))
      (withPorts data p)
  else p

def withRaw (env : Env) (data : List UInt8) (p : Packet) : Packet :=
  { p with
    rawPacketLen := data.length
    rawPacket := if malloc env.mallocRaw data.length then some data else p.rawPacket }

def withHeaders (env : Env) (data : List UInt8) (p : Packet) : Packet :=
  { p with
    headersLen := headersLen data
    headers := if malloc env.mallocHeaders (headersLen data) then some (data.take (headersLen data)) else p.headers }

/-- The packet that `packet_parse_ipv4` returns with code 0. -/
def parsedIpv4 (env : Env) (data : List UInt8) : Packet :=
  withHeaders env data (withRaw env data (withTransport env data (ipv4Base data)))

/-- The packet that `packet_parse_ipv6` returns. -/
def parsedIpv6 (env : Env) (data : List UInt8) : Packet :=
  withRaw env data { packetInit with isIpv6 := true, type := .ipv6Tcp }

/-! ### The conditions -/

/-- The checks against the minimum sizes of the transport headers fail. -/
def TransportTooShort (data : List UInt8) : Prop :=
  (ipProtocol data = ipprotoTcp ∧ data.length < iphdrSize + tcphdrSize) ∨
  (ipProtocol data = ipprotoUdp ∧ data.length < iphdrSize + udphdrSize)

instance (data : List UInt8) : Decidable (TransportTooShort data) := inferInstanceAs (Decidable (_ ∨ _))

/-- The transport header fields that are read lie inside the buffer. -/
def TransportInside (data : List UInt8) : Prop :=
  (ipProtocol data = ipprotoTcp → ipIhl data * 4 + 12 < data.length) ∧
  (ipProtocol data = ipprotoUdp → ipIhl data * 4 + 3 < data.length)

instance (data : List UInt8) : Decidable (TransportInside data) := inferInstanceAs (Decidable (_ ∧ _))

/-- The subtractions that give the payload length, judged by `P`. -/
def TransportSubs (P : Access Buf → Prop) (data : List UInt8) : Prop :=
  ipProtocol data = ipprotoTcp ∨ ipProtocol data = ipprotoUdp →
    P (.sub data.length (ipIhl data * 4)) ∧ P (.sub (wrapSub data.length (ipIhl data * 4)) (transportLen data))

/-- The headers are copied only from inside the buffer. -/
def HeadersInside (env : Env) (data : List UInt8) : Prop :=
  malloc env.mallocHeaders (headersLen data) → headersLen data = 0 ∨ headersLen data ≤ data.length

/-! ### The contracts -/

section

variable {P : Access Buf → Prop} {env : Env} {data : List UInt8} {p : Packet}

/-- The payload copy stays inside the buffer, whatever the header lengths are. -/
theorem obeys_copyPayload (env : Env) (dataType emptyType : PacketType) (p : Packet) (hw : Watches P .data)
    (hlen : data.length < sizeMod) {off n : Nat} (hoff : off = headersLen data)
    (hn : n = wrapSub data.length (headersLen data)) {Q : Packet → Prop} :
    Obeys P (copyPayload env data dataType emptyType off n p) Q ↔
      Q (withPayload env data dataType emptyType off n p) := by
  unfold copyPayload withPayload
  by_cases h0 : 0 < n
  · by_cases hm : malloc env.mallocPayload n
    · have hlt := lt_of_malloc hm
      have hfit : off + n ≤ data.length := by
        subst hoff hn
        exact Nat.le_of_eq (add_wrapSub_of_lt hlen (headersLen_le data) hlt)
      simp [h0, hm, obeys_slice hw, hfit]
    · simp [h0, hm]
  · simp [h0]

/-- The steps that both protocols share: the length of the payload behind the headers, and its copy. -/
private theorem obeys_payloadBehind (hw : Watches P .data) (hlen : data.length < sizeMod) {t : Nat}
    (ht : transportLen data = t) (dataType emptyType : PacketType) {Q : Packet → Prop} :
    Obeys P (subSize data.length (ipIhl data * 4)) (fun rest => Obeys P (subSize rest t) fun n =>
      Obeys P (copyPayload env data dataType emptyType (ipIhl data * 4 + t) n p) Q) ↔
      P (.sub data.length (ipIhl data * 4)) ∧ P (.sub (wrapSub data.length (ipIhl data * 4)) t) ∧
        Q (withPayload env data dataType emptyType (headersLen data) (wrapSub data.length (headersLen data)) p) := by
  have hhl : headersLen data = ipIhl data * 4 + t := by rw [headersLen, ht]
  have h120 := headersLen_le data
  have hn : wrapSub (wrapSub data.length (ipIhl data * 4)) t = wrapSub data.length (headersLen data) := by
    rw [hhl]
    exact wrapSub_wrapSub (by omega)
  rw [obeys_subSize, obeys_subSize, obeys_copyPayload env dataType emptyType p hw hlen hhl.symm hn, hn, ← hhl]

theorem obeys_parseTcp (hw : Watches P .data) (hlen : data.length < sizeMod) (htcp : ipProtocol data = ipprotoTcp)
    {Q : Option Packet → Prop} :
    Obeys P (parseTcp env data data.length (ipIhl data) p) Q ↔
      (TransportTooShort data → Q none) ∧ (¬ TransportTooShort data →
        TransportInside data ∧ TransportSubs P data ∧ Q (some (withTransport env data p))) := by
  have hne : ¬ ipprotoTcp = ipprotoUdp := by decide
  have htl : transportLen data = tcpDoff data * 4 := by simp [transportLen, htcp]
  have hshort : TransportTooShort data ↔ data.length < iphdrSize + tcphdrSize := by
    simp [TransportTooShort, htcp, hne]
  have hd : byteAt data (ipIhl data * 4 + 12) / 16 = tcpDoff data := rfl
  have hpkt : withTransport env data p =
      withPayload env data .ipv4TcpData .ipv4Tcp (headersLen data) (wrapSub data.length (headersLen data))
        (withPorts data p) := by
    simp [withTransport, htcp]
  unfold parseTcp
  rw [hshort, obeys_ite]
  refine and_congr (by simp) (imp_congr Iff.rfl ?_)
  simp only [obeys_bind, obeys_loadBe16 hw, obeys_loadByte hw, hd, obeys_pure, obeys_payloadBehind hw hlen htl]
  rw [hpkt]
  unfold withPorts TransportInside TransportSubs
  simp only [htcp, htl, true_or, true_imp_iff, hne, false_imp_iff, and_true]
  constructor
  · rintro ⟨-, -, h1, h2, h3, h4⟩
    exact ⟨h1, ⟨h2, h3⟩, h4⟩
  · rintro ⟨h1, ⟨h2, h3⟩, h4⟩
    exact ⟨by omega, by omega, h1, h2, h3, h4⟩

theorem obeys_parseUdp (hw : Watches P .data) (hlen : data.length < sizeMod) (hudp : ipProtocol data = ipprotoUdp)
    {Q : Option Packet → Prop} :
    Obeys P (parseUdp env data data.length (ipIhl data) p) Q ↔
      (TransportTooShort data → Q none) ∧ (¬ TransportTooShort data →
        TransportInside data ∧ TransportSubs P data ∧ Q (some (withTransport env data p))) := by
  have hne : ¬ ipprotoUdp = ipprotoTcp := by decide
  have htl : transportLen data = udphdrSize := by simp [transportLen, hudp, hne]
  have hshort : TransportTooShort data ↔ data.length < iphdrSize + udphdrSize := by
    simp [TransportTooShort, hudp, hne]
  have hpkt : withTransport env data p =
      withPayload env data .ipv4UdpData p.type (headersLen data) (wrapSub data.length (headersLen data))
        (withPorts data p) := by
    simp [withTransport, hudp, hne]
  unfold parseUdp
  rw [hshort, obeys_ite]
  refine and_congr (by simp) (imp_congr Iff.rfl ?_)
  simp only [obeys_bind, obeys_loadBe16 hw, obeys_pure, obeys_payloadBehind hw hlen htl]
  rw [hpkt]
  unfold withPorts TransportInside TransportSubs
  simp only [hudp, htl, or_true, true_imp_iff, hne, false_imp_iff, true_and]
  constructor
  · rintro ⟨-, h1, h2, h3, h4⟩
    exact ⟨h1, ⟨h2, h3⟩, h4⟩
  · rintro ⟨h1, ⟨h2, h3⟩, h4⟩
    exact ⟨by omega, h1, h2, h3, h4⟩

theorem obeys_parseTransport (hw : Watches P .data) (hlen : data.length < sizeMod) {Q : Option Packet → Prop} :
    Obeys P (parseTransport env data data.length (ipIhl data) (ipProtocol data) p) Q ↔
      (TransportTooShort data → Q none) ∧ (¬ TransportTooShort data →
        TransportInside data ∧ TransportSubs P data ∧ Q (some (withTransport env data p))) := by
  unfold parseTransport
  by_cases htcp : ipProtocol data = ipprotoTcp
  · rw [if_pos htcp]
    exact obeys_parseTcp hw hlen htcp
  · rw [if_neg htcp]
    by_cases hudp : ipProtocol data = ipprotoUdp
    · rw [if_pos hudp]
      exact obeys_parseUdp hw hlen hudp
    · simp [hudp, htcp, TransportTooShort, TransportInside, TransportSubs, withTransport]

theorem obeys_storeRaw (hw : Watches P .data) {Q : Packet → Prop} :
    Obeys P (storeRaw env data data.length p) Q ↔ Q (withRaw env data p) := by
  unfold storeRaw withRaw
  by_cases hm : malloc env.mallocRaw data.length <;> simp [hm, obeys_slice hw]

theorem obeys_transportHeaderLen (hw : Watches P .data) (hin : TransportInside data) {Q : Nat → Prop} :
    Obeys P (transportHeaderLen data (ipIhl data) (ipProtocol data)) Q ↔ Q (transportLen data) := by
  unfold transportHeaderLen transportLen
  by_cases htcp : ipProtocol data = ipprotoTcp
  · simp only [htcp, ↓reduceIte, obeys_bind, obeys_loadByte hw, obeys_pure]
    exact and_iff_right (hin.1 htcp)
  · by_cases hudp : ipProtocol data = ipprotoUdp
    · simp only [hudp, show ¬ ipprotoUdp = ipprotoTcp by decide, ↓reduceIte, obeys_pure]
    · simp only [htcp, hudp, ↓reduceIte, obeys_pure]

theorem obeys_storeHeaders (hw : Watches P .data) (hin : TransportInside data) {Q : Packet → Prop} :
    Obeys P (storeHeaders env data (ipIhl data) (ipProtocol data) p) Q ↔
      HeadersInside env data ∧ Q (withHeaders env data p) := by
  unfold storeHeaders HeadersInside withHeaders
  rw [obeys_bind, obeys_transportHeaderLen hw hin]
  change Obeys P (if malloc env.mallocHeaders (headersLen data) = true then _ else _) Q ↔ _
  by_cases hm : malloc env.mallocHeaders (headersLen data)
  · simp only [hm, ↓reduceIte, obeys_bind, obeys_slice hw, obeys_pure, true_imp_iff, Nat.zero_add, List.drop_zero]
    exact Iff.rfl
  · simp only [hm, Bool.false_eq_true, ↓reduceIte, obeys_pure, false_imp_iff, true_and]
    exact Iff.rfl

/-- The contract of `packet_parse_ipv4`. -/
theorem obeys_packetParseIpv4 (hw : Watches P .data) (hlen : data.length < sizeMod) (h20 : iphdrSize ≤ data.length)
    (hver : ipVersion data = 4) {packet : Packet} {Q : Int × Packet → Prop} :
    Obeys P (packetParseIpv4 env data data.length packet) Q ↔
      (TransportTooShort data → Q (-1, ipv4Base data)) ∧ (¬ TransportTooShort data →
        TransportInside data ∧ TransportSubs P data ∧ HeadersInside env data ∧ Q (0, parsedIpv4 env data)) := by
  unfold iphdrSize at h20
  unfold packetParseIpv4
  rw [if_neg (by unfold iphdrSize; omega)]
  simp only [obeys_bind, obeys_loadByte hw, obeys_loadLe32 hw, obeys_ite, obeys_orReturn]
  have hv : ¬ byteAt data 0 / 16 ≠ 4 := fun h => h hver
  simp only [hv, false_imp_iff, not_false_eq_true, true_imp_iff, true_and, show 0 < data.length by omega,
    show 8 < data.length by omega, show 9 < data.length by omega, show 12 + 3 < data.length by omega,
    show 16 + 3 < data.length by omega]
  change Obeys P (parseTransport env data data.length (ipIhl data) (ipProtocol data) (ipv4Base data)) _ ↔ _
  rw [obeys_parseTransport hw hlen]
  refine and_congr Iff.rfl (imp_congr Iff.rfl (and_congr_right fun hin => and_congr_right fun _ => ?_))
  change (Obeys P (storeRaw env data data.length (withTransport env data (ipv4Base data))) fun p =>
    Obeys P (storeHeaders env data (ipIhl data) (ipProtocol data) p) fun p => Obeys P (pure (0, p)) Q) ↔ _
  simp only [obeys_storeRaw hw, obeys_storeHeaders hw hin, obeys_pure]
  exact Iff.rfl

/-- The contract of `packet_parse` on a whole buffer. -/
theorem obeys_packetParse (hw : Watches P .data) (hlen : data.length < sizeMod) {packet : Packet}
    {Q : Int × Packet → Prop} :
    Obeys P (packetParse env data data.length packet) Q ↔
      if data.length < iphdrSize then Q (-1, packet)
      else if ipVersion data = 4 then
        (TransportTooShort data → Q (-1, ipv4Base data)) ∧ (¬ TransportTooShort data →
          TransportInside data ∧ TransportSubs P data ∧ HeadersInside env data ∧ Q (0, parsedIpv4 env data))
      else if ipVersion data = 6 then Q (0, parsedIpv6 env data)
      else Q (-1, packet) := by
  unfold packetParse
  by_cases h20 : data.length < iphdrSize
  · simp only [h20, ↓reduceIte, obeys_pure]
  · have h0 : 0 < data.length := by unfold iphdrSize at h20; omega
    simp only [h20, ↓reduceIte, obeys_bind, obeys_loadByte hw, h0, true_and]
    change Obeys P (if ipVersion data = 4 then _ else if ipVersion data = 6 then _ else _) Q ↔ _
    by_cases h4 : ipVersion data = 4
    · simp only [h4, ↓reduceIte]
      exact obeys_packetParseIpv4 hw hlen (by omega) h4
    · by_cases h6 : ipVersion data = 6
      · have h64 : ¬ (6 : Nat) = 4 := by decide
        simp only [h6, h64, ↓reduceIte, packetParseIpv6, obeys_bind, obeys_storeRaw hw, obeys_pure]
        exact Iff.rfl
      · simp only [h4, h6, ↓reduceIte, obeys_pure]

end

/-! ### The outcome of the parser -/

/-- The return code and the packet of `packet_parse` on a zeroed packet structure. -/
def parseOutcome (env : Env) (data : List UInt8) : Int × Packet :=
  if data.length < iphdrSize then (-1, packetInit)
  else if ipVersion data = 4 then
    if TransportTooShort data then (-1, ipv4Base data) else (0, parsedIpv4 env data)
  else if ipVersion data = 6 then (0, parsedIpv6 env data)
  else (-1, packetInit)

/-- An IPv4 packet that passes the size checks is read in range. -/
def ParseInside (env : Env) (data : List UInt8) : Prop :=
  iphdrSize ≤ data.length → ipVersion data = 4 → ¬ TransportTooShort data →
    TransportInside data ∧ HeadersInside env data

theorem obeys_packetParse_inRange {env : Env} {data : List UInt8} (hlen : data.length < sizeMod)
    {Q : Int × Packet → Prop} :
    Obeys InRange (packetParse env data data.length packetInit) Q ↔
      ParseInside env data ∧ Q (parseOutcome env data) := by
  have hsubs : TransportSubs InRange data := fun _ => ⟨trivial, trivial⟩
  rw [obeys_packetParse (watches_inRange _) hlen]
  unfold ParseInside parseOutcome
  by_cases h20 : data.length < iphdrSize
  · simp only [h20, ↓reduceIte, show ¬ iphdrSize ≤ data.length by omega, false_imp_iff, true_and]
  · by_cases h4 : ipVersion data = 4
    · by_cases hshort : TransportTooShort data
      · simp [h20, h4, hshort]
      · simp only [h20, h4, hshort, ↓reduceIte, show iphdrSize ≤ data.length by omega, true_imp_iff, false_imp_iff,
          true_and, not_false_eq_true, hsubs, and_assoc]
    · by_cases h6 : ipVersion data = 6
      · simp [h20, h6]
      · simp [h20, h4, h6]

end GoodbyeDpi
