import GoodbyeDpi.PacketParseSafety

/-!
# The parser splits IPv4 packets without loss

An `Ipv4Packet` is an IPv4 header with any options, a TCP header with any options or a UDP header, and a payload.  The
parser accepts the concatenation of the three and gives them back.
-/

namespace GoodbyeDpi

open CSem Traced Access

/-! ### Packets -/

/-- An IPv4 header: version 4 and the number of its 32 bit words in the first byte. -/
structure Ipv4Header where
  bytes : List UInt8
  ihl : Nat
  five_le_ihl : 5 ≤ ihl
  ihl_le : ihl ≤ 15
  length_bytes : bytes.length = ihl * 4
  first_byte : byteAt bytes 0 = 4 * 16 + ihl

/-- A TCP header: the number of its 32 bit words in the high half of byte 12. -/
structure TcpHeader where
  bytes : List UInt8
  doff : Nat
  five_le_doff : 5 ≤ doff
  doff_le : doff ≤ 15
  length_bytes : bytes.length = doff * 4
  offset_byte : byteAt bytes 12 / 16 = doff

structure UdpHeader where
  bytes : List UInt8
  length_bytes : bytes.length = udphdrSize

inductive TransportHeader where
  | tcp (h : TcpHeader)
  | udp (h : UdpHeader)

namespace TransportHeader

def bytes : TransportHeader → List UInt8
  | tcp h => h.bytes
  | udp h => h.bytes

def protocol : TransportHeader → Nat
  | tcp _ => ipprotoTcp
  | udp _ => ipprotoUdp

/-- The type of a packet with a payload. -/
def dataType : TransportHeader → PacketType
  | tcp _ => .ipv4TcpData
  | udp _ => .ipv4UdpData

/-- The type of a packet without a payload. -/
def emptyType : TransportHeader → PacketType
  | tcp _ => .ipv4Tcp
  | udp _ => .unknown

theorem eight_le_length (h : TransportHeader) : 8 ≤ h.bytes.length := by
  cases h with
  | tcp h =>
    have h5 := h.five_le_doff
    have hlen := h.length_bytes
    simp only [bytes]
    omega
  | udp h => exact Nat.le_of_eq h.length_bytes.symm

end TransportHeader

/-- An IPv4 packet whose protocol field is that of its transport header. -/
structure Ipv4Packet where
  ip : Ipv4Header
  transport : TransportHeader
  payload : List UInt8
  protocol_eq : byteAt ip.bytes 9 = transport.protocol

namespace Ipv4Packet

variable (pkt : Ipv4Packet)

def headers : List UInt8 := pkt.ip.bytes ++ pkt.transport.bytes

def bytes : List UInt8 := pkt.headers ++ pkt.payload

theorem twenty_le_length_ip : 20 ≤ pkt.ip.bytes.length := by
  have h5 := pkt.ip.five_le_ihl
  have hlen := pkt.ip.length_bytes
  omega

theorem byteAt_ip {i : Nat} (h : i < pkt.ip.bytes.length) : byteAt pkt.bytes i = byteAt pkt.ip.bytes i := by
  unfold bytes headers
  rw [List.append_assoc, byteAt_append_left h]

theorem byteAt_transport {i : Nat} (h : i < pkt.transport.bytes.length) :
    byteAt pkt.bytes (pkt.ip.bytes.length + i) = byteAt pkt.transport.bytes i := by
  unfold bytes headers
  rw [List.append_assoc, byteAt_append_right, byteAt_append_left h]

theorem ipVersion_eq : ipVersion pkt.bytes = 4 := by
  have h20 := pkt.twenty_le_length_ip
  have hfirst := pkt.ip.first_byte
  have h15 := pkt.ip.ihl_le
  unfold ipVersion
  rw [pkt.byteAt_ip (by omega)]
  omega

theorem ipIhl_eq : ipIhl pkt.bytes = pkt.ip.ihl := by
  have h20 := pkt.twenty_le_length_ip
  have hfirst := pkt.ip.first_byte
  have h15 := pkt.ip.ihl_le
  unfold ipIhl
  rw [pkt.byteAt_ip (by omega)]
  omega

theorem ipProtocol_eq : ipProtocol pkt.bytes = pkt.transport.protocol := by
  have h20 := pkt.twenty_le_length_ip
  unfold ipProtocol
  rw [pkt.byteAt_ip (by omega), pkt.protocol_eq]

/-- The transport header starts where the parser looks for it. -/
theorem ipIhl_mul : ipIhl pkt.bytes * 4 = pkt.ip.bytes.length := by
  rw [ipIhl_eq, pkt.ip.length_bytes]

theorem tcpDoff_eq {h : TcpHeader} (ht : pkt.transport = .tcp h) : tcpDoff pkt.bytes = h.doff := by
  have hlen : 12 < h.bytes.length := by
    have h5 := h.five_le_doff
    have hl := h.length_bytes
    omega
  have hbyte := pkt.byteAt_transport (i := 12) (by rw [ht]; exact hlen)
  unfold tcpDoff
  rw [pkt.ipIhl_mul, hbyte, ht]
  exact h.offset_byte

theorem transportLen_eq : transportLen pkt.bytes = pkt.transport.bytes.length := by
  unfold transportLen
  rw [ipProtocol_eq]
  cases ht : pkt.transport with
  | tcp h =>
    rw [pkt.tcpDoff_eq ht]
    exact h.length_bytes.symm
  | udp h => exact h.length_bytes.symm

theorem headersLen_eq : headersLen pkt.bytes = pkt.headers.length := by
  unfold headersLen headers
  rw [ipIhl_mul, transportLen_eq, List.length_append]

theorem headersFit : HeadersFit pkt.bytes := by
  refine ⟨by rw [ipIhl_eq]; exact pkt.ip.five_le_ihl, ?_, ?_⟩
  · intro htcp
    rw [ipProtocol_eq] at htcp
    cases ht : pkt.transport with
    | tcp h =>
      rw [pkt.tcpDoff_eq ht]
      exact h.five_le_doff
    | udp h =>
      rw [ht] at htcp
      cases htcp
  · rw [headersLen_eq]
    unfold bytes
    rw [List.length_append]
    omega

theorem not_transportTooShort : ¬ TransportTooShort pkt.bytes := by
  have h20 := pkt.twenty_le_length_ip
  have hlen : pkt.bytes.length = pkt.ip.bytes.length + pkt.transport.bytes.length + pkt.payload.length := by
    simp only [bytes, headers, List.length_append]
  unfold TransportTooShort iphdrSize tcphdrSize udphdrSize
  rw [ipProtocol_eq]
  cases ht : pkt.transport with
  | tcp h =>
    have h5 := h.five_le_doff
    have hl : pkt.transport.bytes.length = h.doff * 4 := by rw [ht]; exact h.length_bytes
    rintro (⟨-, hshort⟩ | ⟨hp, -⟩)
    · omega
    · cases hp
  | udp h =>
    have h8 := pkt.transport.eight_le_length
    rintro (⟨hp, -⟩ | ⟨-, hshort⟩)
    · cases hp
    · omega

/-- The parser accepts the packet, whatever the caller's structure holds. -/
theorem packetParse_val (env : Env) (packet : Packet) (hlen : pkt.bytes.length < sizeMod) :
    (packetParse env pkt.bytes pkt.bytes.length packet).val = some (0, parsedIpv4 env pkt.bytes) := by
  have h20 : ¬ pkt.bytes.length < iphdrSize := by
    have h := pkt.twenty_le_length_ip
    simp only [bytes, headers, List.length_append, iphdrSize]
    omega
  have hfit := pkt.headersFit
  apply val_of_obeys_eq inRange_of_ok
  rw [obeys_packetParse (watches_ok _) hlen, if_neg h20, if_pos pkt.ipVersion_eq]
  refine ⟨fun hshort => absurd hshort pkt.not_transportTooShort, fun _ => ?_⟩
  exact ⟨hfit.transportInside, transportSubs_ok hlen hfit.2.2, fun _ => Or.inr hfit.2.2, rfl⟩

/-! ### The parsed packet -/

theorem be16At_ports {i : Nat} (h : i + 1 < pkt.transport.bytes.length) :
    be16At pkt.bytes (ipIhl pkt.bytes * 4 + i) = be16At pkt.transport.bytes i := by
  unfold be16At
  rw [ipIhl_mul, Nat.add_assoc, pkt.byteAt_transport (by omega), pkt.byteAt_transport h]

theorem le32At_ip {i : Nat} (h : i + 3 < pkt.ip.bytes.length) : le32At pkt.bytes i = le32At pkt.ip.bytes i := by
  unfold le32At le16At
  rw [pkt.byteAt_ip (by omega), pkt.byteAt_ip (by omega), pkt.byteAt_ip (by omega), pkt.byteAt_ip (by omega)]

private theorem withTransport_eq (env : Env) (hlen : pkt.bytes.length < sizeMod) :
    withTransport env pkt.bytes (ipv4Base pkt.bytes) =
      withPayload env pkt.bytes pkt.transport.dataType pkt.transport.emptyType pkt.headers.length pkt.payload.length
        (withPorts pkt.bytes (ipv4Base pkt.bytes)) := by
  have hn : wrapSub pkt.bytes.length (headersLen pkt.bytes) = pkt.payload.length := by
    rw [wrapSub_of_le hlen pkt.headersFit.2.2, headersLen_eq]
    unfold bytes
    rw [List.length_append, Nat.add_sub_cancel_left]
  unfold withTransport
  rw [ipProtocol_eq, hn, headersLen_eq]
  cases pkt.transport with
  | tcp h => rfl
  | udp h => rfl

/-- The payload when `malloc` serves it: NULL when there is none. -/
private theorem withPayload_eq {env : Env} (p : Packet)
    (hmalloc : pkt.payload ≠ [] → malloc env.mallocPayload pkt.payload.length = true) (dataType emptyType : PacketType)
    (hp : p.payload = none ∧ p.payloadLen = 0) :
    withPayload env pkt.bytes dataType emptyType pkt.headers.length pkt.payload.length p =
      { p with
        type := if pkt.payload = [] then emptyType else dataType
        payload := if pkt.payload = [] then none else some pkt.payload
        payloadLen := pkt.payload.length } := by
  have htake : (pkt.bytes.drop pkt.headers.length).take pkt.payload.length = pkt.payload := by
    unfold bytes
    rw [List.drop_left, List.take_length]
  unfold withPayload
  by_cases hempty : pkt.payload = []
  · simp only [hempty, List.length_nil, Nat.lt_irrefl, if_false, if_true]
    rw [← hp.1, ← hp.2]
  · have hpos : 0 < pkt.payload.length := List.length_pos_iff.2 hempty
    simp only [hpos, hmalloc hempty, hempty, if_true, if_false, htake]

/-- The fields of the packet structure, from the three parts of the packet. -/
theorem parsedIpv4_eq {env : Env} (hpayload : pkt.payload ≠ [] → malloc env.mallocPayload pkt.payload.length = true)
    (hraw : malloc env.mallocRaw pkt.bytes.length = true)
    (hheaders : malloc env.mallocHeaders pkt.headers.length = true) :
    parsedIpv4 env pkt.bytes =
      { ipv4Base pkt.bytes with
        type := if pkt.payload = [] then pkt.transport.emptyType else pkt.transport.dataType
        srcPort := UInt16.ofNat (be16At pkt.transport.bytes 0)
        dstPort := UInt16.ofNat (be16At pkt.transport.bytes 2)
        payload := if pkt.payload = [] then none else some pkt.payload
        payloadLen := pkt.payload.length
        headers := some pkt.headers
        headersLen := pkt.headers.length
        rawPacket := some pkt.bytes
        rawPacketLen := pkt.bytes.length } := by
  have hlt := lt_of_malloc hraw
  have hlen : pkt.bytes.length < sizeMod := by unfold sizeMod; omega
  have h8 := pkt.transport.eight_le_length
  have htake : pkt.bytes.take pkt.headers.length = pkt.headers := by
    unfold bytes
    exact List.take_left
  have hports : withPorts pkt.bytes (ipv4Base pkt.bytes) =
      { ipv4Base pkt.bytes with
        srcPort := UInt16.ofNat (be16At pkt.transport.bytes 0)
        dstPort := UInt16.ofNat (be16At pkt.transport.bytes 2) } := by
    rw [withPorts, pkt.be16At_ports (by omega), ← Nat.add_zero (ipIhl pkt.bytes * 4), pkt.be16At_ports (by omega)]
    rfl
  unfold parsedIpv4 withHeaders withRaw
  rw [pkt.withTransport_eq env hlen, pkt.withPayload_eq _ hpayload _ _ ⟨rfl, rfl⟩, hports, headersLen_eq, htake]
  simp only [hraw, hheaders, if_true]

/-- The parser returns the parts of the packet it was given: the two headers, the payload, the whole packet, and the
fields of the headers. -/
theorem packetParse_splits (env : Env) (packet : Packet)
    (hpayload : pkt.payload ≠ [] → malloc env.mallocPayload pkt.payload.length = true)
    (hraw : malloc env.mallocRaw pkt.bytes.length = true)
    (hheaders : malloc env.mallocHeaders pkt.headers.length = true) :
    ∃ p, (packetParse env pkt.bytes pkt.bytes.length packet).val = some (0, p) ∧
      p.headers = some (pkt.ip.bytes ++ pkt.transport.bytes) ∧
      p.headersLen = pkt.ip.bytes.length + pkt.transport.bytes.length ∧
      p.payload = (if pkt.payload = [] then none else some pkt.payload) ∧ p.payloadLen = pkt.payload.length ∧
      p.rawPacket = some (pkt.ip.bytes ++ pkt.transport.bytes ++ pkt.payload) ∧ p.rawPacketLen = pkt.bytes.length ∧
      p.ttl.toNat = byteAt pkt.ip.bytes 8 ∧
      p.srcPort.toNat = be16At pkt.transport.bytes 0 ∧ p.dstPort.toNat = be16At pkt.transport.bytes 2 ∧
      p.srcIp = Addr.ofWord p.srcIp.w0 ∧ le32Bytes p.srcIp.w0 = (pkt.ip.bytes.drop 12).take 4 ∧
      p.dstIp = Addr.ofWord p.dstIp.w0 ∧ le32Bytes p.dstIp.w0 = (pkt.ip.bytes.drop 16).take 4 ∧
      p.type = (if pkt.payload = [] then pkt.transport.emptyType else pkt.transport.dataType) := by
  have hlt := lt_of_malloc hraw
  have hlen : pkt.bytes.length < sizeMod := by unfold sizeMod; omega
  have h20 := pkt.twenty_le_length_ip
  have hport : ∀ i, (UInt16.ofNat (be16At pkt.transport.bytes i)).toNat = be16At pkt.transport.bytes i := by
    intro i
    rw [UInt16.toNat_ofNat']
    exact Nat.mod_eq_of_lt (be16At_lt _ i)
  refine ⟨_, pkt.packetParse_val env packet hlen, ?_⟩
  rw [pkt.parsedIpv4_eq hpayload hraw hheaders]
  refine ⟨rfl, List.length_append, rfl, rfl, rfl, rfl, ?_, hport 0, hport 2, rfl, ?_, rfl, ?_, rfl⟩
  · change (UInt8.ofNat (byteAt pkt.bytes 8)).toNat = _
    rw [pkt.byteAt_ip (by omega), UInt8.toNat_ofNat']
    exact Nat.mod_eq_of_lt (byteAt_lt _ 8)
  · change le32Bytes (UInt32.ofNat (le32At pkt.bytes 12)) = _
    rw [pkt.le32At_ip (by omega), le32Bytes_le32At (by omega)]
  · change le32Bytes (UInt32.ofNat (le32At pkt.bytes 16)) = _
    rw [pkt.le32At_ip (by omega), le32Bytes_le32At (by omega)]

end Ipv4Packet

/-- A DNS query of one byte, in a packet with one word of IP options. -/
def udpWithOptions : Ipv4Packet where
  ip := { bytes := 0x46 :: (List.replicate 7 0 ++ [64, 17, 0, 0, 10, 0, 0, 1, 8, 8, 8, 8, 1, 1, 1, 1])
          ihl := 6
          five_le_ihl := by decide
          ihl_le := by decide
          length_bytes := by decide
          first_byte := by decide }
  transport := .udp ⟨[0xc0, 0, 0, 53, 0, 9, 0, 0], by decide⟩
  payload := [7]
  protocol_eq := by decide

theorem packetParse_splits_udpWithOptions :
    ∃ p, (packetParse plainEnv udpWithOptions.bytes udpWithOptions.bytes.length packetInit).val = some (0, p) ∧
      p.payload = some [7] ∧ p.dstPort.toNat = 53 ∧ p.type = .ipv4UdpData := by
  obtain ⟨p, hval, -, -, hpayload, -, -, -, -, -, hport, -, -, -, -, htype⟩ :=
    udpWithOptions.packetParse_splits plainEnv packetInit (by decide) (by decide) (by decide)
  exact ⟨p, hval, hpayload, hport, htype⟩

end GoodbyeDpi
