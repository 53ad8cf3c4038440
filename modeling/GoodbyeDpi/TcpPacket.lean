import GoodbyeDpi.PacketParseSafety

/-!
# Well-formed IPv4 TCP packets

A `TcpPacket` is a buffer that holds an IPv4 packet with a TCP segment whose header lengths fit.  The parser accepts
every one of them, and the fields of the packet it returns are read off the bytes.
-/

namespace GoodbyeDpi

open CSem Traced Access

/-- An IPv4 TCP packet with header lengths that are consistent with its length. -/
structure TcpPacket where
  bytes : List UInt8
  version : ipVersion bytes = 4
  protocol : ipProtocol bytes = ipprotoTcp
  fits : HeadersFit bytes
  size : bytes.length < sizeMod

namespace TcpPacket

variable (pkt : TcpPacket)

def headers : List UInt8 := pkt.bytes.take (headersLen pkt.bytes)

def payload : List UInt8 := pkt.bytes.drop (headersLen pkt.bytes)

def dstPort : UInt16 := UInt16.ofNat (be16At pkt.bytes (ipIhl pkt.bytes * 4 + 2))

theorem headers_append_payload : pkt.headers ++ pkt.payload = pkt.bytes := List.take_append_drop _ _

theorem length_headers : pkt.headers.length = headersLen pkt.bytes := by
  rw [headers, List.length_take]
  exact Nat.min_eq_left pkt.fits.2.2

theorem length_payload : pkt.payload.length = pkt.bytes.length - headersLen pkt.bytes := List.length_drop

theorem forty_le_headersLen : 40 ≤ headersLen pkt.bytes := by
  have hihl := pkt.fits.1
  have hdoff := pkt.fits.2.1 pkt.protocol
  have htl : transportLen pkt.bytes = tcpDoff pkt.bytes * 4 := if_pos pkt.protocol
  unfold headersLen
  omega

theorem passesSizeChecks : PassesSizeChecks pkt.bytes := by
  have h40 := pkt.forty_le_headersLen
  have hle := pkt.fits.2.2
  refine ⟨by unfold iphdrSize; omega, pkt.version, ?_⟩
  unfold TransportTooShort iphdrSize tcphdrSize
  rw [pkt.protocol]
  rintro (⟨-, h⟩ | ⟨h, -⟩)
  · omega
  · cases h

/-- The parser accepts the packet. -/
theorem parseRun_val (env : Env) : (parseRun env pkt.bytes).val = some (0, parsedIpv4 env pkt.bytes) := by
  apply parseRun_of_passes pkt.size pkt.passesSizeChecks
  exact (parseRun_obeys env pkt.size fun _ => pkt.fits).1

/-! ### The parsed packet -/

/-- The packet structure that the parser returns. -/
def parsed (env : Env) : Packet := parsedIpv4 env pkt.bytes

/-- The payload gets its buffer. -/
def hasPayload (env : Env) : Bool := decide (0 < pkt.payload.length) && malloc env.mallocPayload pkt.payload.length

section

variable (env : Env)

private theorem withTransport_eq (p : Packet) :
    withTransport env pkt.bytes p = withPayload env pkt.bytes .ipv4TcpData .ipv4Tcp (headersLen pkt.bytes)
      pkt.payload.length (withPorts pkt.bytes p) := by
  unfold withTransport
  rw [if_pos pkt.protocol, wrapSub_of_le pkt.size pkt.fits.2.2, length_payload]

/-- The fields of the packet structure, from the bytes. -/
theorem parsed_eq :
    pkt.parsed env =
      { ipv4Base pkt.bytes with
        type := if 0 < pkt.payload.length then .ipv4TcpData else .ipv4Tcp
        srcPort := UInt16.ofNat (be16At pkt.bytes (ipIhl pkt.bytes * 4))
        dstPort := pkt.dstPort
        payload := if pkt.hasPayload env then some pkt.payload else none
        payloadLen := if pkt.hasPayload env then pkt.payload.length else 0
        headers := if malloc env.mallocHeaders pkt.headers.length then some pkt.headers else none
        headersLen := pkt.headers.length
        rawPacket := if malloc env.mallocRaw pkt.bytes.length then some pkt.bytes else none
        rawPacketLen := pkt.bytes.length } := by
  have htake : (pkt.bytes.drop (headersLen pkt.bytes)).take pkt.payload.length = pkt.payload := List.take_length
  unfold parsed parsedIpv4 hasPayload withHeaders withRaw
  rw [withTransport_eq, length_headers]
  unfold withPayload
  by_cases h0 : 0 < pkt.payload.length
  · by_cases hm : malloc env.mallocPayload pkt.payload.length
    · simp only [h0, hm, ↓reduceIte, decide_true, Bool.and_self, htake]
      rfl
    · simp only [h0, hm, ↓reduceIte, Bool.false_eq_true, Bool.and_false]
      rfl
  · simp only [h0, ↓reduceIte, decide_false, Bool.false_and, Bool.false_eq_true]
    rfl

theorem parsed_payload : (pkt.parsed env).payload = if pkt.hasPayload env then some pkt.payload else none := by
  rw [parsed_eq]

theorem parsed_payloadLen : (pkt.parsed env).payloadLen = if pkt.hasPayload env then pkt.payload.length else 0 := by
  rw [parsed_eq]

theorem parsed_dstPort : (pkt.parsed env).dstPort = pkt.dstPort := by
  rw [parsed_eq]

theorem packetIsTcp_parsed : packetIsTcp (pkt.parsed env) = true := by
  rw [parsed_eq]
  unfold packetIsTcp
  by_cases h0 : 0 < pkt.payload.length <;> simp [h0]

end

end TcpPacket

/-- Minimal IP and TCP headers of a segment to the port `hi * 256 + lo`. -/
def minimalHeaders (hi lo : UInt8) : List UInt8 :=
  0x45 :: (List.replicate 8 0 ++ 6 :: (List.replicate 12 0 ++ hi :: lo :: (List.replicate 8 0 ++
    0x50 :: List.replicate 7 0)))

/-- A plain HTTP request, as a browser sends it. -/
def httpRequest : TcpPacket where
  bytes := minimalHeaders 0 80 ++ ascii "GET / HTTP/1.1\r\nHost: A\r\n\r\n"
  version := by decide
  protocol := by decide
  fits := by decide
  size := by decide

end GoodbyeDpi
