import GoodbyeDpi.Packet

/-!
# The packet parser (`src/capture/packet_utils.c`)

`packetParse` reads the bytes handed over by the queue.  `len` is the length the caller passes; the buffer itself
is the list `data`.  The header lengths are the nibbles `ihl` and `doff`, so every offset below is attacker
controlled, and the only checks compare `len` with the sizes of the header structs.
-/

namespace GoodbyeDpi

open CSem Traced

/-- `sizeof(struct iphdr)`. -/
def iphdrSize : Nat := 20

/-- `sizeof(struct tcphdr)`. -/
def tcphdrSize : Nat := 20

/-- `sizeof(struct udphdr)`. -/
def udphdrSize : Nat := 8

def ipprotoTcp : Nat := 6

def ipprotoUdp : Nat := 17

/-- `ntohl` on a little-endian host. -/
def ntohl (w : Nat) : Nat :=
  w % 256 * 16777216 + w / 256 % 256 * 65536 + w / 65536 % 256 * 256 + w / 16777216 % 256

def Packet.setPorts (p : Packet) (source dest : Nat) : Packet :=
  { p with srcPort := UInt16.ofNat source, dstPort := UInt16.ofNat dest }

/-- The copy of a payload of `n` bytes at `off`: the type is set first, the bytes and the length only if `malloc`
succeeds. -/
def copyPayload (env : Env) (data : List UInt8) (dataType emptyType : PacketType) (off n : Nat) (p : Packet) :
    CRun Buf Packet := do
  if 0 < n then
    if malloc env.mallocPayload n then
      let bytes ← slice .data data off n
      pure { p with type := dataType, payload := some bytes, payloadLen := n }
    else pure { p with type := dataType }
  else pure { p with type := emptyType }

/-- The TCP branch of `packet_parse_ipv4`; `none` where it returns -1. -/
def parseTcp (env : Env) (data : List UInt8) (len ihl : Nat) (p : Packet) : CRun Buf (Option Packet) := do
  if len < iphdrSize + tcphdrSize then pure none else
    let source ← loadBe16 .data data (ihl * 4)
    let dest ← loadBe16 .data data (ihl * 4 + 2)
    let offByte ← loadByte .data data (ihl * 4 + 12)
    -- neither header length has been compared with `len`
    let rest ← subSize len (ihl * 4)
    let payloadLen ← subSize rest (offByte / 16 * 4)
    let p ← copyPayload env data .ipv4TcpData .ipv4Tcp (ihl * 4 + offByte / 16 * 4) payloadLen (p.setPorts source dest)
    pure (some p)

/-- The UDP branch of `packet_parse_ipv4`; without a payload the type is left as it is. -/
def parseUdp (env : Env) (data : List UInt8) (len ihl : Nat) (p : Packet) : CRun Buf (Option Packet) := do
  if len < iphdrSize + udphdrSize then pure none else
    let source ← loadBe16 .data data (ihl * 4)
    let dest ← loadBe16 .data data (ihl * 4 + 2)
    let rest ← subSize len (ihl * 4)
    let payloadLen ← subSize rest udphdrSize
    let p ← copyPayload env data .ipv4UdpData p.type (ihl * 4 + udphdrSize) payloadLen (p.setPorts source dest)
    pure (some p)

def parseTransport (env : Env) (data : List UInt8) (len ihl protocol : Nat) (p : Packet) :
    CRun Buf (Option Packet) :=
  if protocol = ipprotoTcp then parseTcp env data len ihl p
  else if protocol = ipprotoUdp then parseUdp env data len ihl p
  else pure (some p)

/-- The copy kept for reinjection. -/
def storeRaw (env : Env) (data : List UInt8) (len : Nat) (p : Packet) : CRun Buf Packet := do
  if malloc env.mallocRaw len then
    let bytes ← slice .data data 0 len
    pure { p with rawPacketLen := len, rawPacket := some bytes }
  else pure { p with rawPacketLen := len }

/-- The length of the transport header; the TCP header is read again. -/
def transportHeaderLen (data : List UInt8) (ihl protocol : Nat) : CRun Buf Nat := do
  if protocol = ipprotoTcp then
    let offByte ← loadByte .data data (ihl * 4 + 12)
    pure (offByte / 16 * 4)
  else if protocol = ipprotoUdp then pure udphdrSize
  else pure 0

/-- The copy of the headers. -/
def storeHeaders (env : Env) (data : List UInt8) (ihl protocol : Nat) (p : Packet) : CRun Buf Packet := do
  let n ← transportHeaderLen data ihl protocol
  let headersLen := ihl * 4 + n
  if malloc env.mallocHeaders headersLen then
    let bytes ← slice .data data 0 headersLen
    pure { p with headersLen := headersLen, headers := some bytes }
  else pure { p with headersLen := headersLen }

/-- `packet_parse_ipv4`: the return code and the packet. -/
def packetParseIpv4 (env : Env) (data : List UInt8) (len : Nat) (packet : Packet) : CRun Buf (Int × Packet) := do
  if len < iphdrSize then pure (-1, packet) else
    let b0 ← loadByte .data data 0
    if b0 / 16 ≠ 4 then pure (-1, packet) else
      -- from here on the structure of the caller has been overwritten by `packet_init`
      let ihl := b0 % 16
      let ttl ← loadByte .data data 8
      let saddr ← loadLe32 .data data 12
      let daddr ← loadLe32 .data data 16
      let protocol ← loadByte .data data 9
      let p := { packetInit with
        ttl := UInt8.ofNat ttl
        srcIp := Addr.ofWord (UInt32.ofNat saddr)
        dstIp := Addr.ofWord (UInt32.ofNat daddr)
        isOutbound := decide (ntohl saddr < ntohl daddr) }
      (parseTransport env data len ihl protocol p).orReturn (-1, p) fun p => do
        let p ← storeRaw env data len p
        let p ← storeHeaders env data ihl protocol p
        pure (0, p)

/-- `packet_parse_ipv6`, a placeholder in the source as well: it keeps the bytes and reads no field. -/
def packetParseIpv6 (env : Env) (data : List UInt8) (len : Nat) : CRun Buf (Int × Packet) := do
  let p ← storeRaw env data len { packetInit with isIpv6 := true, type := .ipv6Tcp }
  pure (0, p)

/-- `packet_parse` for a buffer, on the packet structure `packet` of the caller. -/
def packetParse (env : Env) (data : List UInt8) (len : Nat) (packet : Packet) : CRun Buf (Int × Packet) := do
  if len < iphdrSize then pure (-1, packet) else
    let b0 ← loadByte .data data 0
    if b0 / 16 = 4 then packetParseIpv4 env data len packet
    else if b0 / 16 = 6 then packetParseIpv6 env data len
    else pure (-1, packet)

/-- `packet_parse` for a pointer, whose first test is for NULL. -/
def packetParsePointer (env : Env) (data : Option (List UInt8)) (len : Nat) (packet : Packet) :
    CRun Buf (Int × Packet) :=
  match data with
  | none => pure (-1, packet)
  | some data => packetParse env data len packet

end GoodbyeDpi
