import GoodbyeDpi.StringUtils

/-!
# The packet processor (`src/core/packet_processor.c`)

`packetProcess` and what it calls: the HTTP test of `packet_utils.c`, the three edits of the Host header, the
fragmentation stub of `fragmentation.c`, and the fake packets of `fake_packets.c` with the raw socket of
`raw_socket.c`.  The edits treat the payload as a C string, while it is a counted buffer without a NUL at its end.
Every function returns the C return code together with the bytes it leaves behind.
-/

namespace GoodbyeDpi

open CSem Traced

/-! ### The HTTP test -/

/-- The methods that `packet_is_http` compares with, each over its whole length. -/
def httpMethods : List (List UInt8) := [ascii "GET", ascii "POST", ascii "HEAD", ascii "PUT", ascii "DELETE"]

/-- The chain of `strncmp` calls; `||` stops at the first match. -/
def startsWithAny (b : List UInt8) : List (List UInt8) → CRun Buf Bool
  | [] => pure false
  | m :: ms => do
    let found ← strncmpEq .payload b m m.length 0 0
    if found then pure true else startsWithAny b ms

/-- `packet_is_http`. -/
def packetIsHttp (p : Packet) : CRun Buf Bool :=
  match p.payload with
  | none => pure false
  | some b =>
    if packetIsTcp p ∧ p.dstPort = 80 ∧ 3 ≤ p.payloadLen then startsWithAny b httpMethods else pure false

/-! ### The edits of the Host header -/

def hostHeader : List UInt8 := ascii "Host:"

/-- `find_host_header` on a payload that is not NULL. -/
def findHostHeader (b : List UInt8) (payloadLen : Nat) : CRun Buf (Option Nat) :=
  if payloadLen < 6 then pure none else stristr b hostHeader

/-- The byte ends the blanks after `Host:`. -/
def endsBlanks (c : UInt8) : Bool := c == 0 || !(c == 32 || c == 9)

/-- The byte ends the value of the header: NUL, CR or LF. -/
def endsValue (c : UInt8) : Bool := c == 0 || c == 13 || c == 10

/-- `apply_host_mixedcase`. -/
def applyHostMixedcase (b : List UInt8) (payloadLen : Nat) : CRun Buf (Int × List UInt8) := do
  match ← findHostHeader b payloadLen with
  | none => pure (-1, b)
  | some hostPos =>
    let valueStart ← scanFrom .payload endsBlanks b (hostPos + 5)
    let valueEnd ← scanFrom .payload endsValue b valueStart
    if 0 < valueEnd - valueStart then
      let b ← mixCase b valueStart (valueEnd - valueStart)
      pure (0, b)
    else pure (-1, b)

/-- `apply_host_removespace`. -/
def applyHostRemovespace (b : List UInt8) (payloadLen : Nat) : CRun Buf (Int × List UInt8) := do
  match ← findHostHeader b payloadLen with
  | none => pure (-1, b)
  | some hostPos =>
    let afterColon := hostPos + 5
    let c ← load .payload b afterColon
    if c = 32 then
      let n ← strlen .payload b (afterColon + 1)
      let b ← memmove .payload b afterColon (afterColon + 1) (n + 1)
      pure (0, b)
    else pure (-1, b)

/-- `apply_additional_space`. -/
def applyAdditionalSpace (b : List UInt8) (payloadLen : Nat) : CRun Buf (Int × List UInt8) := do
  match ← findHostHeader b payloadLen with
  | none => pure (-1, b)
  | some hostPos =>
    let insertPos := hostPos + 5
    let n ← strlen .payload b insertPos
    let remainingLen := n + 1
    if 0 < remainingLen then
      let b ← memmove .payload b (insertPos + 1) insertPos remainingLen
      let b ← store .payload b insertPos [32]
      pure (0, b)
    else pure (-1, b)

/-- One edit under its switch: a return code of 0 marks the packet as modified. -/
def editPayload (on : Bool) (edit : List UInt8 → Nat → CRun Buf (Int × List UInt8)) (s : Int × Packet) :
    CRun Buf (Int × Packet) :=
  match on, s.2.payload with
  | true, some b => do
    let r ← edit b s.2.payloadLen
    pure (if r.1 = 0 then 1 else s.1, { s.2 with payload := some r.2 })
  | _, _ => pure s

/-! ### Fragmentation and fake packets -/

/-- `evasion_fragment_packet`, which splits nothing. -/
def evasionFragmentPacket (p : Packet) (fragmentSize : UInt32) : Int :=
  if p.rawPacket.isNone ∨ fragmentSize = 0 then -1 else 0

/-- A fake packet: a copy of the headers with `trailer` behind it; `none` where the function returns -1.  The copy
reads `headers_len` bytes even where the headers are NULL. -/
def createFake (env : Env) (p : Packet) (trailer : List UInt8) : CRun Buf (Option (List UInt8)) := do
  if malloc env.mallocFake (p.headersLen + trailer.length) then
    let bytes ← slice .headers (p.headers.getD []) 0 p.headersLen
    pure (some (bytes ++ trailer))
  else pure none

/-- `create_fake_reset_packet`. -/
def createFakeResetPacket (env : Env) (p : Packet) : CRun Buf (Option (List UInt8)) := createFake env p []

/-- The 64 bytes that `create_fake_dns_response` appends. -/
def fakeDns : List UInt8 := 0 :: 0 :: 0x81 :: 0x80 :: List.replicate 60 0

/-- `create_fake_dns_response`. -/
def createFakeDnsResponse (env : Env) (p : Packet) : CRun Buf (Option (List UInt8)) := createFake env p fakeDns

/-- `send_raw_packet`: a partial send counts as success. -/
def sendRawPacket (env : Env) (isIpv6 : Bool) : Int :=
  if (if isIpv6 then env.rawSocketIpv6Fd else env.rawSocketFd) < 0 then -1
  else if env.sendRet < 0 then -1
  else 0

/-- The choice of the fake packet by the type of the original one. -/
def createFakeFor (cfg : Config) (env : Env) (p : Packet) : CRun Buf (Option (List UInt8)) :=
  if p.type = .ipv4Tcp ∨ p.type = .ipv6Tcp then
    if cfg.fakePacket then createFakeResetPacket env p else pure none
  else if p.type = .ipv4UdpData ∨ p.type = .ipv6UdpData then
    if p.srcPort = 53 ∨ p.dstPort = 53 then createFakeDnsResponse env p else pure none
  else pure none

/-- `evasion_inject_fake_packet`. -/
def evasionInjectFakePacket (cfg : Config) (env : Env) (p : Packet) : CRun Buf Int := do
  let fake ← createFakeFor cfg env p
  match fake with
  | none => pure (-1)
  | some bytes => pure (if 0 < bytes.length then sendRawPacket env p.isIpv6 else 0)

/-! ### `packet_process` -/

/-- The test for packets that are too large. -/
def isTooLarge (cfg : Config) (payloadLen : Nat) : Bool :=
  decide (0 < cfg.maxPayloadSize) && decide (cfg.maxPayloadSize.toNat < payloadLen)

/-- Fragmentation under a configured size: a return code of 0 marks the packet as modified. -/
def fragmentStep (size : UInt32) (s : Int × Packet) : Int × Packet :=
  if 0 < size ∧ evasionFragmentPacket s.2 size = 0 then (1, s.2) else s

/-- The HTTP branch. -/
def processHttp (cfg : Config) (p : Packet) : CRun Buf (Int × Packet) := do
  let s ← editPayload cfg.hostMixedcase applyHostMixedcase (0, p)
  let s ← editPayload cfg.hostRemovespace applyHostRemovespace s
  let s ← editPayload cfg.additionalSpace applyAdditionalSpace s
  pure (fragmentStep cfg.httpFragmentSize s)

/-- The HTTPS branch, and packets that are neither HTTP nor HTTPS. -/
def processNotHttp (cfg : Config) (env : Env) (p : Packet) : CRun Buf (Int × Packet) := do
  if packetIsHttps p then
    let s := fragmentStep cfg.httpsFragmentSize (0, p)
    if cfg.fakePacket then
      let result ← evasionInjectFakePacket cfg env p
      pure (if result = 0 then (1, p) else s)
    else pure s
  else pure (0, p)

/-- `packet_process`: 1 if the packet was modified, 0 if not, and the packet. -/
def packetProcess (cfg : Config) (env : Env) (p : Packet) : CRun Buf (Int × Packet) := do
  if isTooLarge cfg p.payloadLen then pure (0, p)
  else
    let http ← packetIsHttp p
    if http then processHttp cfg p else processNotHttp cfg env p

end GoodbyeDpi
