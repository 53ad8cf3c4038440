import GoodbyeDpi.CSem.Scalars

/-!
# Packets, configuration and environment (`src/include/goodbyedpi.h`)

The records that the parser, the packet processor, the trackers and the configuration code share, and the answers
that the program gets from outside while it handles one packet: `malloc`, the raw sockets and the verdict call.
-/

namespace GoodbyeDpi

open CSem

/-- The buffers the code reads and writes. -/
inductive Buf where
  | data
  | payload
  | headers
  | tlsData
  | hostname
  | rawPacket
deriving DecidableEq, Repr

/-! ### Packets -/

/-- `packet_type_t`. -/
inductive PacketType where
  | unknown
  | ipv4Tcp
  | ipv4TcpData
  | ipv4UdpData
  | ipv6Tcp
  | ipv6TcpData
  | ipv6UdpData
deriving DecidableEq, Repr

/-- `packet_direction_t`. -/
inductive PacketDirection where
  | unknown
  | outbound
  | inbound
deriving DecidableEq, Repr

/-- The four words of an address; an IPv4 address uses the first one only. -/
structure Addr where
  w0 : UInt32
  w1 : UInt32
  w2 : UInt32
  w3 : UInt32
deriving DecidableEq, Repr

def Addr.zero : Addr := ⟨0, 0, 0, 0⟩

/-- The address `memset` to zero with the first word set. -/
def Addr.ofWord (w : UInt32) : Addr := { Addr.zero with w0 := w }

/-- `packet_t`.  A buffer is `none` where the pointer is NULL. -/
structure Packet where
  isIpv6 : Bool
  isOutbound : Bool
  direction : PacketDirection
  type : PacketType
  ttl : UInt8
  srcIp : Addr
  dstIp : Addr
  srcPort : UInt16
  dstPort : UInt16
  payload : Option (List UInt8)
  payloadLen : Nat
  headers : Option (List UInt8)
  headersLen : Nat
  nfqueueId : UInt32
  rawPacket : Option (List UInt8)
  rawPacketLen : Nat
deriving DecidableEq, Repr

/-- `packet_init`: all bytes zero. -/
def packetInit : Packet where
  isIpv6 := false
  isOutbound := false
  direction := .unknown
  type := .unknown
  ttl := 0
  srcIp := Addr.zero
  dstIp := Addr.zero
  srcPort := 0
  dstPort := 0
  payload := none
  payloadLen := 0
  headers := none
  headersLen := 0
  nfqueueId := 0
  rawPacket := none
  rawPacketLen := 0

/-- `packet_is_tcp`. -/
def packetIsTcp (p : Packet) : Bool :=
  p.type == .ipv4Tcp || p.type == .ipv4TcpData || p.type == .ipv6Tcp || p.type == .ipv6TcpData

/-- `packet_is_https`. -/
def packetIsHttps (p : Packet) : Bool := packetIsTcp p && p.dstPort == 443

/-- An IPv4 address word and a port. -/
abbrev Endpoint := UInt32 × UInt16

def Packet.source (p : Packet) : Endpoint := (p.srcIp.w0, p.srcPort)

def Packet.dest (p : Packet) : Endpoint := (p.dstIp.w0, p.dstPort)

/-! ### Configuration -/

/-- The settings of `goodbyedpi_config_t` that the code reads or sets.  A `char` array is the list of its bytes. -/
structure Config where
  httpFragmentSize : UInt32
  httpsFragmentSize : UInt32
  nativeFragmentation : Bool
  reverseFragmentation : Bool
  fragmentHttpPersistent : Bool
  fragmentHttpPersistentNowait : Bool
  hostMixedcase : Bool
  additionalSpace : Bool
  hostRemovespace : Bool
  wrongChecksum : Bool
  wrongSequence : Bool
  autoTtl : Bool
  fakePacket : Bool
  ttlOfFakePacket : UInt8
  ttlMinNhops : UInt8
  autoTtl1 : UInt8
  autoTtl2 : UInt8
  autoTtlMax : UInt8
  hostUppercase : Bool
  hostLowercaseMixed : Bool
  dnsRedirectIpv4 : Bool
  dnsRedirectIpv6 : Bool
  dnsServerV4 : List UInt8
  dnsServerV6 : List UInt8
  dnsPortV4 : UInt16
  dnsPortV6 : UInt16
  daemonMode : Bool
  systemdMode : Bool
  debugMode : Bool
  verboseMode : Bool
  blockQuic : Bool
  maxPayloadSize : UInt32
  pidFile : List UInt8
  logFile : List UInt8
  nfqueueNum : UInt16
deriving DecidableEq, Repr

/-- The bytes of an ASCII text. -/
def ascii (s : String) : List UInt8 := s.toList.map fun c => UInt8.ofNat c.toNat

/-- A `char` array of `n` bytes holding the text `s`, zero-filled. -/
def charArray (n : Nat) (s : String) : List UInt8 := ascii s ++ List.replicate (n - (ascii s).length) 0

/-- `INET6_ADDRSTRLEN`. -/
def inet6Addrstrlen : Nat := 46

/-- `config_init`.  `config.c` includes `config.h` after `goodbyedpi.h`, so the default fragment sizes are those of
`config.h`. -/
def configInit : Config where
  httpFragmentSize := 2
  httpsFragmentSize := 2
  nativeFragmentation := true
  reverseFragmentation := false
  fragmentHttpPersistent := false
  fragmentHttpPersistentNowait := false
  hostMixedcase := false
  additionalSpace := false
  hostRemovespace := false
  wrongChecksum := false
  wrongSequence := false
  autoTtl := false
  fakePacket := false
  ttlOfFakePacket := 64
  ttlMinNhops := 3
  autoTtl1 := 1
  autoTtl2 := 4
  autoTtlMax := 10
  hostUppercase := false
  hostLowercaseMixed := false
  dnsRedirectIpv4 := false
  dnsRedirectIpv6 := false
  dnsServerV4 := charArray inet6Addrstrlen "1.1.1.1"
  dnsServerV6 := charArray inet6Addrstrlen "2606:4700:4700::4700"
  dnsPortV4 := 53
  dnsPortV6 := 53
  daemonMode := false
  systemdMode := false
  debugMode := false
  verboseMode := false
  blockQuic := false
  maxPayloadSize := 1200
  pidFile := charArray 256 "/run/goodbyedpi.pid"
  logFile := charArray 256 "/var/log/goodbyedpi.log"
  nfqueueNum := 0

/-! ### Environment -/

/-- What the calls out of the program answer while one packet is handled: whether `malloc` gives the payload, the
raw packet, the headers and the fake packet their buffers, the raw socket descriptors, the result of `send`, and
the result of `nfq_set_verdict`. -/
structure Env where
  mallocPayload : Bool
  mallocRaw : Bool
  mallocHeaders : Bool
  mallocFake : Bool
  rawSocketFd : Int
  rawSocketIpv6Fd : Int
  sendRet : Int
  verdictRet : Int
deriving DecidableEq, Repr

/-- `malloc(n)` gives a buffer: never for a size above `PTRDIFF_MAX`, otherwise as the environment decides. -/
def malloc (granted : Bool) (n : Nat) : Bool := granted && decide (n < 2 ^ 63)

theorem lt_of_malloc {granted : Bool} {n : Nat} (h : malloc granted n) : n < 2 ^ 63 := by
  unfold malloc at h
  simpa using (Bool.and_eq_true_iff.1 h).2

end GoodbyeDpi
