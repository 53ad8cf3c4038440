import GoodbyeDpi.Packet
import GoodbyeDpi.CSem.CString

/-!
# The DNS tracker (`src/tracking/dns_tracker.c`)

A `uthash` table of the DNS exchanges seen, keyed by a string made of the addresses and ports.  The table is the list
of its entries in the order in which they were added, which is the order of `HASH_ITER`; several entries may have one
key, and then which of them `HASH_FIND_STR` gives is decided by the order in the bucket, so the search is an argument
of every call.  The clock is one too.
-/

namespace GoodbyeDpi

open CSem

/-- `dns_conntrack_info_t`. -/
structure DnsInfo where
  valid : Bool
  clientIp : Addr
  dnsServerIp : Addr
  clientPort : UInt16
  dnsServerPort : UInt16
  timestamp : Int
deriving DecidableEq, Repr

/-- `dns_conntrack_entry_t`; the key is the string in the array. -/
structure DnsEntry where
  key : List UInt8
  info : DnsInfo
  lastSeen : Int
deriving DecidableEq, Repr

/-- `dns_table`. -/
abbrev DnsTable := List DnsEntry

/-- `DNS_TRACKING_TIMEOUT`. -/
def dnsTrackingTimeout : Int := 60

/-- The port of DNS servers, as the code compares with it. -/
def dnsPort : UInt16 := 53

/-- `HASH_FIND_STR`: the index of some entry with the key, or nothing when there is none. -/
structure HashFind where
  find : DnsTable → List UInt8 → Option Nat
  found : ∀ {t k i}, find t k = some i → ∃ e, t[i]? = some e ∧ e.key = k
  complete : ∀ {t k}, find t k = none → ∀ e ∈ t, e.key ≠ k

/-- `snprintf(key, sizeof(key), "%08x:%08x:%04x:%04x", ...)`. -/
def dnsKey (srcIp dstIp : UInt32) (srcPort dstPort : UInt16) : List UInt8 :=
  snprintf 128 (hexPadded 8 srcIp.toNat ++ ascii ":" ++ hexPadded 8 dstIp.toNat ++ ascii ":" ++
    hexPadded 4 srcPort.toNat ++ ascii ":" ++ hexPadded 4 dstPort.toNat)

def dnsForwardKey (p : Packet) : List UInt8 := dnsKey p.srcIp.w0 p.dstIp.w0 p.srcPort p.dstPort

def dnsReverseKey (p : Packet) : List UInt8 := dnsKey p.dstIp.w0 p.srcIp.w0 p.dstPort p.srcPort

/-- The check at the start of `dns_tracker_add` and `dns_tracker_lookup`. -/
def isDnsPacket (p : Packet) : Bool := p.type == .ipv4UdpData && (p.srcPort == dnsPort || p.dstPort == dnsPort)

/-- The tracking information of a packet: from port 53 it is a response of the server, otherwise a query. -/
def dnsInfo (p : Packet) (now : Int) : DnsInfo :=
  if p.srcPort = dnsPort then
    { valid := true
      clientIp := p.dstIp
      dnsServerIp := p.srcIp
      clientPort := p.dstPort
      dnsServerPort := p.srcPort
      timestamp := now }
  else
    { valid := true
      clientIp := p.srcIp
      dnsServerIp := p.dstIp
      clientPort := p.srcPort
      dnsServerPort := p.dstPort
      timestamp := now }

/-- The entry that `dns_tracker_add` makes. -/
def dnsEntry (p : Packet) (now : Int) : DnsEntry where
  key := dnsForwardKey p
  info := dnsInfo p now
  lastSeen := now

/-- `dns_tracker_init`. -/
def dnsTrackerInit : DnsTable := []

/-- `dns_tracker_add`; `granted` is whether `malloc` gives the entry. -/
def dnsTrackerAdd (t : DnsTable) (granted : Bool) (p : Packet) (now : Int) : Int × DnsTable :=
  if !isDnsPacket p then (-1, t)
  else if !granted then (-1, t)
  else (0, t ++ [dnsEntry p now])

/-- The search of `dns_tracker_lookup`: the key of the packet, then the key of the other direction. -/
def findDnsEntry (hash : HashFind) (t : DnsTable) (p : Packet) : Option Nat :=
  match hash.find t (dnsForwardKey p) with
  | some i => some i
  | none => hash.find t (dnsReverseKey p)

/-- `dns_tracker_lookup`: the information it copies out when it returns 0, nothing when it returns -1. -/
def dnsTrackerLookup (hash : HashFind) (t : DnsTable) (p : Packet) (now : Int) : Option DnsInfo × DnsTable :=
  if !isDnsPacket p then (none, t)
  else
    match findDnsEntry hash t p with
    | some i =>
      match t[i]? with
      | some e => (some e.info, t.set i { e with lastSeen := now })
      | none => (none, t)
    | none => (none, t)

/-- `dns_tracker_update`. -/
def dnsTrackerUpdate (hash : HashFind) (t : DnsTable) (granted : Bool) (p : Packet) (now : Int) : Int × DnsTable :=
  match dnsTrackerLookup hash t p now with
  | (some _, t') => (0, t')
  | (none, t') => dnsTrackerAdd t' granted p now

/-- The timeout of an entry has passed. -/
def dnsExpired (lastSeen now : Int) : Bool := decide (now - lastSeen > dnsTrackingTimeout)

/-- The loop of `dns_tracker_cleanup_expired` over the entries that are left. -/
def dnsCleanupLoop (now : Int) : DnsTable → Nat → Nat × DnsTable
  | [], removed => (removed, [])
  | e :: es, removed =>
    if dnsExpired e.lastSeen now then dnsCleanupLoop now es (removed + 1)
    else ((dnsCleanupLoop now es removed).1, e :: (dnsCleanupLoop now es removed).2)

/-- `dns_tracker_cleanup_expired`: the number of entries removed, and the table. -/
def dnsTrackerCleanupExpired (t : DnsTable) (now : Int) : Nat × DnsTable := dnsCleanupLoop now t 0

/-- `dns_tracker_get_stats`: the total and the active entries. -/
def dnsTrackerGetStats (t : DnsTable) (now : Int) : Nat × Nat :=
  (t.length, t.foldl (fun active e => if now - e.lastSeen ≤ dnsTrackingTimeout then active + 1 else active) 0)

/-! ### Runs -/

/-- The calls that work on the table. -/
inductive DnsOp where
  | add (p : Packet)
  | lookup (p : Packet)
  | update (p : Packet)
  | cleanupExpired

/-- A call with the reading of the clock it gets and the search of the hash table at that time. -/
structure DnsCall where
  op : DnsOp
  now : Int
  hash : HashFind

/-- One call, in which `malloc` succeeds. -/
def dnsStep (t : DnsTable) (c : DnsCall) : DnsTable :=
  match c.op with
  | .add p => (dnsTrackerAdd t true p c.now).2
  | .lookup p => (dnsTrackerLookup c.hash t p c.now).2
  | .update p => (dnsTrackerUpdate c.hash t true p c.now).2
  | .cleanupExpired => (dnsTrackerCleanupExpired t c.now).2

/-- The table after a sequence of calls. -/
def dnsRun (calls : List DnsCall) : DnsTable := calls.foldl dnsStep dnsTrackerInit

end GoodbyeDpi
