import GoodbyeDpi.Packet
import GoodbyeDpi.CSem.FilledArray

/-!
# The TTL tracker (`src/tracking/ttl_tracker.c`)

A table of at most 1024 connections with what has been seen of their TTLs.  The readings of the clock are arguments;
a call that reads it twice has two.
-/

namespace GoodbyeDpi

open CSem

/-- `ttl_track_entry_t`. -/
structure TtlEntry where
  srcIp : Addr
  dstIp : Addr
  srcPort : UInt16
  dstPort : UInt16
  protocol : UInt8
  originalTtl : UInt8
  minTtl : UInt8
  maxTtl : UInt8
  ttlDelta : UInt8
  firstSeen : Int
  lastSeen : Int
  packetCount : UInt32
  isEstablished : Bool
deriving DecidableEq, Repr

/-- An entry after `memset`. -/
def TtlEntry.zero : TtlEntry := ⟨Addr.zero, Addr.zero, 0, 0, 0, 0, 0, 0, 0, 0, 0, 0, false⟩

/-- `MAX_TTL_ENTRIES`. -/
def maxTtlEntries : Nat := 1024

/-- `TTL_LEARNING_PACKETS`. -/
def ttlLearningPackets : UInt32 := 10

/-- `TTL_LEARNING_TIMEOUT`. -/
def ttlLearningTimeout : Int := 30

/-- `TTL_ESTABLISHED_TIMEOUT`. -/
def ttlEstablishedTimeout : Int := 300

/-- `IPPROTO_TCP` as the entries store it. -/
def tcpProtocol : UInt8 := 6

/-- `ttl_table` with `ttl_table_size`. -/
abbrev TtlTable := FilledArray TtlEntry maxTtlEntries

/-- `ttl_tracker_init`. -/
def ttlTrackerInit : TtlTable where
  slots := List.replicate maxTtlEntries TtlEntry.zero
  size := 0
  length_slots := List.length_replicate

/-- The comparison of `find_ttl_entry`: one word of the addresses for IPv4, all four for IPv6, in either
direction. -/
def ttlMatches (p : Packet) (e : TtlEntry) : Bool :=
  if p.isIpv6 then
    (e.srcIp == p.srcIp && e.dstIp == p.dstIp && e.srcPort == p.srcPort && e.dstPort == p.dstPort &&
      e.protocol == tcpProtocol) ||
    (e.srcIp == p.dstIp && e.dstIp == p.srcIp && e.srcPort == p.dstPort && e.dstPort == p.srcPort &&
      e.protocol == tcpProtocol)
  else
    (e.srcIp.w0 == p.srcIp.w0 && e.dstIp.w0 == p.dstIp.w0 && e.srcPort == p.srcPort && e.dstPort == p.dstPort &&
      e.protocol == tcpProtocol) ||
    (e.srcIp.w0 == p.dstIp.w0 && e.dstIp.w0 == p.srcIp.w0 && e.srcPort == p.dstPort && e.dstPort == p.srcPort &&
      e.protocol == tcpProtocol)

/-- `find_ttl_entry`: the index of the first matching entry. -/
def findTtlEntry (t : TtlTable) (p : Packet) : Option Nat :=
  t.live.findIdx? fun e => e.protocol != 0 && ttlMatches p e

/-- The statistics of the learning phase, with the packet already counted. -/
def learnTtl (e : TtlEntry) (ttl : UInt8) : TtlEntry :=
  let original := if e.originalTtl = 0 then ttl else e.originalTtl
  { e with
    minTtl := if ttl < e.minTtl ∨ e.minTtl = 0 then ttl else e.minTtl
    maxTtl := if e.maxTtl < ttl ∨ e.maxTtl = 0 then ttl else e.maxTtl
    originalTtl := original
    ttlDelta := original - ttl
    isEstablished := decide (ttlLearningPackets ≤ e.packetCount) }

def TtlEntry.count (e : TtlEntry) (now : Int) : TtlEntry :=
  { e with lastSeen := now, packetCount := e.packetCount + 1 }

/-- The update of an entry that was found. -/
def touchEntry (e : TtlEntry) (ttl : UInt8) (now : Int) : TtlEntry :=
  if e.isEstablished then e.count now else learnTtl (e.count now) ttl

/-- A fresh entry; the words 1 to 3 of the addresses are copied for IPv6 only. -/
def newEntry (p : Packet) (ttl : UInt8) (now : Int) : TtlEntry :=
  { TtlEntry.zero with
    srcIp := if p.isIpv6 then p.srcIp else Addr.ofWord p.srcIp.w0
    dstIp := if p.isIpv6 then p.dstIp else Addr.ofWord p.dstIp.w0
    srcPort := p.srcPort
    dstPort := p.dstPort
    protocol := tcpProtocol
    originalTtl := ttl
    minTtl := ttl
    maxTtl := ttl
    firstSeen := now
    lastSeen := now
    packetCount := 1 }

/-- The search for the oldest entry that is not established, from index `i` on. -/
def oldestLearning : List TtlEntry → Nat → Int → Option Nat → Option Nat
  | [], _, _, found => found
  | e :: es, i, oldestTime, found =>
    if !e.isEstablished && decide (e.lastSeen < oldestTime) then oldestLearning es (i + 1) e.lastSeen (some i)
    else oldestLearning es (i + 1) oldestTime found

/-- `ttl_track_update`; `now` and `now'` are the first and the second reading of the clock. -/
def ttlTrackUpdate (t : TtlTable) (p : Packet) (ttl : UInt8) (now now' : Int) : Int × TtlTable :=
  if p.type ≠ .ipv4Tcp ∧ p.type ≠ .ipv6Tcp then (-1, t)
  else
    match findTtlEntry t p with
    | some i => (0, t.setSlot i (touchEntry (t.live.getD i TtlEntry.zero) ttl now))
    | none =>
      if t.size < maxTtlEntries then (0, t.push (newEntry p ttl now))
      -- the table is full: of the entries that are still learning, the one seen longest ago makes room
      else
        match oldestLearning t.live 0 now none with
        | some i => (0, t.setSlot i (newEntry p ttl now'))
        | none => (-1, t)

/-- The timeout that applies to an entry has passed. -/
def ttlExpired (now : Int) (e : TtlEntry) : Bool :=
  decide (now - e.lastSeen > if e.isEstablished then ttlEstablishedTimeout else ttlLearningTimeout)

/-- The loop of `ttl_tracker_cleanup_expired` at index `i`, with `n` entries to go. -/
def cleanupLoop (now : Int) : Nat → Nat → Nat → TtlTable → Nat × TtlTable
  | 0, _, removed, t => (removed, t)
  | n + 1, i, removed, t =>
    -- after a removal the next entry has moved to the same index
    if ttlExpired now (t.slots.getD i TtlEntry.zero) then cleanupLoop now n i (removed + 1) (t.removeAt i)
    else cleanupLoop now n (i + 1) removed t

/-- `ttl_tracker_cleanup_expired`: the number of entries removed, and the table. -/
def ttlTrackerCleanupExpired (t : TtlTable) (now : Int) : Nat × TtlTable := cleanupLoop now t.size 0 0 t

/-- `ttl_is_ready`. -/
def ttlIsReady (t : TtlTable) (p : Packet) : Bool :=
  (findTtlEntry t p).any fun i => (t.live.getD i TtlEntry.zero).isEstablished

/-- `ttl_get_delta`. -/
def ttlGetDelta (t : TtlTable) (p : Packet) : Int :=
  match findTtlEntry t p with
  | some i =>
    let e := t.live.getD i TtlEntry.zero
    if e.isEstablished then e.ttlDelta.toNat else -1
  | none => -1

/-! ### Runs -/

/-- The calls that change the table. -/
inductive TtlOp where
  | update (p : Packet) (ttl : UInt8) (now now' : Int)
  | cleanupExpired (now : Int)

def ttlStep (t : TtlTable) : TtlOp → TtlTable
  | .update p ttl now now' => (ttlTrackUpdate t p ttl now now').2
  | .cleanupExpired now => (ttlTrackerCleanupExpired t now).2

/-- The table after a sequence of calls. -/
def ttlRun (ops : List TtlOp) : TtlTable := ops.foldl ttlStep ttlTrackerInit

end GoodbyeDpi
