import GoodbyeDpi.Packet

/-!
# Connection tracking (`src/tracking/conntrack.c`)

A table of 4096 slots.  A packet has one slot, computed from its first address words and its ports; adding it
overwrites the slot, and a lookup compares with what is there.  The readings of the clock are arguments of the calls.
-/

namespace GoodbyeDpi

/-- `conntrack_entry_t`. -/
structure ConntrackEntry where
  srcAddr : UInt32
  dstAddr : UInt32
  srcPort : UInt16
  dstPort : UInt16
  ttl : UInt8
  protocol : UInt8
  lastSeen : Int
  valid : Bool
deriving DecidableEq, Repr

/-- An entry after `memset`. -/
def ConntrackEntry.zero : ConntrackEntry := ⟨0, 0, 0, 0, 0, 0, 0, false⟩

/-- `entry->last_seen = now`. -/
def ConntrackEntry.stamp (e : ConntrackEntry) (now : Int) : ConntrackEntry := { e with lastSeen := now }

/-- `conntrack_info_t`. -/
structure ConntrackInfo where
  valid : Bool
  srcAddr : Addr
  dstAddr : Addr
  srcPort : UInt16
  dstPort : UInt16
  ttl : UInt8
  protocol : UInt8
  lastSeen : Int
deriving DecidableEq, Repr

/-- `MAX_CONNECTIONS`. -/
def maxConnections : Nat := 4096

/-- The age in seconds above which `conntrack_cleanup_old` removes an entry. -/
def conntrackTimeout : Int := 300

/-- `conntrack_table` and `conntrack_initialized`. -/
structure Conntrack where
  table : List ConntrackEntry
  initialized : Bool
  length_table : table.length = maxConnections

/-- The table with all bytes zero. -/
def conntrackZeroed (initialized : Bool) : Conntrack where
  table := List.replicate maxConnections ConntrackEntry.zero
  initialized := initialized
  length_table := List.length_replicate

/-- The static variables when the program starts. -/
def conntrackStart : Conntrack := conntrackZeroed false

/-- `conntrack_init`. -/
def conntrackInit : Conntrack := conntrackZeroed true

/-- `conntrack_cleanup`. -/
def conntrackCleanup : Conntrack := conntrackZeroed false

namespace Conntrack

/-- `conntrack_table[i]`. -/
def entry (s : Conntrack) (i : Nat) : ConntrackEntry := s.table.getD i ConntrackEntry.zero

/-- The table with another entry in slot `i`. -/
def setEntry (s : Conntrack) (i : Nat) (e : ConntrackEntry) : Conntrack where
  table := s.table.set i e
  initialized := s.initialized
  length_table := by rw [List.length_set, s.length_table]

end Conntrack

/-- The slot of a pair of endpoints: a sum of 32 bits, reduced. -/
def conntrackHash (srcAddr dstAddr : UInt32) (srcPort dstPort : UInt16) : Nat :=
  (srcAddr + dstAddr + srcPort.toUInt32 + dstPort.toUInt32).toNat % maxConnections

/-- The slot of a packet, as `conntrack_add` and `find_conntrack_entry` both compute it. -/
def conntrackSlot (p : Packet) : Nat := conntrackHash p.srcIp.w0 p.dstIp.w0 p.srcPort p.dstPort

/-- The protocol that `conntrack_add` records: everything that is not TCP counts as UDP. -/
def conntrackProtocol (p : Packet) : UInt8 := if packetIsTcp p then 6 else 17

/-- The entry that `conntrack_add` makes. -/
def conntrackEntry (p : Packet) (now : Int) : ConntrackEntry where
  srcAddr := p.srcIp.w0
  dstAddr := p.dstIp.w0
  srcPort := p.srcPort
  dstPort := p.dstPort
  ttl := p.ttl
  protocol := conntrackProtocol p
  lastSeen := now
  valid := true

/-- `conntrack_add`. -/
def conntrackAdd (s : Conntrack) (p : Packet) (now : Int) : Int × Conntrack :=
  if !s.initialized then (-1, s) else (0, s.setEntry (conntrackSlot p) (conntrackEntry p now))

/-- The comparison of `find_conntrack_entry`. -/
def conntrackMatches (p : Packet) (e : ConntrackEntry) : Bool :=
  e.srcAddr == p.srcIp.w0 && e.dstAddr == p.dstIp.w0 && e.srcPort == p.srcPort && e.dstPort == p.dstPort

/-- `find_conntrack_entry`: the index of the entry. -/
def findConntrackEntry (s : Conntrack) (p : Packet) : Option Nat :=
  if !s.initialized then none
  else if !(s.entry (conntrackSlot p)).valid then none
  else if conntrackMatches p (s.entry (conntrackSlot p)) then some (conntrackSlot p)
  else none

/-- What `conntrack_lookup` writes to the caller's record; the words 1 to 3 of the addresses stay as they were. -/
def ConntrackInfo.fill (info : ConntrackInfo) (e : ConntrackEntry) : ConntrackInfo where
  valid := true
  srcAddr := { info.srcAddr with w0 := e.srcAddr }
  dstAddr := { info.dstAddr with w0 := e.dstAddr }
  srcPort := e.srcPort
  dstPort := e.dstPort
  ttl := e.ttl
  protocol := e.protocol
  lastSeen := e.lastSeen

/-- `conntrack_lookup`: the result, the caller's record and the table. -/
def conntrackLookup (s : Conntrack) (p : Packet) (info : ConntrackInfo) (now : Int) :
    Int × ConntrackInfo × Conntrack :=
  if !s.initialized then (-1, info, s)
  else
    match findConntrackEntry s p with
    | none => (-1, info, s)
    | some i =>
      (0, info.fill ((s.entry i).stamp now), s.setEntry i ((s.entry i).stamp now))

/-- The test of `conntrack_cleanup_old`. -/
def conntrackOld (lastSeen now : Int) : Bool := decide (now - lastSeen > conntrackTimeout)

/-- The loop of `conntrack_cleanup_old` over the entries that are left. -/
def conntrackCleanupLoop (now : Int) : List ConntrackEntry → Int → Int × List ConntrackEntry
  | [], removed => (removed, [])
  | e :: es, removed =>
    if e.valid && conntrackOld e.lastSeen now then
      ((conntrackCleanupLoop now es (removed + 1)).1,
        ConntrackEntry.zero :: (conntrackCleanupLoop now es (removed + 1)).2)
    else ((conntrackCleanupLoop now es removed).1, e :: (conntrackCleanupLoop now es removed).2)

/-- What the loop leaves of one entry. -/
def conntrackSwept (now : Int) (e : ConntrackEntry) : ConntrackEntry :=
  if e.valid && conntrackOld e.lastSeen now then ConntrackEntry.zero else e

theorem conntrackCleanupLoop_table (now : Int) (es : List ConntrackEntry) (removed : Int) :
    (conntrackCleanupLoop now es removed).2 = es.map (conntrackSwept now) := by
  induction es generalizing removed with
  | nil => rfl
  | cons e es ih =>
    rw [conntrackCleanupLoop, List.map_cons, conntrackSwept]
    split
    · rw [ih]
    · rw [ih]

/-- `conntrack_cleanup_old`: the number of entries removed, and the table. -/
def conntrackCleanupOld (s : Conntrack) (now : Int) : Int × Conntrack :=
  if !s.initialized then (0, s)
  else
    ((conntrackCleanupLoop now s.table 0).1,
      { table := (conntrackCleanupLoop now s.table 0).2
        initialized := s.initialized
        length_table := by rw [conntrackCleanupLoop_table, List.length_map, s.length_table] })

/-! ### Runs -/

/-- The calls that work on the table. -/
inductive ConntrackOp where
  | init
  | cleanup
  | add (p : Packet)
  | lookup (p : Packet) (info : ConntrackInfo)
  | cleanupOld

/-- A call with the reading of the clock it gets. -/
structure ConntrackCall where
  op : ConntrackOp
  now : Int

def conntrackStep (s : Conntrack) (c : ConntrackCall) : Conntrack :=
  match c.op with
  | .init => conntrackInit
  | .cleanup => conntrackCleanup
  | .add p => (conntrackAdd s p c.now).2
  | .lookup p info => (conntrackLookup s p info c.now).2.2
  | .cleanupOld => (conntrackCleanupOld s c.now).2

/-- The table after a sequence of calls, from the start of the program. -/
def conntrackRun (calls : List ConntrackCall) : Conntrack := calls.foldl conntrackStep conntrackStart

end GoodbyeDpi
