import GoodbyeDpi.ConntrackHistory

/-!
# Connections and slots

A slot holds one entry, so an add drops whatever another connection has left there, and an entry is compared by four
fields only, so a lookup may find the entry of another connection that agrees on them.
-/

namespace GoodbyeDpi

open History

variable {p q : Packet} {cs : List ConntrackCall}

/-! ### Adds -/

/-- The two packets are of one connection, in either direction. -/
def SameConnection (p q : Packet) : Prop :=
  (p.source = q.source ∧ p.dest = q.dest) ∨ (p.source = q.dest ∧ p.dest = q.source)

instance (p q : Packet) : Decidable (SameConnection p q) := inferInstanceAs (Decidable (_ ∨ _))

theorem SameTuple.sameConnection (h : SameTuple p q) : SameConnection p q := by
  obtain ⟨hsrc, hdst, hsport, hdport⟩ := h
  left
  simp [Packet.source, Packet.dest, hsrc, hdst, hsport, hdport]

/-- `conntrack_init` and then an add for every packet, each with its reading of the clock. -/
def addCalls (start : Int) (adds : List (Packet × Int)) : List ConntrackCall :=
  ⟨.init, start⟩ :: adds.map fun a => ⟨.add a.1, a.2⟩

private theorem latest_addCalls {adds pre post : List (Packet × Int)} {a : Packet × Int} {i : Nat}
    (h : Latest (fun a => conntrackSlot a.1 = i) adds pre a post) (older : List ConntrackCall) (start : Int) :
    Latest ConntrackCall.IsReset (older ++ addCalls start adds) older ⟨.init, start⟩
        (adds.map fun a => ⟨.add a.1, a.2⟩) ∧
      Latest (ConntrackCall.AddsTo i) (adds.map fun a => (⟨.add a.1, a.2⟩ : ConntrackCall))
        (pre.map fun a => ⟨.add a.1, a.2⟩) ⟨.add a.1, a.2⟩ (post.map fun a => ⟨.add a.1, a.2⟩) := by
  refine ⟨⟨rfl, Or.inl rfl, ?_⟩, ⟨by simp [h.split], ⟨a.1, rfl, h.kind⟩, ?_⟩⟩
  · intro d hd
    obtain ⟨b, -, rfl⟩ := List.mem_map.1 hd
    simp [ConntrackCall.IsReset]
  · intro d hd
    obtain ⟨b, hb, rfl⟩ := List.mem_map.1 hd
    rintro ⟨q, hq, hslot⟩
    cases hq
    exact h.later b hb hslot

/-- After adds alone a lookup finds its packet exactly when the latest add to the slot was of its tuple. -/
theorem lookup_addCalls {adds pre post : List (Packet × Int)} {a : Packet × Int}
    (h : Latest (fun a => conntrackSlot a.1 = conntrackSlot p) adds pre a post) (older : List ConntrackCall)
    (start : Int) (info : ConntrackInfo) (now : Int) :
    (conntrackLookup (conntrackRun (older ++ addCalls start adds)) p info now).1 = 0 ↔ SameTuple a.1 p := by
  obtain ⟨hreset, hadd⟩ := latest_addCalls h older start
  rw [conntrackLookup_eq_zero_iff, findConntrackEntry_conntrackRun_iff]
  constructor
  · rintro ⟨q, older', start', recent', pre', c', post', hreset', -, hadd', hq, htuple, -⟩
    -- the latest reset and the latest add are unique
    obtain ⟨-, -, rfl⟩ := hreset.unique hreset'
    obtain ⟨-, rfl, -⟩ := hadd.unique hadd'
    cases hq
    exact htuple
  · intro htuple
    refine ⟨a.1, older, ⟨.init, start⟩, _, _, _, _, hreset, rfl, hadd, rfl, htuple, ?_⟩
    intro mid d rest hpost hop
    have hd : d ∈ post.map fun a => (⟨.add a.1, a.2⟩ : ConntrackCall) := by simp [hpost]
    obtain ⟨b, -, rfl⟩ := List.mem_map.1 hd
    cases hop

theorem conntrackLookup_zero_or (s : Conntrack) (p : Packet) (info : ConntrackInfo) (now : Int) :
    (conntrackLookup s p info now).1 = 0 ∨ (conntrackLookup s p info now).1 = -1 := by
  cases hfind : findConntrackEntry s p with
  | none => exact Or.inr (by rw [conntrackLookup_of_find_none hfind])
  | some i => exact Or.inl (by rw [conntrackLookup_of_find hfind])

/-- A packet that was added is found as long as the latest add to its slot had its tuple, and is lost when the latest
add to its slot was of another connection. -/
theorem conntrack_add_keeps (older : List ConntrackCall) (start : Int) (adds : List (Packet × Int)) (p : Packet)
    (hp : p ∈ adds.map Prod.fst) (info : ConntrackInfo) (now : Int) :
    ∃ pre q t post, Latest (fun a => conntrackSlot a.1 = conntrackSlot p) adds pre (q, t) post ∧
      (SameTuple q p → (conntrackLookup (conntrackRun (older ++ addCalls start adds)) p info now).1 = 0) ∧
      (¬ SameConnection q p → (conntrackLookup (conntrackRun (older ++ addCalls start adds)) p info now).1 = -1) := by
  obtain ⟨a, ha, hap⟩ := List.mem_map.1 hp
  rcases latest_or_none (fun a => conntrackSlot a.1 = conntrackSlot p) adds with hnone | ⟨pre, ⟨q, t⟩, post, hlast⟩
  · exact absurd (by rw [hap]) (hnone a ha)
  · refine ⟨pre, q, t, post, hlast, ?_, ?_⟩
    · intro htuple
      exact (lookup_addCalls hlast older start info now).2 htuple
    · intro hother
      have hfail : (conntrackLookup (conntrackRun (older ++ addCalls start adds)) p info now).1 ≠ 0 := by
        rw [Ne, lookup_addCalls hlast]
        exact fun htuple => hother htuple.sameConnection
      exact (conntrackLookup_zero_or _ p info now).resolve_left hfail

/-- An IPv4 TCP packet without payload. -/
def tcpFrom (src : UInt32) (srcPort : UInt16) (dst : UInt32) (dstPort : UInt16) : Packet :=
  { packetInit with
    type := .ipv4Tcp
    ttl := 64
    srcIp := Addr.ofWord src
    dstIp := Addr.ofWord dst
    srcPort := srcPort
    dstPort := dstPort }

/-- The record of a caller before a lookup. -/
def blankInfo : ConntrackInfo := ⟨false, Addr.zero, Addr.zero, 0, 0, 0, 0, 0⟩

/-- Two connections to one server for which the client address and the client port have the same sum. -/
def collidingAdds : List (Packet × Int) := [(tcpFrom 10 40001 20 443, 0), (tcpFrom 11 40000 20 443, 0)]

theorem conntrack_add_keeps_colliding :
    tcpFrom 10 40001 20 443 ∈ collidingAdds.map Prod.fst ∧
    ∃ pre q t post, Latest (fun a => conntrackSlot a.1 = conntrackSlot (tcpFrom 10 40001 20 443)) collidingAdds pre
        (q, t) post ∧
      (SameTuple q (tcpFrom 10 40001 20 443) →
        (conntrackLookup (conntrackRun ([] ++ addCalls 0 collidingAdds)) (tcpFrom 10 40001 20 443) blankInfo 0).1 = 0) ∧
      (¬ SameConnection q (tcpFrom 10 40001 20 443) →
        (conntrackLookup (conntrackRun ([] ++ addCalls 0 collidingAdds)) (tcpFrom 10 40001 20 443) blankInfo 0).1 =
          -1) :=
  ⟨by decide, conntrack_add_keeps [] 0 collidingAdds (tcpFrom 10 40001 20 443) (by decide) blankInfo 0⟩

/-- The second connection takes the slot of the first. -/
theorem conntrack_add_loses_colliding :
    (conntrackLookup (conntrackRun (addCalls 0 collidingAdds)) (tcpFrom 10 40001 20 443) blankInfo 0).1 = -1 := by
  decide +kernel

/-! ### Hits -/

/-- The two packets are of one flow: the IP version, the whole addresses (one word for IPv4), the ports and the
transport protocol. -/
structure SameFlow (p q : Packet) : Prop where
  version : p.isIpv6 = q.isIpv6
  srcAddr : if p.isIpv6 then p.srcIp = q.srcIp else p.srcIp.w0 = q.srcIp.w0
  dstAddr : if p.isIpv6 then p.dstIp = q.dstIp else p.dstIp.w0 = q.dstIp.w0
  srcPort : p.srcPort = q.srcPort
  dstPort : p.dstPort = q.dstPort
  protocol : packetIsTcp p = packetIsTcp q

/-- The latest packet added to slot `i` since the table was initialised is `q`. -/
def RecordedIn (cs : List ConntrackCall) (i : Nat) (q : Packet) : Prop :=
  ∃ older start recent pre c post, Latest ConntrackCall.IsReset cs older start recent ∧ start.op = .init ∧
    Latest (ConntrackCall.AddsTo i) recent pre c post ∧ c.op = .add q

/-- Every lookup of the run that succeeds reports an entry that was recorded from a packet of its own flow. -/
def HitsOwnFlow (cs : List ConntrackCall) : Prop :=
  ∀ pre c post p info, cs = pre ++ c :: post → c.op = .lookup p info →
    (conntrackLookup (conntrackRun pre) p info c.now).1 = 0 →
    ∃ q, RecordedIn pre (conntrackSlot p) q ∧
      (conntrackLookup (conntrackRun pre) p info c.now).2.1 = info.fill (conntrackEntry q c.now) ∧ SameFlow q p

theorem RecordedIn.unique {i : Nat} {q' : Packet} (h : RecordedIn cs i q) (h' : RecordedIn cs i q') : q = q' := by
  obtain ⟨older, start, recent, pre, c, post, hreset, -, hadd, hq⟩ := h
  obtain ⟨older', start', recent', pre', c', post', hreset', -, hadd', hq'⟩ := h'
  obtain ⟨-, -, rfl⟩ := hreset.unique hreset'
  obtain ⟨-, rfl, -⟩ := hadd.unique hadd'
  rw [hq] at hq'
  cases hq'
  rfl

theorem Remembers.recordedIn (h : Remembers cs p q) : RecordedIn cs (conntrackSlot p) q := by
  obtain ⟨older, start, recent, pre, c, post, hreset, hinit, hadd, hq, -, -⟩ := h
  exact ⟨older, start, recent, pre, c, post, hreset, hinit, hadd, hq⟩

theorem Remembers.sameTuple (h : Remembers cs p q) : SameTuple q p := by
  obtain ⟨older, start, recent, pre, c, post, -, -, -, -, htuple, -⟩ := h
  exact htuple

theorem RecordedIn.mem_add {i : Nat} (h : RecordedIn cs i q) : ∃ c ∈ cs, c.op = .add q := by
  obtain ⟨older, start, recent, pre, c, post, hreset, -, hadd, hq⟩ := h
  refine ⟨c, ?_, hq⟩
  rw [hreset.split, hadd.split]
  simp

/-- What a lookup that succeeds has found: the entry of a packet that was added, with its tuple. -/
theorem hit_recorded {info : ConntrackInfo} {now : Int} (h : (conntrackLookup (conntrackRun cs) p info now).1 = 0) :
    ∃ q, RecordedIn cs (conntrackSlot p) q ∧ SameTuple q p ∧
      (conntrackLookup (conntrackRun cs) p info now).2.1 = info.fill (conntrackEntry q now) := by
  rw [conntrackLookup_eq_zero_iff, findConntrackEntry_conntrackRun_iff] at h
  obtain ⟨q, hq⟩ := h
  exact ⟨q, hq.recordedIn, hq.sameTuple, (conntrackLookup_of_remembers hq info now).2⟩

/-- Before every lookup of the run, the packet that was added last to its slot is of the flow of the packet looked up,
if the first address words and the ports of the two agree. -/
def LatestAddOwn (cs : List ConntrackCall) : Prop :=
  ∀ pre c post p info q, cs = pre ++ c :: post → c.op = .lookup p info → RecordedIn pre (conntrackSlot p) q →
    SameTuple q p → SameFlow q p

theorem hitsOwnFlow_of_latestAddOwn (h : LatestAddOwn cs) : HitsOwnFlow cs := by
  intro pre c post p info hcs hc hhit
  obtain ⟨q, hrec, htuple, hinfo⟩ := hit_recorded hhit
  exact ⟨q, hrec, hinfo, h pre c post p info q hcs hc hrec htuple⟩

/-- Where no sweep ran, the packet that was added last to a slot is found by every packet of its tuple. -/
theorem RecordedIn.remembers (h : RecordedIn cs (conntrackSlot p) q) (htuple : SameTuple q p)
    (hcs : ∀ c ∈ cs, c.op ≠ .cleanupOld) : Remembers cs p q := by
  obtain ⟨older, start, recent, pre, c, post, hreset, hinit, hadd, hq⟩ := h
  refine ⟨older, start, recent, pre, c, post, hreset, hinit, hadd, hq, htuple, ?_⟩
  intro mid d rest hpost hd
  have hmem : d ∈ cs := by
    rw [hreset.split, hadd.split, hpost]
    simp
  exact absurd hd (hcs d hmem)

theorem latestAddOwn_of_hitsOwnFlow (hcs : ∀ c ∈ cs, c.op ≠ .cleanupOld) (h : HitsOwnFlow cs) : LatestAddOwn cs := by
  intro pre c post p info q hsplit hc hrec htuple
  have hpre : ∀ d ∈ pre, d.op ≠ .cleanupOld := by
    intro d hd
    apply hcs d
    rw [hsplit]
    exact List.mem_append_left _ hd
  have hhit := (conntrackLookup_of_remembers (hrec.remembers htuple hpre) info c.now).1
  obtain ⟨q', hrec', -, hflow⟩ := h pre c post p info hsplit hc hhit
  rw [hrec.unique hrec']
  exact hflow

theorem not_recordedIn_init (older : List ConntrackCall) (t : Int) (i : Nat) :
    ¬ RecordedIn (older ++ [⟨.init, t⟩]) i q := by
  rintro ⟨older', start, recent, pre, c, post, hreset, -, hadd, -⟩
  have hlast : Latest ConntrackCall.IsReset (older ++ [⟨.init, t⟩]) older ⟨.init, t⟩ [] :=
    ⟨rfl, Or.inl rfl, by simp⟩
  obtain ⟨-, -, rfl⟩ := hlast.unique hreset
  simpa using hadd.split

theorem recordedIn_init_add (q : Packet) (older : List ConntrackCall) (t₀ t₁ : Int) :
    RecordedIn (older ++ [⟨.init, t₀⟩, ⟨.add q, t₁⟩]) (conntrackSlot q) q := by
  have hlast : Latest (fun a : Packet × Int => conntrackSlot a.1 = conntrackSlot q) [(q, t₁)] [] (q, t₁) [] :=
    ⟨rfl, rfl, by simp⟩
  obtain ⟨hreset, hadd⟩ := latest_addCalls hlast older t₀
  exact ⟨older, ⟨.init, t₀⟩, _, _, _, _, hreset, rfl, hadd, rfl⟩

/-- A UDP packet with one byte of payload. -/
def udpFrom (src : UInt32) (srcPort : UInt16) (dst : UInt32) (dstPort : UInt16) : Packet :=
  { tcpFrom src srcPort dst dstPort with type := .ipv4UdpData, payload := some [0], payloadLen := 1 }

/-- In a run without a sweep, every hit is of the packet's own flow exactly when before each lookup the packet that was
added last to the slot, if it has the tuple of the packet looked up, is of its flow. -/
theorem conntrack_hits_own_flow (cs : List ConntrackCall) (hcs : ∀ c ∈ cs, c.op ≠ .cleanupOld) :
    HitsOwnFlow cs ↔ LatestAddOwn cs := by
  constructor
  · exact latestAddOwn_of_hitsOwnFlow hcs
  · exact hitsOwnFlow_of_latestAddOwn

/-- A UDP packet is looked up before the TCP packet of its tuple is added, and again after the table is initialised
anew. -/
def reusedTable : List ConntrackCall :=
  [⟨.init, 0⟩, ⟨.lookup (udpFrom 10 40000 20 443) blankInfo, 1⟩, ⟨.add (tcpFrom 10 40000 20 443), 2⟩,
    ⟨.lookup (tcpFrom 10 40000 20 443) blankInfo, 3⟩, ⟨.init, 4⟩,
    ⟨.lookup (udpFrom 10 40000 20 443) blankInfo, 5⟩]

theorem latestAddOwn_reusedTable : LatestAddOwn reusedTable := by
  intro pre c post p info q hsplit hc hrec htuple
  obtain ⟨d, hd, hq⟩ := hrec.mem_add
  simp only [reusedTable, List.cons_eq_append_iff, List.cons.injEq, List.nil_eq, List.append_eq_nil_iff, reduceCtorEq,
    and_false, or_false, exists_false] at hsplit
  -- the place of the lookup in the run
  rcases hsplit with ⟨rfl, rfl, -⟩ | ⟨_, rfl, ⟨rfl, rfl, -⟩ | ⟨_, rfl, ⟨rfl, rfl, -⟩ | ⟨_, rfl, ⟨rfl, rfl, -⟩ |
    ⟨_, rfl, ⟨rfl, rfl, -⟩ | ⟨_, rfl, rfl, rfl, -⟩⟩⟩⟩⟩
  · cases hc
  · -- nothing was added yet
    exact absurd hrec (not_recordedIn_init [] 0 _)
  · cases hc
  · cases hc
    simp only [List.mem_cons, List.not_mem_nil, or_false] at hd
    rcases hd with rfl | rfl | rfl
    · cases hq
    · cases hq
    · cases hq
      exact ⟨rfl, rfl, rfl, rfl, rfl, rfl⟩
  · cases hc
  · exact absurd hrec (not_recordedIn_init (reusedTable.take 4) 4 _)

theorem conntrack_hits_own_flow_reused :
    (∀ c ∈ reusedTable, c.op ≠ .cleanupOld) ∧ (HitsOwnFlow reusedTable ↔ LatestAddOwn reusedTable) ∧
      LatestAddOwn reusedTable :=
  ⟨by simp [reusedTable], conntrack_hits_own_flow reusedTable (by simp [reusedTable]), latestAddOwn_reusedTable⟩

/-- A UDP packet finds the entry of a TCP connection between the same endpoints. -/
theorem conntrack_hits_other_protocol :
    ¬ HitsOwnFlow [⟨.init, 0⟩, ⟨.add (tcpFrom 10 40000 20 443), 0⟩,
      ⟨.lookup (udpFrom 10 40000 20 443) blankInfo, 0⟩] := by
  intro h
  have hown := latestAddOwn_of_hitsOwnFlow (by simp) h
  have hflow := hown [⟨.init, 0⟩, ⟨.add (tcpFrom 10 40000 20 443), 0⟩] _ [] _ _ _ rfl rfl
    (recordedIn_init_add (tcpFrom 10 40000 20 443) [] 0 0) (by decide)
  exact absurd hflow.protocol (by decide)

end GoodbyeDpi
