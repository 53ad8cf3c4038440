import GoodbyeDpi.TtlReady
import Mathlib.Data.Finset.Card

/-!
# What the TTL tracker reports

`ttl_tracker_get_stats` after a run of updates and cleanups with packets of one IP version.  Its two numbers are
numbers of connections: those that the tracker finds an entry for, and those that it is ready for.  Packets only add
connections that are ready, one at a time, and a cleanup takes away those whose last packet is too long ago.
-/

namespace GoodbyeDpi

open CSem FilledArray

/-- The loop of `ttl_tracker_get_stats` with `established` entries counted. -/
def countEstablished : List TtlEntry → Nat → Nat
  | [], established => established
  | e :: es, established => countEstablished es (if e.isEstablished then established + 1 else established)

/-- `ttl_tracker_get_stats`: `total_entries` and `established_entries`. -/
def ttlTrackerGetStats (t : TtlTable) : Nat × Nat := (t.size, countEstablished t.live 0)

/-- The connections with an entry. -/
def trackedSessions (t : TtlTable) : Finset TtlSession := (t.live.map TtlEntry.session).toFinset

/-- The connections with an established entry. -/
def readySessions (t : TtlTable) : Finset TtlSession :=
  ((t.live.filter (·.isEstablished)).map TtlEntry.session).toFinset

variable {e f : TtlEntry} {p q : Packet} {s : TtlSession} {t : TtlTable} {isIpv6 : Bool} {ttl : UInt8}
  {now now' : Int} {ops : List TtlOp}

/-! ### The numbers -/

theorem countEstablished_eq (es : List TtlEntry) (established : Nat) :
    countEstablished es established = established + (es.filter (·.isEstablished)).length := by
  induction es generalizing established with
  | nil => rfl
  | cons e es ih =>
    rw [countEstablished, ih, List.filter_cons]
    by_cases he : e.isEstablished = true
    · rw [if_pos he, if_pos he, List.length_cons]
      omega
    · rw [if_neg he, if_neg he]

theorem TtlInv.nodup_session (h : TtlInv t) : (t.live.map TtlEntry.session).Nodup :=
  List.pairwise_map.2 (h.distinct.imp TtlEntry.Distinct.session_ne)

theorem TtlInv.card_trackedSessions (h : TtlInv t) : (trackedSessions t).card = t.size := by
  rw [trackedSessions, List.toFinset_card_of_nodup h.nodup_session, List.length_map, length_live h.size_le]

theorem TtlInv.ttlTrackerGetStats_eq (h : TtlInv t) :
    ttlTrackerGetStats t = ((trackedSessions t).card, (readySessions t).card) := by
  have hsub : ((t.live.filter (·.isEstablished)).map TtlEntry.session).Nodup :=
    h.nodup_session.sublist (List.filter_sublist.map _)
  rw [ttlTrackerGetStats, countEstablished_eq, h.card_trackedSessions, readySessions,
    List.toFinset_card_of_nodup hsub, List.length_map, Nat.zero_add]

private theorem mem_trackedSessions : s ∈ trackedSessions t ↔ ∃ e ∈ t.live, e.session = s := by
  rw [trackedSessions, List.mem_toFinset, List.mem_map]

private theorem mem_readySessions : s ∈ readySessions t ↔ ∃ e ∈ t.live, e.session = s ∧ e.isEstablished = true := by
  rw [readySessions, List.mem_toFinset, List.mem_map]
  constructor
  · rintro ⟨e, he, hs⟩
    obtain ⟨hmem, hest⟩ := List.mem_filter.1 he
    exact ⟨e, hmem, hs, hest⟩
  · rintro ⟨e, he, hs, hest⟩
    exact ⟨e, List.mem_filter.2 ⟨he, hest⟩, hs⟩

private theorem readySessions_subset (t : TtlTable) : readySessions t ⊆ trackedSessions t := by
  intro s hs
  obtain ⟨e, he, hse, -⟩ := mem_readySessions.1 hs
  exact mem_trackedSessions.2 ⟨e, he, hse⟩

theorem VersionInv.isSome_find_iff (h : VersionInv p.isIpv6 t) :
    (findTtlEntry t p).isSome = true ↔ p.ttlSession ∈ trackedSessions t := by
  rw [mem_trackedSessions]
  constructor
  · intro hsome
    obtain ⟨i, hfind⟩ := Option.isSome_iff_exists.1 hsome
    obtain ⟨hi, -⟩ := List.findIdx?_eq_some_iff_getElem.1 hfind
    exact ⟨_, List.getElem_mem hi, h.session_of_find hfind (List.getElem?_eq_getElem hi)⟩
  · rintro ⟨e, he, hs⟩
    obtain ⟨i, hfind, -⟩ := h.find he hs
    rw [hfind]
    rfl

/-! ### Steps -/

/-- An update ends no readiness. -/
theorem VersionInv.readySessions_update (h : VersionInv q.isIpv6 t) (ttl : UInt8) (now now' : Int) :
    readySessions t ⊆ readySessions (ttlTrackUpdate t q ttl now now').2 := by
  intro s hs
  obtain ⟨e, he, hse, hest⟩ := mem_readySessions.1 hs
  obtain ⟨f, hf, hfs, hfest, -⟩ := h.keeps_established (q := q) he hest ttl now now'
  exact mem_readySessions.2 ⟨f, hf, hfs.trans hse, hfest⟩

/-- Only the connection of the packet may become ready. -/
theorem VersionInv.update_readySessions (h : VersionInv q.isIpv6 t) (ttl : UInt8) (now now' : Int) :
    readySessions (ttlTrackUpdate t q ttl now now').2 ⊆ insert q.ttlSession (readySessions t) := by
  intro s hs
  obtain ⟨f, hf, rfl, hest⟩ := mem_readySessions.1 hs
  rw [Finset.mem_insert]
  rcases h.origin hf with hmem | ⟨e, -, -, hse, rfl⟩ | ⟨now₀, rfl⟩
  · exact Or.inr (mem_readySessions.2 ⟨f, hmem, rfl, hest⟩)
  · exact Or.inl (session_touchEntry.trans hse)
  · cases hest

/-- What a cleanup leaves ready. -/
theorem mem_readySessions_cleanup (hops : ∀ op ∈ ops, op.OfVersion p.isIpv6) (now : Int) :
    p.ttlSession ∈ readySessions (ttlTrackerCleanupExpired (ttlRun ops) now).2 ↔
      p.ttlSession ∈ readySessions (ttlRun ops) ∧ now - lastSeen p ops ≤ 300 := by
  have hinv := (versionInv_ttlRun hops).toTtlInv
  have hfresh {e : TtlEntry} (he : e ∈ (ttlRun ops).live) (hs : e.session = p.ttlSession)
      (hest : e.isEstablished = true) : ttlExpired now e = false ↔ now - lastSeen p ops ≤ 300 := by
    rw [ttlExpired, if_pos hest, established_lastSeen hops e he hs hest, decide_eq_false_iff_not, ttlEstablishedTimeout,
      Int.not_lt]
  simp only [mem_readySessions]
  constructor
  · rintro ⟨e, he, hs, hest⟩
    obtain ⟨hmem, hexp⟩ := (mem_cleanup hinv).1 he
    exact ⟨⟨e, hmem, hs, hest⟩, (hfresh hmem hs hest).1 hexp⟩
  · rintro ⟨⟨e, he, hs, hest⟩, hgap⟩
    exact ⟨e, (mem_cleanup hinv).2 ⟨he, (hfresh he hs hest).2 hgap⟩, hs, hest⟩

/-- What the statistics after a run count, and how a packet and a cleanup change it. -/
structure CountsConnections (ops : List TtlOp) (isIpv6 : Bool) : Prop where
  stats : ttlTrackerGetStats (ttlRun ops) =
    ((trackedSessions (ttlRun ops)).card, (readySessions (ttlRun ops)).card)
  bounds : (readySessions (ttlRun ops)).card ≤ (trackedSessions (ttlRun ops)).card ∧
    (trackedSessions (ttlRun ops)).card ≤ maxTtlEntries
  found : ∀ p : Packet, p.isIpv6 = isIpv6 →
    ((findTtlEntry (ttlRun ops) p).isSome = true ↔ p.ttlSession ∈ trackedSessions (ttlRun ops))
  ready : ∀ p : Packet, p.isIpv6 = isIpv6 →
    (ttlIsReady (ttlRun ops) p = true ↔ p.ttlSession ∈ readySessions (ttlRun ops))
  total : ∀ (q : Packet) (ttl : UInt8) (now now' : Int), q.isIpv6 = isIpv6 →
    (trackedSessions (ttlRun ops)).card ≤ (trackedSessions (ttlRun (ops ++ [.update q ttl now now']))).card ∧
      (trackedSessions (ttlRun (ops ++ [.update q ttl now now']))).card ≤ (trackedSessions (ttlRun ops)).card + 1
  update : ∀ (q : Packet) (ttl : UInt8) (now now' : Int), q.isIpv6 = isIpv6 →
    readySessions (ttlRun ops) ⊆ readySessions (ttlRun (ops ++ [.update q ttl now now'])) ∧
      readySessions (ttlRun (ops ++ [.update q ttl now now'])) ⊆ insert q.ttlSession (readySessions (ttlRun ops))
  cleanup : ∀ (p : Packet) (now : Int), p.isIpv6 = isIpv6 →
    (p.ttlSession ∈ readySessions (ttlRun (ops ++ [.cleanupExpired now])) ↔
      p.ttlSession ∈ readySessions (ttlRun ops) ∧ now - lastSeen p ops ≤ 300)

/-- After packets of one IP version and cleanups, `ttl_tracker_get_stats` gives the number of connections with an entry
and the number of those that the tracker is ready for.  A packet makes its own connection ready at most; a cleanup ends
readiness for the connections without a packet for more than 300 seconds. -/
theorem ttl_stats_count_connections (ops : List TtlOp) (isIpv6 : Bool) (hversion : ∀ op ∈ ops, op.OfVersion isIpv6) :
    CountsConnections ops isIpv6 := by
  have hinv := versionInv_ttlRun hversion
  refine ⟨hinv.toTtlInv.ttlTrackerGetStats_eq, ⟨Finset.card_le_card (readySessions_subset _), ?_⟩, ?_, ?_, ?_, ?_, ?_⟩
  · rw [hinv.toTtlInv.card_trackedSessions]
    exact hinv.size_le
  · rintro p rfl
    exact hinv.isSome_find_iff
  · rintro p rfl
    exact hinv.ttlIsReady_iff.trans mem_readySessions.symm
  · rintro q ttl now now' rfl
    have hinv' := hinv.toTtlInv.step (.update q ttl now now')
    rw [ttlRun_append, hinv.toTtlInv.card_trackedSessions, hinv'.card_trackedSessions]
    exact size_le_update (ttlRun ops) q ttl now now'
  · rintro q ttl now now' rfl
    rw [ttlRun_append]
    exact ⟨hinv.readySessions_update ttl now now', hinv.update_readySessions ttl now now'⟩
  · rintro p now rfl
    rw [ttlRun_append]
    exact mem_readySessions_cleanup hversion now

/-- Ten packets of one connection, two of another in both directions, a cleanup, and a packet of a third one. -/
def statsOps : List TtlOp :=
  readyOps ++
    [.update { packetInit with
      type := .ipv4Tcp, srcIp := Addr.ofWord 3, dstIp := Addr.ofWord 2, srcPort := 2000, dstPort := 443 } 128 110 110,
    .update { packetInit with
      type := .ipv4Tcp, srcIp := Addr.ofWord 2, dstIp := Addr.ofWord 3, srcPort := 443, dstPort := 2000 } 57 120 120,
    .cleanupExpired 160,
    .update { packetInit with
      type := .ipv4Tcp, srcIp := Addr.ofWord 4, dstIp := Addr.ofWord 2, srcPort := 2000, dstPort := 443 } 64 170 170]

theorem ttl_stats_count_connections_three :
    ttlTrackerGetStats (ttlRun statsOps) = (2, 1) ∧ CountsConnections statsOps false := by
  refine ⟨by decide +kernel, ttl_stats_count_connections statsOps false fun op hop => ?_⟩
  rcases List.mem_append.1 hop with hready | hrest
  · rw [List.eq_of_mem_replicate hready]
    rfl
  · simp only [List.mem_cons, List.not_mem_nil, or_false] at hrest
    rcases hrest with rfl | rfl | rfl | rfl
    · rfl
    · rfl
    · trivial
    · rfl

end GoodbyeDpi
