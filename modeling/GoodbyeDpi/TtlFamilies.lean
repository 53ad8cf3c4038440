import GoodbyeDpi.TtlInvariant
import Mathlib.Data.List.Induction

/-!
# IPv4 and IPv6 connections in one TTL table

The entries do not say which IP version they were created for.  To say whose entry is found, a run carries for every
entry the packet that created it.  A packet finds the entries of its own connection and those of the aliasing packets
of the other version: for an IPv4 packet the IPv6 packets with the same first words, for an IPv6 packet the IPv4
packets whose addresses followed by zeros are its own.
-/

namespace GoodbyeDpi

open CSem FilledArray

/-! ### Connections of both versions -/

namespace Packet

/-- The full endpoints; the address of an IPv4 packet is its first word. -/
def fullSource (p : Packet) : Addr × UInt16 := (if p.isIpv6 then p.srcIp else Addr.ofWord p.srcIp.w0, p.srcPort)

def fullDest (p : Packet) : Addr × UInt16 := (if p.isIpv6 then p.dstIp else Addr.ofWord p.dstIp.w0, p.dstPort)

/-- The packets have the same full endpoints, in either order. -/
def SameEndpoints (c p : Packet) : Prop :=
  c.fullSource = p.fullSource ∧ c.fullDest = p.fullDest ∨ c.fullSource = p.fullDest ∧ c.fullDest = p.fullSource

/-- The packets have the same first words and ports, in either order. -/
def SameFirstWords (c p : Packet) : Prop :=
  c.source = p.source ∧ c.dest = p.dest ∨ c.source = p.dest ∧ c.dest = p.source

/-- The packets belong to one connection. -/
def SameConnection (c p : Packet) : Prop := c.isIpv6 = p.isIpv6 ∧ c.SameEndpoints p

/-- The packets are of different IP versions, and `p` does not tell the endpoints of `c` from its own. -/
def Aliases (c p : Packet) : Prop :=
  c.isIpv6 ≠ p.isIpv6 ∧ if p.isIpv6 then c.SameEndpoints p else c.SameFirstWords p

/-- The entries of `c` are entries that `p` finds. -/
def LooksLike (c p : Packet) : Prop := c.SameConnection p ∨ c.Aliases p

/-- The check of the type in `ttl_track_update`. -/
def IsTracked (p : Packet) : Prop := p.type = .ipv4Tcp ∨ p.type = .ipv6Tcp

end Packet

/-! ### Entries with their creators -/

/-- An entry with the packet that created it. -/
structure CreatedEntry where
  entry : TtlEntry
  creator : Packet

def createdStep (xs : List CreatedEntry) : TtlOp → List CreatedEntry
  | .update p ttl now now' =>
    if p.type ≠ .ipv4Tcp ∧ p.type ≠ .ipv6Tcp then xs
    else
      match xs.findIdx? fun x => x.entry.protocol != 0 && ttlMatches p x.entry with
      | some i => xs.modify i fun x => { x with entry := touchEntry x.entry ttl now }
      | none =>
        if xs.length < maxTtlEntries then xs ++ [⟨newEntry p ttl now, p⟩]
        else
          match oldestLearning (xs.map (·.entry)) 0 now none with
          | some i => xs.set i ⟨newEntry p ttl now', p⟩
          | none => xs
  | .cleanupExpired now => xs.filter fun x => !ttlExpired now x.entry

/-- The live entries of a run, each with its creator. -/
def createdRun (ops : List TtlOp) : List CreatedEntry := ops.foldl createdStep []

theorem createdStep_entries {t : TtlTable} {xs : List CreatedEntry} (h : TtlInv t)
    (hxs : xs.map (·.entry) = t.live) (op : TtlOp) :
    (createdStep xs op).map (·.entry) = (ttlStep t op).live := by
  cases op with
  | cleanupExpired now =>
    have hlive := (live_cleanupExpired h.size_le now).1
    simp only [createdStep, ttlStep]
    rw [hlive, ← hxs, List.filter_map]
    rfl
  | update p ttl now now' =>
    have hlen : xs.length = t.size := by
      rw [← length_live h.size_le, ← hxs, List.length_map]
    have hfind : findTtlEntry t p = xs.findIdx? fun x => x.entry.protocol != 0 && ttlMatches p x.entry := by
      unfold findTtlEntry
      rw [← hxs, List.findIdx?_map]
      rfl
    simp only [createdStep, ttlStep, ttlTrackUpdate]
    split
    · exact hxs
    · rw [hfind, hlen, hxs]
      cases hidx : xs.findIdx? fun x => x.entry.protocol != 0 && ttlMatches p x.entry with
      | some i =>
        obtain ⟨hi, -, -⟩ := List.findIdx?_eq_some_iff_getElem.1 hidx
        simp only [live_setSlot, ← hxs]
        rw [List.modify_eq_set_getElem?, List.getElem?_eq_getElem hi]
        simp [List.map_set, hi]
      | none =>
        by_cases hsize : t.size < maxTtlEntries
        · simp only [if_pos hsize, live_push hsize, List.map_append, hxs]
          rfl
        · simp only [if_neg hsize]
          cases oldestLearning t.live 0 now none with
          | some i => simp only [live_setSlot, List.map_set, hxs]
          | none => exact hxs

/-- The entries of the run are the live entries of the table. -/
theorem createdRun_entries (ops : List TtlOp) : (createdRun ops).map (·.entry) = (ttlRun ops).live := by
  induction ops using List.reverseRecOn with
  | nil => rfl
  | append_singleton ops op ih =>
    have hstep := createdStep_entries (ttlRun_inv ops) ih op
    unfold createdRun ttlRun at *
    rwa [List.foldl_append, List.foldl_append]

/-- An entry after a step: an old one, an old one that was updated, or a new one. -/
theorem mem_createdStep {xs : List CreatedEntry} {op : TtlOp} {y : CreatedEntry} (hy : y ∈ createdStep xs op) :
    y ∈ xs ∨ (∃ x ∈ xs, ∃ ttl now, y = { x with entry := touchEntry x.entry ttl now }) ∨
      ∃ p ttl now, y = ⟨newEntry p ttl now, p⟩ := by
  cases op with
  | cleanupExpired now => exact Or.inl (List.mem_of_mem_filter hy)
  | update p ttl now now' =>
    unfold createdStep at hy
    dsimp only at hy
    split at hy
    · exact Or.inl hy
    · split at hy
      · rename_i i hidx
        obtain ⟨hi, -, -⟩ := List.findIdx?_eq_some_iff_getElem.1 hidx
        rw [List.modify_eq_set_getElem?, List.getElem?_eq_getElem hi] at hy
        rcases List.mem_or_eq_of_mem_set hy with hmem | heq
        · exact Or.inl hmem
        · exact Or.inr (Or.inl ⟨xs[i], List.getElem_mem hi, ttl, now, heq⟩)
      · split at hy
        · rcases List.mem_append.1 hy with hmem | hmem
          · exact Or.inl hmem
          · exact Or.inr (Or.inr ⟨p, ttl, now, List.mem_singleton.1 hmem⟩)
        · split at hy
          · rcases List.mem_or_eq_of_mem_set hy with hmem | heq
            · exact Or.inl hmem
            · exact Or.inr (Or.inr ⟨p, ttl, now', heq⟩)
          · exact Or.inl hy

/-- The entry has the endpoints of its creator. -/
def CreatedEntry.Faithful (x : CreatedEntry) : Prop :=
  (x.entry.srcIp, x.entry.srcPort) = x.creator.fullSource ∧ (x.entry.dstIp, x.entry.dstPort) = x.creator.fullDest

theorem createdRun_faithful (ops : List TtlOp) : ∀ x ∈ createdRun ops, x.Faithful := by
  induction ops using List.reverseRecOn with
  | nil =>
    intro x hx
    cases hx
  | append_singleton ops op ih =>
    intro y hy
    rw [createdRun, List.foldl_append] at hy
    rcases mem_createdStep hy with hold | ⟨x, hx, ttl, now, rfl⟩ | ⟨p, ttl, now, rfl⟩
    · exact ih y hold
    · obtain ⟨hsrc, hdst, hsport, hdport, -⟩ := touchEntry_endpoints x.entry ttl now
      unfold CreatedEntry.Faithful
      rw [hsrc, hdst, hsport, hdport]
      exact ih x hx
    · exact ⟨rfl, rfl⟩

section

variable {x : CreatedEntry} {c p : Packet}

/-- An IPv6 packet compares all words, whatever the version of the creator. -/
theorem ttlMatches_ipv6 (hx : x.Faithful) (htcp : x.entry.protocol = tcpProtocol) (h6 : p.isIpv6 = true) :
    ttlMatches p x.entry ↔ x.creator.SameEndpoints p := by
  obtain ⟨hsrc, hdst⟩ := hx
  unfold Packet.SameEndpoints
  rw [← hsrc, ← hdst]
  unfold ttlMatches Packet.fullSource Packet.fullDest
  simp only [h6, htcp, ↓reduceIte, beq_self_eq_true, Bool.and_true, Bool.or_eq_true, Bool.and_eq_true, beq_iff_eq,
    Prod.mk.injEq]
  tauto

/-- An IPv4 packet compares the first words, whatever the version of the creator. -/
theorem ttlMatches_ipv4 (hx : x.Faithful) (htcp : x.entry.protocol = tcpProtocol) (h4 : p.isIpv6 = false) :
    ttlMatches p x.entry ↔ x.creator.SameFirstWords p := by
  have hword : ∀ (b : Bool) (a : Addr), (if b then a else Addr.ofWord a.w0).w0 = a.w0 := by
    intro b a
    cases b <;> rfl
  obtain ⟨hsrc, hdst⟩ := hx
  unfold Packet.fullSource at hsrc
  unfold Packet.fullDest at hdst
  rw [Prod.mk.injEq] at hsrc hdst
  unfold ttlMatches Packet.SameFirstWords Packet.source Packet.dest
  simp only [h4, htcp, hsrc, hdst, hword, Bool.false_eq_true, ↓reduceIte, beq_self_eq_true, Bool.and_true,
    Bool.or_eq_true, Bool.and_eq_true, beq_iff_eq, Prod.mk.injEq]
  tauto

theorem sameEndpoints_iff_of_ipv4 (hc : c.isIpv6 = false) (hp : p.isIpv6 = false) :
    c.SameEndpoints p ↔ c.SameFirstWords p := by
  have hword : ∀ a b : Addr, Addr.ofWord a.w0 = Addr.ofWord b.w0 ↔ a.w0 = b.w0 := by
    intro a b
    simp [Addr.ofWord]
  unfold Packet.SameEndpoints Packet.SameFirstWords Packet.fullSource Packet.fullDest Packet.source Packet.dest
  simp only [hc, hp, Bool.false_eq_true, ↓reduceIte, Prod.mk.injEq, hword]

/-- A packet matches the entries that its own connection or an aliasing packet has created. -/
theorem ttlMatches_iff_creator (hx : x.Faithful) (htcp : x.entry.protocol = tcpProtocol) (p : Packet) :
    ttlMatches p x.entry ↔ x.creator.LooksLike p := by
  unfold Packet.LooksLike Packet.SameConnection Packet.Aliases
  cases hp : p.isIpv6 with
  | true =>
    rw [ttlMatches_ipv6 hx htcp hp, if_pos rfl, ← or_and_right]
    simp
  | false =>
    rw [ttlMatches_ipv4 hx htcp hp, if_neg Bool.false_ne_true]
    cases hc : x.creator.isIpv6 with
    | true => simp
    | false => simp [sameEndpoints_iff_of_ipv4 hc hp]

end

/-! ### The search -/

/-- The first entry that a packet takes for its own. -/
structure FirstFor (xs : List CreatedEntry) (p : Packet) (i : Nat) (x : CreatedEntry) : Prop where
  here : xs[i]? = some x
  looksLike : x.creator.LooksLike p
  before : ∀ j < i, ∀ y, xs[j]? = some y → ¬ y.creator.LooksLike p

section

variable {ops : List TtlOp} {p : Packet} {i : Nat} {x : CreatedEntry}

theorem live_of_created (hx : (createdRun ops)[i]? = some x) : (ttlRun ops).live[i]? = some x.entry := by
  rw [← createdRun_entries, List.getElem?_map, hx, Option.map_some]

theorem created_of_live {e : TtlEntry} (he : (ttlRun ops).live[i]? = some e) :
    ∃ x, (createdRun ops)[i]? = some x ∧ x.entry = e := by
  rw [← createdRun_entries, List.getElem?_map] at he
  exact Option.map_eq_some_iff.1 he

/-- `find_ttl_entry` sees the creators through `LooksLike`. -/
theorem matches_created (hx : (createdRun ops)[i]? = some x) :
    (x.entry.protocol != 0 && ttlMatches p x.entry) = true ↔ x.creator.LooksLike p := by
  have htcp := ((ttlRun_inv ops).valid _ (List.mem_of_getElem? (live_of_created hx))).tcp
  have hfaithful := createdRun_faithful ops x (List.mem_of_getElem? hx)
  rw [← ttlMatches_iff_creator hfaithful htcp p, htcp]
  simp [tcpProtocol]

theorem findTtlEntry_eq_some_iff : findTtlEntry (ttlRun ops) p = some i ↔ ∃ x, FirstFor (createdRun ops) p i x := by
  unfold findTtlEntry
  rw [List.findIdx?_eq_some_iff_getElem]
  constructor
  · rintro ⟨hi, hmatch, hbefore⟩
    obtain ⟨x, hx, hentry⟩ := created_of_live (List.getElem?_eq_getElem hi)
    refine ⟨x, hx, (matches_created hx).1 (by rwa [hentry]), ?_⟩
    intro j hj y hy hlooks
    obtain ⟨hj', hlive⟩ := List.getElem?_eq_some_iff.1 (live_of_created hy)
    have hno := hbefore j hj
    rw [hlive] at hno
    exact hno ((matches_created hy).2 hlooks)
  · rintro ⟨x, hx, hlooks, hbefore⟩
    obtain ⟨hi, hlive⟩ := List.getElem?_eq_some_iff.1 (live_of_created hx)
    refine ⟨hi, ?_, ?_⟩
    · rw [hlive]
      exact (matches_created hx).2 hlooks
    · intro j hj hmatch
      obtain ⟨y, hy, hentry⟩ := created_of_live (List.getElem?_eq_getElem (Nat.lt_trans hj hi))
      rw [← hentry] at hmatch
      exact hbefore j hj y hy ((matches_created hy).1 hmatch)

end

/-! ### What a call changes and reports -/

/-- The calls on `p` leave the entries of the other connections alone: `ttl_track_update` changes none of them, unless
it evicts one that is not established from a full table, and `ttl_is_ready` and `ttl_get_delta` report none of them. -/
structure KeepsApart (ops : List TtlOp) (p : Packet) (ttl : UInt8) (now now' : Int) : Prop where
  unchanged : ∀ (i : Nat) (x : CreatedEntry), (createdRun ops)[i]? = some x → ¬ x.creator.SameConnection p →
    (ttlTrackUpdate (ttlRun ops) p ttl now now').2.live[i]? = some x.entry ∨
    (ttlRun ops).size = maxTtlEntries ∧ x.entry.isEstablished = false ∧
      (ttlTrackUpdate (ttlRun ops) p ttl now now').2.live[i]? = some (newEntry p ttl now')
  unreported : ttlIsReady (ttlRun ops) p = true ∨ ttlGetDelta (ttlRun ops) p ≠ -1 →
    ∀ (i : Nat) (x : CreatedEntry), findTtlEntry (ttlRun ops) p = some i → (createdRun ops)[i]? = some x →
      x.creator.SameConnection p

section

variable {ops : List TtlOp} {p : Packet} {i : Nat} {x : CreatedEntry}

/-- What is reported is an established entry. -/
theorem reports_iff (hfind : findTtlEntry (ttlRun ops) p = some i) (hx : (createdRun ops)[i]? = some x) :
    ttlIsReady (ttlRun ops) p = true ∨ ttlGetDelta (ttlRun ops) p ≠ -1 ↔ x.entry.isEstablished = true := by
  have hget : (ttlRun ops).live.getD i TtlEntry.zero = x.entry := by
    rw [List.getD_eq_getElem?_getD, live_of_created hx, Option.getD_some]
  unfold ttlIsReady ttlGetDelta
  simp only [hfind, Option.any_some, hget]
  cases x.entry.isEstablished with
  | true => simp
  | false => simp

/-- An update that finds an entry counts the packet there. -/
theorem update_of_found (hp : p.IsTracked) (hfind : findTtlEntry (ttlRun ops) p = some i)
    (hx : (createdRun ops)[i]? = some x) (ttl : UInt8) (now now' : Int) :
    (ttlTrackUpdate (ttlRun ops) p ttl now now').2.live[i]? = some (touchEntry x.entry ttl now) := by
  have hlive := live_of_created hx
  have htype : ¬ (p.type ≠ .ipv4Tcp ∧ p.type ≠ .ipv6Tcp) := by
    rintro ⟨h4, h6⟩
    rcases hp with h | h
    · exact h4 h
    · exact h6 h
  obtain ⟨hi, -⟩ := List.getElem?_eq_some_iff.1 hlive
  unfold ttlTrackUpdate
  rw [if_neg htype, hfind]
  simp only [live_setSlot, List.getD_eq_getElem?_getD, hlive, Option.getD_some]
  rw [List.getElem?_set_self hi]

theorem packetCount_touchEntry (e : TtlEntry) (ttl : UInt8) (now : Int) :
    (touchEntry e ttl now).packetCount = e.packetCount + 1 := by
  unfold touchEntry
  split
  · rfl
  · rfl

/-- An update that counts a packet at an entry leaves it neither unchanged nor evicted. -/
theorem touchEntry_ne (hx : (createdRun ops)[i]? = some x) (p : Packet) (ttl : UInt8) (now now' : Int) :
    touchEntry x.entry ttl now ≠ x.entry ∧
      (x.entry.isEstablished = false → touchEntry x.entry ttl now ≠ newEntry p ttl now') := by
  have hvalid := (ttlRun_inv ops).valid _ (List.mem_of_getElem? (live_of_created hx))
  constructor
  · intro heq
    have hcount := congrArg TtlEntry.packetCount heq
    rw [packetCount_touchEntry] at hcount
    simp at hcount
  · intro hlearning heq
    have hcount := congrArg TtlEntry.packetCount heq
    rw [packetCount_touchEntry] at hcount
    obtain ⟨hpos, hle⟩ := hvalid.learning hlearning
    have hone : x.entry.packetCount + 1 = 1 := hcount
    simp only [UInt32.le_iff_toNat_le, ← UInt32.toNat_inj, UInt32.toNat_add] at hpos hle hone
    simp at hpos hle hone
    omega

/-- A tracked packet that only finds entries of its own connection changes no other one, unless it evicts one. -/
theorem unchanged_of_own (hown : ∀ k y, FirstFor (createdRun ops) p k y → y.creator.SameConnection p)
    (hx : (createdRun ops)[i]? = some x) (hother : ¬ x.creator.SameConnection p) (ttl : UInt8) (now now' : Int) :
    (ttlTrackUpdate (ttlRun ops) p ttl now now').2.live[i]? = some x.entry ∨
    (ttlRun ops).size = maxTtlEntries ∧ x.entry.isEstablished = false ∧
      (ttlTrackUpdate (ttlRun ops) p ttl now now').2.live[i]? = some (newEntry p ttl now') := by
  have hlive := live_of_created hx
  have hi : i < (ttlRun ops).live.length := (List.getElem?_eq_some_iff.1 hlive).1
  rcases ttlTrackUpdate_cases (ttlRun ops) p ttl now now' with heq | ⟨k, e, hfind, -, heq⟩ | ⟨-, hsize, heq⟩ |
    ⟨k, -, hfull, hold, -, heq⟩
  · rw [heq]
    exact Or.inl hlive
  · obtain ⟨y, hfirst⟩ := findTtlEntry_eq_some_iff.1 hfind
    have hki : k ≠ i := by
      rintro rfl
      rw [hfirst.here] at hx
      cases hx
      exact hother (hown k x hfirst)
    rw [heq, live_setSlot, List.getElem?_set_ne hki]
    exact Or.inl hlive
  · rw [heq, live_push hsize, List.getElem?_append_left hi]
    exact Or.inl hlive
  · rw [heq, live_setSlot]
    by_cases hki : k = i
    · subst hki
      have hsize := (ttlRun_inv ops).size_le
      rcases oldestLearning_learning hold with h | ⟨e, he, -, hlearning⟩
      · cases h
      · rw [Nat.sub_zero, hlive] at he
        cases he
        exact Or.inr ⟨by omega, hlearning, List.getElem?_set_self hi⟩
    · rw [List.getElem?_set_ne hki]
      exact Or.inl hlive

end

/-- The calls on a packet leave the other connections alone exactly when the first entry it takes for its own was not
created by an aliasing packet of the other IP version; or else the packet is not one that is tracked, and the entry is
still learning. -/
theorem ttl_families_apart_iff (ops : List TtlOp) (p : Packet) (ttl : UInt8) (now now' : Int) :
    KeepsApart ops p ttl now now' ↔ ∀ i x, FirstFor (createdRun ops) p i x → x.creator.Aliases p →
      ¬ p.IsTracked ∧ x.entry.isEstablished = false := by
  constructor
  · rintro ⟨hunchanged, hunreported⟩ i x hfirst halias
    have hfind := findTtlEntry_eq_some_iff.2 ⟨x, hfirst⟩
    have hother : ¬ x.creator.SameConnection p := fun hsame => halias.1 hsame.1
    constructor
    · intro hp
      have hafter := update_of_found hp hfind hfirst.here ttl now now'
      obtain ⟨hne, hne'⟩ := touchEntry_ne hfirst.here p ttl now now'
      rcases hunchanged i x hfirst.here hother with hsame | ⟨-, hlearning, hevicted⟩
      · rw [hafter] at hsame
        exact hne (Option.some.inj hsame)
      · rw [hafter] at hevicted
        exact hne' hlearning (Option.some.inj hevicted)
    · by_contra hest
      have hreports := (reports_iff hfind hfirst.here).2 (by simpa using hest)
      exact hother (hunreported hreports i x hfind hfirst.here)
  · intro hclear
    refine ⟨?_, ?_⟩
    · intro i x hx hother
      by_cases hp : p.IsTracked
      · apply unchanged_of_own _ hx hother
        intro k y hfirst
        rcases hfirst.looksLike with hsame | halias
        · exact hsame
        · exact absurd hp (hclear k y hfirst halias).1
      · left
        have htype : p.type ≠ .ipv4Tcp ∧ p.type ≠ .ipv6Tcp := not_or.1 hp
        rw [ttlTrackUpdate, if_pos htype]
        exact live_of_created hx
    · intro hreports i x hfind hx
      obtain ⟨y, hfirst⟩ := findTtlEntry_eq_some_iff.1 hfind
      have hyx : y = x := Option.some.inj (hfirst.here.symm.trans hx)
      rcases hfirst.looksLike with hsame | halias
      · rwa [hyx] at hsame
      · have hest := (reports_iff hfind hx).1 hreports
        rw [← hyx, (hclear i y hfirst halias).2] at hest
        cases hest

/-- A segment from 2001:db8::1 to 2a00:1450::2, with the words as the numbers they spell. -/
def ipv6Segment : Packet :=
  { packetInit with
    isIpv6 := true
    type := .ipv6Tcp
    srcIp := ⟨0x20010db8, 0, 0, 1⟩
    dstIp := ⟨0x2a001450, 0, 0, 2⟩
    srcPort := 50000
    dstPort := 443 }

/-- A segment from 32.1.13.184 to 42.0.20.80 with the same ports. -/
def ipv4Segment : Packet :=
  { packetInit with
    type := .ipv4Tcp
    srcIp := Addr.ofWord 0x20010db8
    dstIp := Addr.ofWord 0x2a001450
    srcPort := 50000
    dstPort := 443 }

/-- The IPv4 packet is counted at the entry of the IPv6 connection. -/
theorem ttl_families_mixed : ¬ KeepsApart [.update ipv6Segment 64 0 0] ipv4Segment 57 1 1 := by
  rintro ⟨hunchanged, -⟩
  have hother : ¬ ipv6Segment.SameConnection ipv4Segment := fun hsame => by cases hsame.1
  rcases hunchanged 0 ⟨newEntry ipv6Segment 64 0, ipv6Segment⟩ rfl hother with hsame | ⟨hfull, -, -⟩
  · exact absurd hsame (by decide +kernel)
  · exact absurd hfull (by decide +kernel)

end GoodbyeDpi
