import GoodbyeDpi.TtlInvariant
import Mathlib.Data.List.Induction

/-!
# What the TTL tracker learns about a connection

A run of updates on IPv4 packets, in any order over any number of connections.  As long as the entry of a connection
is not evicted, it holds exactly what the packets of that connection say: the first TTL, the least and the greatest
of the first ten, the number of packets modulo `2 ^ 32`, and from the tenth packet on that it is established.
-/

namespace GoodbyeDpi

open CSem FilledArray

/-! ### Connections -/

def TtlEntry.source (e : TtlEntry) : Endpoint := (e.srcIp.w0, e.srcPort)

def TtlEntry.dest (e : TtlEntry) : Endpoint := (e.dstIp.w0, e.dstPort)

/-- A connection: its two endpoints. -/
structure Conn where
  a : Endpoint
  b : Endpoint

namespace Conn

/-- The endpoints are those of the connection, in either order. -/
def Joins (c : Conn) (x y : Endpoint) : Prop := x = c.a ∧ y = c.b ∨ x = c.b ∧ y = c.a

instance (c : Conn) (x y : Endpoint) : Decidable (c.Joins x y) := inferInstanceAs (Decidable (_ ∨ _))

def HasPacket (c : Conn) (p : Packet) : Prop := c.Joins p.source p.dest

instance (c : Conn) (p : Packet) : Decidable (c.HasPacket p) := inferInstanceAs (Decidable (c.Joins _ _))

def HasEntry (c : Conn) (e : TtlEntry) : Prop := c.Joins e.source e.dest

end Conn

/-- An update with an IPv4 packet as the parser leaves it and a TTL that is set. -/
structure Ipv4Update where
  packet : Packet
  ttl : UInt8
  now : Int
  now' : Int
  type : packet.type = .ipv4Tcp
  ipv4 : packet.isIpv6 = false
  src_word : packet.srcIp = Addr.ofWord packet.srcIp.w0
  dst_word : packet.dstIp = Addr.ofWord packet.dstIp.w0
  ttl_set : ttl ≠ 0

def Ipv4Update.op (u : Ipv4Update) : TtlOp := .update u.packet u.ttl u.now u.now'

/-- The table after a run of updates. -/
def tableAfter (us : List Ipv4Update) : TtlTable := ttlRun (us.map Ipv4Update.op)

theorem tableAfter_append (us : List Ipv4Update) (u : Ipv4Update) :
    tableAfter (us ++ [u]) = (ttlTrackUpdate (tableAfter us) u.packet u.ttl u.now u.now').2 := by
  unfold tableAfter ttlRun
  rw [List.map_append, List.foldl_append]
  rfl

theorem ttlInv_tableAfter (us : List Ipv4Update) : TtlInv (tableAfter us) := ttlInv_init.foldl _

/-- The slot that an update overwrites because the table is full and the connection is new. -/
def evictedSlot (t : TtlTable) (u : Ipv4Update) : Option Nat :=
  if findTtlEntry t u.packet = none ∧ ¬ t.size < maxTtlEntries then oldestLearning t.live 0 u.now none else none

namespace Conn

variable (c : Conn)

/-- The TTLs of the packets of the connection, in order. -/
def seen (us : List Ipv4Update) : List UInt8 := (us.filter fun u => c.HasPacket u.packet).map (·.ttl)

/-- The first update of the connection returned 0. -/
def FirstAccepted (us : List Ipv4Update) : Prop :=
  ∀ pre u post, us = pre ++ u :: post → c.seen pre = [] → c.HasPacket u.packet →
    (ttlTrackUpdate (tableAfter pre) u.packet u.ttl u.now u.now').1 = 0

/-- No update of the run evicts the entry of the connection. -/
def NotEvicted (us : List Ipv4Update) : Prop :=
  ∀ pre u post, us = pre ++ u :: post → ∀ i e, evictedSlot (tableAfter pre) u = some i →
    (tableAfter pre).live[i]? = some e → ¬ c.HasEntry e

end Conn

/-- The entry holds what the TTLs `ts` of a connection say. -/
structure Learned (ts : List UInt8) (e : TtlEntry) : Prop where
  original : ts.head? = some e.originalTtl
  min_mem : e.minTtl ∈ ts.take 10
  min_le : ∀ x ∈ ts.take 10, e.minTtl ≤ x
  max_mem : e.maxTtl ∈ ts.take 10
  le_max : ∀ x ∈ ts.take 10, x ≤ e.maxTtl
  count : e.packetCount.toNat = ts.length % 2 ^ 32
  established : e.isEstablished = decide (10 ≤ ts.length)

/-! ### Matching -/

theorem ttlMatches_iff {p : Packet} {e : TtlEntry} (h4 : p.isIpv6 = false) (htcp : e.protocol = tcpProtocol) :
    ttlMatches p e ↔ e.source = p.source ∧ e.dest = p.dest ∨ e.source = p.dest ∧ e.dest = p.source := by
  unfold ttlMatches TtlEntry.source TtlEntry.dest Packet.source Packet.dest
  simp only [h4, htcp, Bool.false_eq_true, ↓reduceIte, beq_self_eq_true, Bool.and_true, Bool.or_eq_true,
    Bool.and_eq_true, beq_iff_eq, Prod.mk.injEq]
  tauto

/-- A packet matches the entries of its own connection and no others. -/
theorem ttlMatches_hasEntry {c : Conn} {p : Packet} {e : TtlEntry} (h4 : p.isIpv6 = false)
    (htcp : e.protocol = tcpProtocol) (hp : c.HasPacket p) : ttlMatches p e ↔ c.HasEntry e := by
  rw [ttlMatches_iff h4 htcp]
  unfold Conn.HasEntry Conn.HasPacket Conn.Joins at *
  rcases hp with ⟨h1, h2⟩ | ⟨h1, h2⟩
  · rw [h1, h2]
  · rw [h1, h2, or_comm]

theorem not_hasEntry_of_ttlMatches {c : Conn} {p : Packet} {e : TtlEntry} (h4 : p.isIpv6 = false)
    (htcp : e.protocol = tcpProtocol) (hp : ¬ c.HasPacket p) (hm : ttlMatches p e) : ¬ c.HasEntry e := by
  rw [ttlMatches_iff h4 htcp] at hm
  intro he
  apply hp
  unfold Conn.HasEntry Conn.HasPacket Conn.Joins at *
  rcases hm with ⟨h1, h2⟩ | ⟨h1, h2⟩
  · rwa [← h1, ← h2]
  · rw [h1, h2] at he
    tauto

theorem hasEntry_newEntry {c : Conn} {p : Packet} (h4 : p.isIpv6 = false) (ttl : UInt8) (now : Int) :
    c.HasEntry (newEntry p ttl now) ↔ c.HasPacket p := by
  unfold Conn.HasEntry Conn.HasPacket TtlEntry.source TtlEntry.dest newEntry
  simp only [h4, Bool.false_eq_true, ↓reduceIte]
  exact Iff.rfl

theorem hasEntry_touchEntry {c : Conn} {e : TtlEntry} (ttl : UInt8) (now : Int) :
    c.HasEntry (touchEntry e ttl now) ↔ c.HasEntry e := by
  obtain ⟨h1, h2, h3, h4, -⟩ := touchEntry_endpoints e ttl now
  unfold Conn.HasEntry TtlEntry.source TtlEntry.dest
  rw [h1, h2, h3, h4]

/-! ### Learning -/

theorem learned_newEntry (p : Packet) (ttl : UInt8) (now : Int) : Learned [ttl] (newEntry p ttl now) where
  original := rfl
  min_mem := List.mem_singleton_self ttl
  min_le := by
    intro x hx
    rw [List.mem_singleton.1 hx]
    exact Nat.le_refl _
  max_mem := List.mem_singleton_self ttl
  le_max := by
    intro x hx
    rw [List.mem_singleton.1 hx]
    exact Nat.le_refl _
  count := rfl
  established := rfl

/-- The entry has counted `n` packets. -/
def Counted (n : Nat) (e : TtlEntry) : Prop :=
  e.packetCount.toNat = n % 2 ^ 32 ∧ e.isEstablished = decide (10 ≤ n)

theorem Counted.count {n : Nat} {e : TtlEntry} (h : Counted n e) (hlen : 10 ≤ n) (now : Int) :
    Counted (n + 1) (e.count now) := by
  constructor
  · change (e.packetCount + 1).toNat = _
    rw [UInt32.toNat_add, h.1]
    simp
  · change e.isEstablished = _
    rw [h.2]
    apply decide_eq_decide.2
    omega

theorem Counted.learnTtl {n : Nat} {e : TtlEntry} (h : Counted n e) (hlen : n < 10) (ttl : UInt8) (now : Int) :
    Counted (n + 1) (learnTtl (e.count now) ttl) := by
  have hcount : (e.packetCount + 1).toNat = n + 1 := by
    rw [UInt32.toNat_add, h.1]
    simp
    omega
  constructor
  · change (e.packetCount + 1).toNat = _
    rw [hcount]
    omega
  · change decide (ttlLearningPackets ≤ e.packetCount + 1) = _
    apply decide_eq_decide.2
    rw [UInt32.le_iff_toNat_le, hcount]
    exact Iff.rfl

/-- From the tenth packet on only the counter moves. -/
private theorem learned_count {ts : List UInt8} {e : TtlEntry} (h : Learned ts e) (hlen : 10 ≤ ts.length) (ttl : UInt8)
    (now : Int) : Learned (ts ++ [ttl]) (e.count now) := by
  have htake : (ts ++ [ttl]).take 10 = ts.take 10 := List.take_append_of_le_length hlen
  have hhead : (ts ++ [ttl]).head? = ts.head? := by
    cases ts with
    | nil => cases hlen
    | cons x ts => rfl
  have hcounted := Counted.count ⟨h.count, h.established⟩ hlen now
  refine ⟨?_, ?_, ?_, ?_, ?_, ?_, ?_⟩
  · rw [hhead]
    exact h.original
  · rw [htake]
    exact h.min_mem
  · rw [htake]
    exact h.min_le
  · rw [htake]
    exact h.max_mem
  · rw [htake]
    exact h.le_max
  · rw [List.length_append]
    exact hcounted.1
  · rw [List.length_append]
    exact hcounted.2

/-- The least element of a list with one more element. -/
private theorem least_append {ts : List UInt8} {m : UInt8} (hm : m ∈ ts) (hle : ∀ x ∈ ts, m ≤ x) (ttl : UInt8) :
    (if ttl < m then ttl else m) ∈ ts ++ [ttl] ∧ ∀ x ∈ ts ++ [ttl], (if ttl < m then ttl else m) ≤ x := by
  by_cases hlt : ttl < m
  · rw [if_pos hlt]
    refine ⟨by simp, fun x hx => ?_⟩
    rcases List.mem_append.1 hx with hx | hx
    · exact UInt8.le_trans (UInt8.le_of_lt hlt) (hle x hx)
    · rw [List.mem_singleton.1 hx]
      exact UInt8.le_refl ttl
  · rw [if_neg hlt]
    refine ⟨by simp [hm], fun x hx => ?_⟩
    rcases List.mem_append.1 hx with hx | hx
    · exact hle x hx
    · rw [List.mem_singleton.1 hx]
      exact UInt8.not_lt.1 hlt

private theorem greatest_append {ts : List UInt8} {m : UInt8} (hm : m ∈ ts) (hle : ∀ x ∈ ts, x ≤ m) (ttl : UInt8) :
    (if m < ttl then ttl else m) ∈ ts ++ [ttl] ∧ ∀ x ∈ ts ++ [ttl], x ≤ (if m < ttl then ttl else m) := by
  by_cases hlt : m < ttl
  · rw [if_pos hlt]
    refine ⟨by simp, fun x hx => ?_⟩
    rcases List.mem_append.1 hx with hx | hx
    · exact UInt8.le_trans (hle x hx) (UInt8.le_of_lt hlt)
    · rw [List.mem_singleton.1 hx]
      exact UInt8.le_refl ttl
  · rw [if_neg hlt]
    refine ⟨by simp [hm], fun x hx => ?_⟩
    rcases List.mem_append.1 hx with hx | hx
    · exact hle x hx
    · rw [List.mem_singleton.1 hx]
      exact UInt8.not_lt.1 hlt

/-- Up to the tenth packet the entry takes the new TTL into account. -/
private theorem learned_learnTtl {ts : List UInt8} {e : TtlEntry} (h : Learned ts e) (hts : ∀ x ∈ ts, x ≠ 0)
    (hlen : ts.length < 10) {ttl : UInt8} (now : Int) : Learned (ts ++ [ttl]) (learnTtl (e.count now) ttl) := by
  have htake : ts.take 10 = ts := List.take_of_length_le (by omega)
  have htake' : (ts ++ [ttl]).take 10 = ts ++ [ttl] := List.take_of_length_le (by simp; omega)
  have hcounted := Counted.learnTtl ⟨h.count, h.established⟩ hlen ttl now
  obtain ⟨horig, hminm, hmin, hmaxm, hmax, -, -⟩ := h
  rw [htake] at hminm hmin hmaxm hmax
  -- no field that has been learned is zero, so the tests for zero in the code do not fire
  have hmin0 : e.minTtl ≠ 0 := hts _ hminm
  have hmax0 : e.maxTtl ≠ 0 := hts _ hmaxm
  have horig0 : e.originalTtl ≠ 0 := hts _ (List.mem_of_head? horig)
  have hmineq : (learnTtl (e.count now) ttl).minTtl = if ttl < e.minTtl then ttl else e.minTtl := by
    simp [learnTtl, TtlEntry.count, hmin0]
  have hmaxeq : (learnTtl (e.count now) ttl).maxTtl = if e.maxTtl < ttl then ttl else e.maxTtl := by
    simp [learnTtl, TtlEntry.count, hmax0]
  obtain ⟨hminm', hmin'⟩ := least_append hminm hmin ttl
  obtain ⟨hmaxm', hmax'⟩ := greatest_append hmaxm hmax ttl
  refine ⟨?_, ?_, ?_, ?_, ?_, ?_, ?_⟩
  · rw [List.head?_append, horig]
    simp [learnTtl, TtlEntry.count, horig0]
  · rw [htake', hmineq]
    exact hminm'
  · rw [htake', hmineq]
    exact hmin'
  · rw [htake', hmaxeq]
    exact hmaxm'
  · rw [htake', hmaxeq]
    exact hmax'
  · rw [List.length_append]
    exact hcounted.1
  · rw [List.length_append]
    exact hcounted.2

theorem learned_touchEntry {ts : List UInt8} {e : TtlEntry} (h : Learned ts e) (hts : ∀ x ∈ ts, x ≠ 0) (ttl : UInt8)
    (now : Int) : Learned (ts ++ [ttl]) (touchEntry e ttl now) := by
  unfold touchEntry
  by_cases hlen : 10 ≤ ts.length
  · rw [if_pos (by rw [h.established]; exact decide_eq_true hlen)]
    exact learned_count h hlen ttl now
  · rw [if_neg (by rw [h.established]; simpa using hlen)]
    exact learned_learnTtl h hts (by omega) now

/-! ### The slot of a connection -/

/-- No entry belongs to the connection. -/
def NoSlot (c : Conn) (t : TtlTable) : Prop := ∀ (i : Nat) (e : TtlEntry), t.live[i]? = some e → ¬ c.HasEntry e

/-- One entry belongs to the connection, and it is `e`. -/
def OwnEntry (c : Conn) (t : TtlTable) (e : TtlEntry) : Prop :=
  ∃ i : Nat, t.live[i]? = some e ∧ c.HasEntry e ∧ ∀ (j : Nat) (f : TtlEntry), t.live[j]? = some f → c.HasEntry f → j = i

/-- One entry belongs to the connection, and it has learned `ts`. -/
def OwnSlot (c : Conn) (t : TtlTable) (ts : List UInt8) : Prop :=
  ∃ (i : Nat) (e : TtlEntry), t.live[i]? = some e ∧ c.HasEntry e ∧ Learned ts e ∧
    ∀ (j : Nat) (f : TtlEntry), t.live[j]? = some f → c.HasEntry f → j = i

section

variable {c : Conn} {t : TtlTable} {ts : List UInt8} {e x : TtlEntry}

private theorem getElem?_setSlot {k j : Nat} {f : TtlEntry} (h : (t.setSlot k x).live[j]? = some f) :
    j = k ∧ f = x ∨ j ≠ k ∧ t.live[j]? = some f := by
  rw [live_setSlot, List.getElem?_set] at h
  split at h
  · rename_i hkj
    split at h
    · exact Or.inl ⟨hkj.symm, (Option.some.inj h).symm⟩
    · cases h
  · rename_i hkj
    exact Or.inr ⟨fun hjk => hkj hjk.symm, h⟩

private theorem getElem?_push {j : Nat} {f : TtlEntry} (hsize : t.size < maxTtlEntries)
    (h : (t.push x).live[j]? = some f) : j = t.live.length ∧ f = x ∨ t.live[j]? = some f := by
  rw [live_push hsize] at h
  rcases Nat.lt_trichotomy j t.live.length with hlt | heq | hgt
  · rw [List.getElem?_append_left hlt] at h
    exact Or.inr h
  · rw [heq, List.getElem?_concat_length] at h
    exact Or.inl ⟨heq, (Option.some.inj h).symm⟩
  · rw [List.getElem?_eq_none (by simp; omega)] at h
    cases h

theorem NoSlot.setSlot {k : Nat} (h : NoSlot c t) (hx : ¬ c.HasEntry x) : NoSlot c (t.setSlot k x) := by
  intro j f hf
  rcases getElem?_setSlot hf with ⟨-, rfl⟩ | ⟨-, hold⟩
  · exact hx
  · exact h j f hold

theorem NoSlot.push (h : NoSlot c t) (hsize : t.size < maxTtlEntries) (hx : ¬ c.HasEntry x) : NoSlot c (t.push x) := by
  intro j f hf
  rcases getElem?_push hsize hf with ⟨-, rfl⟩ | hold
  · exact hx
  · exact h j f hold

theorem NoSlot.ownEntry_setSlot {k : Nat} (h : NoSlot c t) (hk : k < t.live.length) (hx : c.HasEntry x) :
    OwnEntry c (t.setSlot k x) x := by
  refine ⟨k, ?_, hx, ?_⟩
  · rw [live_setSlot, List.getElem?_set_self hk]
  · intro j f hf hown
    rcases getElem?_setSlot hf with ⟨hjk, -⟩ | ⟨-, hold⟩
    · exact hjk
    · exact absurd hown (h j f hold)

theorem NoSlot.ownEntry_push (h : NoSlot c t) (hsize : t.size < maxTtlEntries) (hx : c.HasEntry x) :
    OwnEntry c (t.push x) x := by
  refine ⟨t.live.length, ?_, hx, ?_⟩
  · rw [live_push hsize, List.getElem?_concat_length]
  · intro j f hf hown
    rcases getElem?_push hsize hf with ⟨hj, -⟩ | hold
    · exact hj
    · exact absurd hown (h j f hold)

theorem OwnEntry.setSlot_other {k : Nat} (h : OwnEntry c t e) (hk : ∀ f, t.live[k]? = some f → ¬ c.HasEntry f)
    (hx : ¬ c.HasEntry x) : OwnEntry c (t.setSlot k x) e := by
  obtain ⟨i, hi, he, huniq⟩ := h
  have hki : k ≠ i := by
    intro hki
    rw [← hki] at hi
    exact hk e hi he
  refine ⟨i, ?_, he, ?_⟩
  · rw [live_setSlot, List.getElem?_set_ne hki]
    exact hi
  · intro j f hf hown
    rcases getElem?_setSlot hf with ⟨-, rfl⟩ | ⟨-, hold⟩
    · exact absurd hown hx
    · exact huniq j f hold hown

/-- An entry that is overwritten by one of another connection was the only one. -/
theorem OwnEntry.noSlot_setSlot {k : Nat} (h : OwnEntry c t e) (hk : t.live[k]? = some e) (hx : ¬ c.HasEntry x) :
    NoSlot c (t.setSlot k x) := by
  obtain ⟨i, -, he, huniq⟩ := h
  intro j f hf hown
  rcases getElem?_setSlot hf with ⟨-, rfl⟩ | ⟨hjk, hold⟩
  · exact hx hown
  · exact hjk ((huniq j f hold hown).trans (huniq k e hk he).symm)

theorem OwnEntry.push_other (h : OwnEntry c t e) (hsize : t.size < maxTtlEntries) (hx : ¬ c.HasEntry x) :
    OwnEntry c (t.push x) e := by
  obtain ⟨i, hi, he, huniq⟩ := h
  refine ⟨i, ?_, he, ?_⟩
  · obtain ⟨hlt, -⟩ := List.getElem?_eq_some_iff.1 hi
    rw [live_push hsize, List.getElem?_append_left hlt]
    exact hi
  · intro j f hf hown
    rcases getElem?_push hsize hf with ⟨-, rfl⟩ | hold
    · exact absurd hown hx
    · exact huniq j f hold hown

theorem OwnEntry.unique {f : TtlEntry} (h : OwnEntry c t e) (hf : f ∈ t.live) (hown : c.HasEntry f) : f = e := by
  obtain ⟨i, hi, -, huniq⟩ := h
  obtain ⟨j, hj, rfl⟩ := List.mem_iff_getElem.1 hf
  have hji := huniq j _ (List.getElem?_eq_getElem hj) hown
  subst hji
  rw [List.getElem?_eq_getElem hj] at hi
  exact Option.some.inj hi

theorem ownSlot_iff : OwnSlot c t ts ↔ ∃ e, OwnEntry c t e ∧ Learned ts e := by
  constructor
  · rintro ⟨i, e, hi, he, hts, huniq⟩
    exact ⟨e, ⟨i, hi, he, huniq⟩, hts⟩
  · rintro ⟨e, ⟨i, hi, he, huniq⟩, hts⟩
    exact ⟨i, e, hi, he, hts, huniq⟩

end

/-! ### The search for a connection -/

section

variable {c : Conn} {t : TtlTable} {p : Packet}

private theorem findTtlEntry_some (h : TtlInv t) {i : Nat} (hf : findTtlEntry t p = some i) :
    ∃ e, t.live[i]? = some e ∧ e.protocol = tcpProtocol ∧ ttlMatches p e := by
  obtain ⟨hi, hpred, -⟩ := List.findIdx?_eq_some_iff_getElem.1 hf
  have hmem : t.live[i] ∈ t.live := List.getElem_mem hi
  exact ⟨t.live[i], List.getElem?_eq_getElem hi, (h.valid _ hmem).tcp, (Bool.and_eq_true_iff.1 hpred).2⟩

theorem findTtlEntry_of_noSlot (h : TtlInv t) (h4 : p.isIpv6 = false) (hp : c.HasPacket p) (hno : NoSlot c t) :
    findTtlEntry t p = none := by
  cases hf : findTtlEntry t p with
  | none => rfl
  | some i =>
    obtain ⟨e, he, htcp, hm⟩ := findTtlEntry_some h hf
    exact absurd ((ttlMatches_hasEntry h4 htcp hp).1 hm) (hno i e he)

/-- A packet of the connection, in either direction, finds the slot of the connection. -/
theorem OwnEntry.find {e : TtlEntry} (hown : OwnEntry c t e) (h : TtlInv t) (h4 : p.isIpv6 = false)
    (hp : c.HasPacket p) : ∃ i, findTtlEntry t p = some i ∧ t.live[i]? = some e := by
  obtain ⟨i, hi, he, huniq⟩ := hown
  have htcp := (h.valid e (List.mem_of_getElem? hi)).tcp
  refine ⟨i, ?_, hi⟩
  cases hf : findTtlEntry t p with
  | none =>
    unfold findTtlEntry at hf
    rw [List.findIdx?_eq_none_iff] at hf
    have hno := hf e (List.mem_of_getElem? hi)
    rw [htcp, (ttlMatches_hasEntry h4 htcp hp).2 he] at hno
    cases hno
  | some k =>
    obtain ⟨f, hk, htcp', hm⟩ := findTtlEntry_some h hf
    rw [huniq k f hk ((ttlMatches_hasEntry h4 htcp' hp).1 hm)]

/-- What is said about a connection with an entry is what the entry says. -/
theorem OwnEntry.ttlIsReady_eq {e : TtlEntry} (hown : OwnEntry c t e) (h : TtlInv t) (h4 : p.isIpv6 = false)
    (hp : c.HasPacket p) : ttlIsReady t p = e.isEstablished := by
  obtain ⟨i, hfind, hi⟩ := hown.find h h4 hp
  unfold ttlIsReady
  rw [hfind, Option.any_some, List.getD_eq_getElem?_getD, hi, Option.getD_some]

end

/-! ### One update -/

section

variable {c : Conn} {t : TtlTable} {e : TtlEntry} {p : Packet} {ttl : UInt8} {now now' : Int}

/-- The first packet of the connection that is accepted makes its entry. -/
theorem NoSlot.created (hno : NoSlot c t) (h : TtlInv t) (h4 : p.isIpv6 = false) (hp : c.HasPacket p)
    (hret : (ttlTrackUpdate t p ttl now now').1 = 0) :
    ∃ made, OwnEntry c (ttlTrackUpdate t p ttl now now').2 (newEntry p ttl made) := by
  have hnone := findTtlEntry_of_noSlot h h4 hp hno
  rcases ttlTrackUpdate_cases t p ttl now now' with heq | ⟨i, e, hsome, -, heq⟩ | ⟨-, hsize, heq⟩ |
    ⟨i, -, -, -, hi, heq⟩
  · rw [heq] at hret
    cases hret
  · rw [hnone] at hsome
    cases hsome
  · rw [heq]
    exact ⟨now, hno.ownEntry_push hsize ((hasEntry_newEntry h4 _ _).2 hp)⟩
  · rw [heq]
    exact ⟨now', hno.ownEntry_setSlot hi ((hasEntry_newEntry h4 _ _).2 hp)⟩

/-- A later packet of the connection updates its entry. -/
theorem OwnEntry.touched (hown : OwnEntry c t e) (h : TtlInv t) (h4 : p.isIpv6 = false) (hp : c.HasPacket p)
    (htype : p.type = .ipv4Tcp ∨ p.type = .ipv6Tcp) :
    (ttlTrackUpdate t p ttl now now').1 = 0 ∧
      OwnEntry c (ttlTrackUpdate t p ttl now now').2 (touchEntry e ttl now) := by
  obtain ⟨i, hfind, hi⟩ := hown.find h h4 hp
  have hupd : ttlTrackUpdate t p ttl now now' = (0, t.setSlot i (touchEntry e ttl now)) := by
    unfold ttlTrackUpdate
    rw [if_neg (by tauto), hfind]
    simp [List.getD_eq_getElem?_getD, hi]
  obtain ⟨k, hk, he, huniq⟩ := hown
  have hik := huniq i e hi he
  subst hik
  rw [hupd]
  refine ⟨rfl, i, ?_, (hasEntry_touchEntry _ _).2 he, ?_⟩
  · obtain ⟨hlt, -⟩ := List.getElem?_eq_some_iff.1 hi
    rw [live_setSlot, List.getElem?_set_self hlt]
  · intro j f hf hownf
    rcases getElem?_setSlot hf with ⟨hj, -⟩ | ⟨-, hold⟩
    · exact hj
    · exact huniq j f hold hownf

/-- A packet of another connection finds an entry that is not the connection's. -/
private theorem other_of_found (h : TtlInv t) (h4 : p.isIpv6 = false) (hp : ¬ c.HasPacket p) {k : Nat} {f : TtlEntry}
    (hfind : findTtlEntry t p = some k) (hk : t.live[k]? = some f) : ¬ c.HasEntry f := by
  obtain ⟨f', hf', htcp, hm⟩ := findTtlEntry_some h hfind
  rw [hk] at hf'
  cases hf'
  exact not_hasEntry_of_ttlMatches h4 htcp hp hm

theorem NoSlot.other (hno : NoSlot c t) (h4 : p.isIpv6 = false) (hp : ¬ c.HasPacket p) :
    NoSlot c (ttlTrackUpdate t p ttl now now').2 := by
  have hnew := fun made => mt (hasEntry_newEntry (c := c) h4 ttl made).1 hp
  rcases ttlTrackUpdate_cases t p ttl now now' with heq | ⟨i, e, -, he, heq⟩ | ⟨-, hsize, heq⟩ |
    ⟨i, -, -, -, -, heq⟩
  · rw [heq]
    exact hno
  · rw [heq]
    exact hno.setSlot (mt (hasEntry_touchEntry _ _).1 (hno i e he))
  · rw [heq]
    exact hno.push hsize (hnew _)
  · rw [heq]
    exact hno.setSlot (hnew _)

/-- A packet of another connection leaves the entry as it is, or evicts it. -/
theorem OwnEntry.other (hown : OwnEntry c t e) (h : TtlInv t) (h4 : p.isIpv6 = false) (hp : ¬ c.HasPacket p) :
    OwnEntry c (ttlTrackUpdate t p ttl now now').2 e ∨
    (∃ i, findTtlEntry t p = none ∧ ¬ t.size < maxTtlEntries ∧ oldestLearning t.live 0 now none = some i ∧
      t.live[i]? = some e) ∧ NoSlot c (ttlTrackUpdate t p ttl now now').2 := by
  have hnew := fun made => mt (hasEntry_newEntry (c := c) h4 ttl made).1 hp
  rcases ttlTrackUpdate_cases t p ttl now now' with heq | ⟨i, f, hfind, hf, heq⟩ | ⟨-, hsize, heq⟩ |
    ⟨i, hnone, hfull, hold, hi, heq⟩
  · rw [heq]
    exact Or.inl hown
  · rw [heq]
    refine Or.inl (hown.setSlot_other ?_ ?_)
    · intro f hf
      exact other_of_found h h4 hp hfind hf
    · exact mt (hasEntry_touchEntry _ _).1 (other_of_found h h4 hp hfind hf)
  · rw [heq]
    exact Or.inl (hown.push_other hsize (hnew _))
  · rw [heq]
    have hget : t.live[i]? = some t.live[i] := List.getElem?_eq_getElem hi
    by_cases hmine : c.HasEntry t.live[i]
    · have hie : t.live[i]? = some e := by rw [hget, hown.unique (List.getElem_mem hi) hmine]
      exact Or.inr ⟨⟨i, hnone, hfull, hold, hie⟩, hown.noSlot_setSlot hie (hnew _)⟩
    · refine Or.inl (hown.setSlot_other ?_ (hnew _))
      intro f hf
      rw [hget] at hf
      cases hf
      exact hmine

end

/-! ### Whole runs -/

theorem Conn.seen_append (c : Conn) (us : List Ipv4Update) (u : Ipv4Update) :
    c.seen (us ++ [u]) = if c.HasPacket u.packet then c.seen us ++ [u.ttl] else c.seen us := by
  unfold Conn.seen
  rw [List.filter_append, List.map_append]
  by_cases hp : c.HasPacket u.packet
  · simp [hp]
  · simp [hp]

theorem Conn.seen_ne_zero (c : Conn) (us : List Ipv4Update) : ∀ x ∈ c.seen us, x ≠ 0 := by
  intro x hx
  obtain ⟨u, -, rfl⟩ := List.mem_map.1 hx
  exact u.ttl_set

/-- A table with room for one more entry accepts every packet that the parser gives for IPv4 TCP. -/
theorem Ipv4Update.accepted (u : Ipv4Update) {t : TtlTable} (hsize : t.size < maxTtlEntries) :
    (ttlTrackUpdate t u.packet u.ttl u.now u.now').1 = 0 := by
  unfold ttlTrackUpdate
  rw [if_neg fun h => h.1 u.type]
  cases findTtlEntry t u.packet with
  | some i => rfl
  | none => simp only [hsize, if_true]

theorem size_tableAfter_le (us : List Ipv4Update) : (tableAfter us).size ≤ us.length := by
  induction us using List.reverseRecOn with
  | nil => exact Nat.le_refl 0
  | append_singleton us u ih =>
    rw [tableAfter_append, List.length_append]
    exact Nat.le_trans (size_le_update (tableAfter us) u.packet u.ttl u.now u.now').2 (Nat.succ_le_succ ih)

/-- In a run of at most 1024 updates there is room for every connection. -/
private theorem size_before_lt {us pre post : List Ipv4Update} {u : Ipv4Update} (h : us.length ≤ maxTtlEntries)
    (hsplit : us = pre ++ u :: post) : (tableAfter pre).size < maxTtlEntries := by
  have hlen := congrArg List.length hsplit
  rw [List.length_append, List.length_cons] at hlen
  have hsize := size_tableAfter_le pre
  omega

theorem Conn.firstAccepted_of_length (c : Conn) {us : List Ipv4Update} (h : us.length ≤ maxTtlEntries) :
    c.FirstAccepted us := by
  intro pre u post hsplit _ _
  exact u.accepted (size_before_lt h hsplit)

theorem Conn.notEvicted_of_length (c : Conn) {us : List Ipv4Update} (h : us.length ≤ maxTtlEntries) :
    c.NotEvicted us := by
  intro pre u post hsplit i e hevict
  rw [evictedSlot, if_neg fun hfull => hfull.2 (size_before_lt h hsplit)] at hevict
  cases hevict

theorem OwnSlot.update_other {c : Conn} {t : TtlTable} {ts : List UInt8} {u : Ipv4Update} (hown : OwnSlot c t ts)
    (h : TtlInv t) (hp : ¬ c.HasPacket u.packet)
    (hkept : ∀ i e, evictedSlot t u = some i → t.live[i]? = some e → ¬ c.HasEntry e) :
    OwnSlot c (ttlTrackUpdate t u.packet u.ttl u.now u.now').2 ts := by
  obtain ⟨e, he, hlearned⟩ := ownSlot_iff.1 hown
  rcases he.other h u.ipv4 hp with hsame | ⟨⟨i, hnone, hfull, hold, hi⟩, -⟩
  · exact ownSlot_iff.2 ⟨e, hsame, hlearned⟩
  · obtain ⟨-, -, hmine, -⟩ := he
    exact absurd hmine (hkept i e (by rw [evictedSlot, if_pos ⟨hnone, hfull⟩, hold]) hi)

/-- Before its first packet a connection has no slot, afterwards it has one of its own. -/
theorem slot_tableAfter (c : Conn) (us : List Ipv4Update) (hfirst : c.FirstAccepted us) (hkept : c.NotEvicted us) :
    (c.seen us = [] → NoSlot c (tableAfter us)) ∧ (c.seen us ≠ [] → OwnSlot c (tableAfter us) (c.seen us)) := by
  induction us using List.reverseRecOn with
  | nil =>
    refine ⟨fun _ i e hi => ?_, fun h => absurd rfl h⟩
    cases hi
  | append_singleton us u ih =>
    have hsplit : us ++ [u] = us ++ u :: [] := rfl
    have hinv := ttlInv_tableAfter us
    obtain ⟨hnone, hown⟩ := ih
      (fun pre v post heq => hfirst pre v (post ++ [u]) (by rw [heq]; simp))
      (fun pre v post heq => hkept pre v (post ++ [u]) (by rw [heq]; simp))
    rw [c.seen_append, tableAfter_append]
    by_cases hp : c.HasPacket u.packet
    · rw [if_pos hp]
      refine ⟨fun h => absurd h (by simp), fun _ => ?_⟩
      by_cases hseen : c.seen us = []
      · obtain ⟨made, hmade⟩ := (hnone hseen).created hinv u.ipv4 hp (hfirst us u [] hsplit hseen hp)
        rw [hseen]
        exact ownSlot_iff.2 ⟨_, hmade, learned_newEntry _ _ _⟩
      · obtain ⟨e, he, hlearned⟩ := ownSlot_iff.1 (hown hseen)
        obtain ⟨-, htouched⟩ := he.touched hinv u.ipv4 hp (Or.inl u.type)
        exact ownSlot_iff.2 ⟨_, htouched, learned_touchEntry hlearned (c.seen_ne_zero us) _ _⟩
    · rw [if_neg hp]
      exact ⟨fun hseen => (hnone hseen).other u.ipv4 hp,
        fun hseen => (hown hseen).update_other hinv hp (hkept us u [] hsplit)⟩

/-- After any run of updates in which the first packet of the connection was accepted and its entry was not evicted,
the connection has one entry, which holds what its packets say, and it is ready from the tenth packet on. -/
theorem tableAfter_learned (c : Conn) (us : List Ipv4Update) (hseen : c.seen us ≠ []) (hfirst : c.FirstAccepted us)
    (hkept : c.NotEvicted us) :
    (∃ e ∈ (tableAfter us).live, c.HasEntry e ∧ Learned (c.seen us) e ∧
      ∀ f ∈ (tableAfter us).live, c.HasEntry f → f = e) ∧
    ∀ p : Packet, p.isIpv6 = false → c.HasPacket p →
      ttlIsReady (tableAfter us) p = decide (10 ≤ (c.seen us).length) := by
  obtain ⟨e, hown, hlearned⟩ := ownSlot_iff.1 ((slot_tableAfter c us hfirst hkept).2 hseen)
  constructor
  · have huniq := fun f hf hmine => hown.unique (f := f) hf hmine
    obtain ⟨i, hi, he, -⟩ := hown
    exact ⟨e, List.mem_of_getElem? hi, he, hlearned, huniq⟩
  · intro p h4 hp
    rw [hown.ttlIsReady_eq (ttlInv_tableAfter us) h4 hp, hlearned.established]

/-- A TCP packet from one endpoint to another. -/
def ipv4Update (src dst : Endpoint) (ttl : UInt8) (now : Int) (httl : ttl ≠ 0) : Ipv4Update where
  packet :=
    { packetInit with
      type := .ipv4Tcp
      srcIp := Addr.ofWord src.1
      dstIp := Addr.ofWord dst.1
      srcPort := src.2
      dstPort := dst.2 }
  ttl := ttl
  now := now
  now' := now
  type := rfl
  ipv4 := rfl
  src_word := rfl
  dst_word := rfl
  ttl_set := httl

def sampleConn : Conn := ⟨(2, 443), (1, 1000)⟩

/-- A packet of the connection from port 1000, one of another client with the same server, and one back. -/
def sampleRound (back : UInt8) (now : Int) (hback : back ≠ 0) : List Ipv4Update :=
  [ipv4Update (1, 1000) (2, 443) 64 now (by decide), ipv4Update (3, 1000) (2, 443) 128 now (by decide),
    ipv4Update (2, 443) (1, 1000) back now hback]

/-- Twelve packets of the connection in both directions, the last two with TTLs outside what the first ten had. -/
def sampleRun : List Ipv4Update :=
  sampleRound 57 0 (by decide) ++ sampleRound 56 1 (by decide) ++ sampleRound 57 2 (by decide) ++
    sampleRound 55 3 (by decide) ++ sampleRound 57 4 (by decide) ++
    [ipv4Update (2, 443) (1, 1000) 30 5 (by decide), ipv4Update (1, 1000) (2, 443) 255 6 (by decide)]

theorem tableAfter_learned_sample :
    sampleConn.seen sampleRun = [64, 57, 64, 56, 64, 57, 64, 55, 64, 57, 30, 255] ∧
    (∃ e ∈ (tableAfter sampleRun).live, sampleConn.HasEntry e ∧ Learned (sampleConn.seen sampleRun) e ∧
      ∀ f ∈ (tableAfter sampleRun).live, sampleConn.HasEntry f → f = e) ∧
    ∀ p : Packet, p.isIpv6 = false → sampleConn.HasPacket p →
      ttlIsReady (tableAfter sampleRun) p = decide (10 ≤ (sampleConn.seen sampleRun).length) :=
  ⟨by decide, tableAfter_learned sampleConn sampleRun (by decide)
    (sampleConn.firstAccepted_of_length (by decide)) (sampleConn.notEvicted_of_length (by decide))⟩

end GoodbyeDpi
