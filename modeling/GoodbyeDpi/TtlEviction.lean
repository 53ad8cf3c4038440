import GoodbyeDpi.TtlInvariant
import GoodbyeDpi.RunningMin

/-!
# Eviction from the TTL table

A new connection that finds the table full takes the place of the connection that has been silent longest among those
that are still learning, and is refused where there is none.  An established entry is out of reach of every update.
-/

namespace GoodbyeDpi

open CSem FilledArray RunningMin

/-- The loop of `ttl_track_update` over a full table is a running minimum of the times last seen. -/
theorem oldestLearning_eq_search (es : List TtlEntry) (n : Nat) (oldestTime : Int) (found : Option Nat) :
    oldestLearning es n oldestTime found = search (·.lastSeen) (!·.isEstablished) es n oldestTime found := by
  induction es generalizing n oldestTime found with
  | nil => rfl
  | cons e es ih =>
    rw [oldestLearning, search]
    split
    · exact ih _ _ _
    · exact ih _ _ _

/-- Slot `i` is the first of the slots still learning that were last seen at the earliest time. -/
structure IsVictim (t : TtlTable) (i : Nat) : Prop where
  learning : ∃ e, t.slots[i]? = some e ∧ e.isEstablished = false
  oldest : ∀ e, t.slots[i]? = some e → ∀ f ∈ t.slots, f.isEstablished = false → e.lastSeen ≤ f.lastSeen
  first : ∀ e, t.slots[i]? = some e →
    ∀ j f, j < i → t.slots[j]? = some f → f.isEstablished = false → e.lastSeen < f.lastSeen

/-- Some slot that is still learning was last seen before `now`. -/
def HasOlderLearning (t : TtlTable) (now : Int) : Prop := ∃ e ∈ t.slots, e.isEstablished = false ∧ e.lastSeen < now

/-- What an established entry keeps, `e` before and `e'` after. -/
structure KeepsLearned (e e' : TtlEntry) : Prop where
  endpoints : e'.SameEndpoints e
  protocol : e'.protocol = e.protocol
  originalTtl : e'.originalTtl = e.originalTtl
  minTtl : e'.minTtl = e.minTtl
  maxTtl : e'.maxTtl = e.maxTtl
  ttlDelta : e'.ttlDelta = e.ttlDelta
  isEstablished : e'.isEstablished = e.isEstablished

theorem KeepsLearned.refl (e : TtlEntry) : KeepsLearned e e := ⟨⟨rfl, rfl, rfl, rfl⟩, rfl, rfl, rfl, rfl, rfl, rfl⟩

theorem keepsLearned_touchEntry {e : TtlEntry} (h : e.isEstablished) (ttl : UInt8) (now : Int) :
    KeepsLearned e (touchEntry e ttl now) := by
  unfold touchEntry
  rw [if_pos h]
  exact ⟨⟨rfl, rfl, rfl, rfl⟩, rfl, rfl, rfl, rfl, rfl, rfl⟩

/-! ### The victim -/

section

variable {t : TtlTable} {now : Int}

theorem isVictim_of_oldestLearning (hfull : t.size = maxTtlEntries) {i : Nat}
    (h : oldestLearning t.live 0 now none = some i) : IsVictim t i := by
  rw [oldestLearning_eq_search, live_eq_slots hfull] at h
  obtain ⟨e, he⟩ := isFirstMin_of_search h
  have heq : ∀ f, t.slots[i]? = some f → f = e := by
    intro f hf
    rw [he.get] at hf
    exact (Option.some.inj hf).symm
  refine ⟨⟨e, he.get, by simpa using he.of_kind⟩, ?_, ?_⟩
  · intro e' he' f hf hlearning
    rw [heq e' he']
    exact he.least f hf (by simpa using hlearning)
  · intro e' he' j f hj hf hlearning
    rw [heq e' he']
    exact he.first j f hj hf (by simpa using hlearning)

theorem oldestLearning_eq_none_iff (hfull : t.size = maxTtlEntries) :
    oldestLearning t.live 0 now none = none ↔ ¬ HasOlderLearning t now := by
  rw [oldestLearning_eq_search, live_eq_slots hfull, search_eq_none_iff]
  unfold HasOlderLearning
  simp

end

/-! ### Established entries -/

/-- No update writes the slot of an established entry, except to count a packet of its own. -/
theorem keepsLearned_update {t : TtlTable} {i : Nat} {e : TtlEntry} (he : t.live[i]? = some e) (hest : e.isEstablished)
    (p : Packet) (ttl : UInt8) (now now' : Int) :
    ∃ e', (ttlTrackUpdate t p ttl now now').2.live[i]? = some e' ∧ KeepsLearned e e' := by
  have hi : i < t.live.length := (List.getElem?_eq_some_iff.1 he).1
  rcases ttlTrackUpdate_cases t p ttl now now' with heq | ⟨k, f, -, hf, heq⟩ | ⟨-, hsize, heq⟩ |
    ⟨k, -, -, hold, -, heq⟩
  · rw [heq]
    exact ⟨e, he, .refl e⟩
  · rw [heq]
    rw [live_setSlot]
    by_cases hki : k = i
    · subst hki
      rw [he] at hf
      cases hf
      exact ⟨_, List.getElem?_set_self hi, keepsLearned_touchEntry hest ttl now⟩
    · exact ⟨e, by rw [List.getElem?_set_ne hki, he], .refl e⟩
  · rw [heq]
    refine ⟨e, ?_, .refl e⟩
    rw [live_push hsize, List.getElem?_append_left hi]
    exact he
  · -- the entry that makes room is still learning, so it is another one
    rw [heq]
    have hki : k ≠ i := by
      rintro rfl
      rcases oldestLearning_learning hold with h | ⟨f, hf, -, hlearning⟩
      · cases h
      · rw [Nat.sub_zero, he] at hf
        cases hf
        rw [hest] at hlearning
        cases hlearning
    exact ⟨e, by rw [live_setSlot, List.getElem?_set_ne hki, he], .refl e⟩

/-! ### A full table -/

/-- An update for a new connection on a full table replaces the victim and nothing else, or is refused without effect;
and no update of any table changes what an established entry has learned. -/
theorem ttlTrackUpdate_evicts (t : TtlTable) (p : Packet) (ttl : UInt8) (now : Int) :
    (t.size = maxTtlEntries → (p.type = .ipv4Tcp ∨ p.type = .ipv6Tcp) → findTtlEntry t p = none →
      (HasOlderLearning t now → ∃ i, IsVictim t i ∧
        (ttlTrackUpdate t p ttl now now).1 = 0 ∧
        (ttlTrackUpdate t p ttl now now).2.size = t.size ∧
        (ttlTrackUpdate t p ttl now now).2.slots[i]? = some (newEntry p ttl now) ∧
        ∀ j, j ≠ i → (ttlTrackUpdate t p ttl now now).2.slots[j]? = t.slots[j]?) ∧
      (¬ HasOlderLearning t now → ttlTrackUpdate t p ttl now now = (-1, t))) ∧
    ∀ (now' : Int) (i : Nat) (e : TtlEntry), t.live[i]? = some e → e.isEstablished →
      ∃ e', (ttlTrackUpdate t p ttl now now').2.live[i]? = some e' ∧ KeepsLearned e e' := by
  refine ⟨fun hfull htype hnew => ?_, fun now' i e he hest => keepsLearned_update he hest p ttl now now'⟩
  have htracked : ¬ (p.type ≠ .ipv4Tcp ∧ p.type ≠ .ipv6Tcp) := by tauto
  have hroom : ¬ t.size < maxTtlEntries := by omega
  unfold ttlTrackUpdate
  rw [if_neg htracked, hnew]
  simp only
  rw [if_neg hroom]
  cases hold : oldestLearning t.live 0 now none with
  | none =>
    have hnone := (oldestLearning_eq_none_iff hfull).1 hold
    exact ⟨fun hsome => absurd hsome hnone, fun _ => rfl⟩
  | some i =>
    have hsome : HasOlderLearning t now := by
      by_contra hno
      rw [(oldestLearning_eq_none_iff hfull).2 hno] at hold
      cases hold
    have hvictim := isVictim_of_oldestLearning hfull hold
    obtain ⟨e, he, -⟩ := hvictim.learning
    have hi : i < t.slots.length := (List.getElem?_eq_some_iff.1 he).1
    refine ⟨fun _ => ⟨i, hvictim, rfl, rfl, List.getElem?_set_self hi, fun j hj => ?_⟩, fun hno => absurd hsome hno⟩
    exact List.getElem?_set_ne hj.symm

/-- A table full of connections of one host that were last seen at time 5. -/
def fullTable : TtlTable where
  slots := List.replicate maxTtlEntries { TtlEntry.zero with protocol := tcpProtocol, lastSeen := 5, packetCount := 1 }
  size := maxTtlEntries
  length_slots := List.length_replicate

def newSegment : Packet := { packetInit with type := .ipv4Tcp, srcPort := 1000, dstPort := 443 }

theorem ttlTrackUpdate_evicts_first :
    ∃ i, IsVictim fullTable i ∧
      (ttlTrackUpdate fullTable newSegment 64 6 6).1 = 0 ∧
      (ttlTrackUpdate fullTable newSegment 64 6 6).2.size = fullTable.size ∧
      (ttlTrackUpdate fullTable newSegment 64 6 6).2.slots[i]? = some (newEntry newSegment 64 6) ∧
      ∀ j, j ≠ i → (ttlTrackUpdate fullTable newSegment 64 6 6).2.slots[j]? = fullTable.slots[j]? := by
  refine ((ttlTrackUpdate_evicts fullTable newSegment 64 6).1 rfl (Or.inl rfl) ?_).1 ?_
  · unfold findTtlEntry
    rw [live_eq_slots rfl, List.findIdx?_eq_none_iff]
    intro e he
    rw [List.eq_of_mem_replicate he]
    rfl
  · exact ⟨_, List.mem_replicate.2 ⟨by decide, rfl⟩, rfl, by decide⟩

end GoodbyeDpi
