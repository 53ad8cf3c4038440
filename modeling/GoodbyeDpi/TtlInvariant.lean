import GoodbyeDpi.TtlTracker

/-!
# The representation invariant of the TTL table

The table is written in four ways: an entry is added, updated in place, put in the place of an evicted one, or
removed by moving the later ones down.  `ttlTrackUpdate_cases` says once what an update can do, and the invariant
follows for every state that calls can reach from `ttl_tracker_init`.
-/

namespace GoodbyeDpi

open CSem FilledArray

namespace TtlEntry

def SameEndpoints (e f : TtlEntry) : Prop :=
  e.srcIp = f.srcIp ∧ e.dstIp = f.dstIp ∧ e.srcPort = f.srcPort ∧ e.dstPort = f.dstPort

def ReversedEndpoints (e f : TtlEntry) : Prop :=
  e.srcIp = f.dstIp ∧ e.dstIp = f.srcIp ∧ e.srcPort = f.dstPort ∧ e.dstPort = f.srcPort

/-- The entries belong to different connections. -/
def Distinct (e f : TtlEntry) : Prop := ¬ e.SameEndpoints f ∧ ¬ e.ReversedEndpoints f

/-- What holds of every entry on its own. -/
structure Valid (e : TtlEntry) : Prop where
  tcp : e.protocol = tcpProtocol
  learning : e.isEstablished = false → 1 ≤ e.packetCount ∧ e.packetCount ≤ 9
  ordered : e.minTtl ≤ e.maxTtl

theorem Distinct.symm {e f : TtlEntry} (h : e.Distinct f) : f.Distinct e := by
  obtain ⟨hsame, hrev⟩ := h
  constructor
  · rintro ⟨h1, h2, h3, h4⟩
    exact hsame ⟨h1.symm, h2.symm, h3.symm, h4.symm⟩
  · rintro ⟨h1, h2, h3, h4⟩
    exact hrev ⟨h2.symm, h1.symm, h4.symm, h3.symm⟩

end TtlEntry

/-- The representation invariant. -/
structure TtlInv (t : TtlTable) : Prop where
  size_le : t.size ≤ maxTtlEntries
  valid : ∀ e ∈ t.live, e.Valid
  distinct : t.live.Pairwise TtlEntry.Distinct

/-! ### Entries -/

theorem touchEntry_endpoints (e : TtlEntry) (ttl : UInt8) (now : Int) :
    (touchEntry e ttl now).srcIp = e.srcIp ∧ (touchEntry e ttl now).dstIp = e.dstIp ∧
      (touchEntry e ttl now).srcPort = e.srcPort ∧ (touchEntry e ttl now).dstPort = e.dstPort ∧
      (touchEntry e ttl now).protocol = e.protocol := by
  unfold touchEntry
  split <;> exact ⟨rfl, rfl, rfl, rfl, rfl⟩

theorem Distinct.touchEntry_left {e f : TtlEntry} (h : e.Distinct f) (ttl : UInt8) (now : Int) :
    (touchEntry e ttl now).Distinct f := by
  obtain ⟨h1, h2, h3, h4, -⟩ := touchEntry_endpoints e ttl now
  unfold TtlEntry.Distinct TtlEntry.SameEndpoints TtlEntry.ReversedEndpoints
  rw [h1, h2, h3, h4]
  exact h

/-- While an entry learns, its minimum does not pass its maximum: a minimum that is replaced becomes the new TTL,
which the maximum then covers. -/
theorem learnTtl_ordered {e : TtlEntry} (ttl : UInt8) (h : e.minTtl ≤ e.maxTtl) :
    (learnTtl e ttl).minTtl ≤ (learnTtl e ttl).maxTtl := by
  unfold learnTtl
  simp only [UInt8.le_iff_toNat_le, UInt8.lt_iff_toNat_lt, ← UInt8.toNat_inj] at *
  split_ifs <;> simp at * <;> omega

theorem valid_touchEntry {e : TtlEntry} (h : e.Valid) (ttl : UInt8) (now : Int) : (touchEntry e ttl now).Valid := by
  refine ⟨?_, ?_, ?_⟩
  · rw [(touchEntry_endpoints e ttl now).2.2.2.2]
    exact h.tcp
  · intro hest
    unfold touchEntry at hest ⊢
    split at hest
    · rename_i hyes
      exact absurd hyes (by rw [show e.isEstablished = false from hest]; simp)
    · -- it was learning with at most nine packets, and the tenth would have established it
      rename_i hno
      obtain ⟨h1, h9⟩ := h.learning (by simpa using hno)
      rw [if_neg hno]
      have hlt : ¬ ttlLearningPackets ≤ e.packetCount + 1 := of_decide_eq_false hest
      change 1 ≤ e.packetCount + 1 ∧ e.packetCount + 1 ≤ 9
      unfold ttlLearningPackets at hlt
      simp only [UInt32.le_iff_toNat_le, UInt32.toNat_add] at *
      simp at *
      omega
  · unfold touchEntry
    split
    · exact h.ordered
    · exact learnTtl_ordered ttl h.ordered

theorem valid_newEntry (p : Packet) (ttl : UInt8) (now : Int) : (newEntry p ttl now).Valid where
  tcp := rfl
  learning := by
    intro _
    change (1 : UInt32) ≤ 1 ∧ (1 : UInt32) ≤ 9
    decide
  ordered := Nat.le_refl _

/-- An entry with the endpoints of the packet matches it. -/
theorem ttlMatches_of_endpoints {e : TtlEntry} {p : Packet} {ttl : UInt8} {now : Int} (htcp : e.protocol = tcpProtocol)
    (h : e.SameEndpoints (newEntry p ttl now) ∨ e.ReversedEndpoints (newEntry p ttl now)) : ttlMatches p e := by
  unfold TtlEntry.SameEndpoints TtlEntry.ReversedEndpoints newEntry at h
  unfold ttlMatches
  by_cases h6 : p.isIpv6
  · simp only [h6, ↓reduceIte] at h ⊢
    rcases h with ⟨h1, h2, h3, h4⟩ | ⟨h1, h2, h3, h4⟩ <;> simp [h1, h2, h3, h4, htcp]
  · simp only [h6, Bool.false_eq_true, ↓reduceIte] at h ⊢
    rcases h with ⟨h1, h2, h3, h4⟩ | ⟨h1, h2, h3, h4⟩ <;> simp [h1, h2, h3, h4, htcp, Addr.ofWord]

/-! ### The search -/

theorem findTtlEntry_none {t : TtlTable} {p : Packet} (hinv : TtlInv t) (h : findTtlEntry t p = none)
    (ttl : UInt8) (now : Int) : ∀ e ∈ t.live, e.Distinct (newEntry p ttl now) := by
  intro e he
  have hno : (e.protocol != 0 && ttlMatches p e) = false := by
    unfold findTtlEntry at h
    rw [List.findIdx?_eq_none_iff] at h
    exact h e he
  have htcp := (hinv.valid e he).tcp
  have hmatch : ttlMatches p e = false := by
    rw [htcp] at hno
    simpa [tcpProtocol] using hno
  constructor
  · intro hsame
    have := ttlMatches_of_endpoints htcp (Or.inl hsame)
    rw [hmatch] at this
    cases this
  · intro hrev
    have := ttlMatches_of_endpoints htcp (Or.inr hrev)
    rw [hmatch] at this
    cases this

/-- The entry that makes room is still learning. -/
theorem oldestLearning_learning {es : List TtlEntry} {k n : Nat} {oldest : Int} {found : Option Nat}
    (h : oldestLearning es n oldest found = some k) :
    found = some k ∨ ∃ e, es[k - n]? = some e ∧ n ≤ k ∧ e.isEstablished = false := by
  induction es generalizing n oldest found with
  | nil => exact Or.inl h
  | cons e es ih =>
    have hlater : ∀ {oldest found}, oldestLearning es (n + 1) oldest found = some k →
        found = some k ∨ ∃ f, (e :: es)[k - n]? = some f ∧ n ≤ k ∧ f.isEstablished = false := by
      intro oldest found h
      rcases ih h with heq | ⟨f, hf, hle, hlearning⟩
      · exact Or.inl heq
      · refine Or.inr ⟨f, ?_, by omega, hlearning⟩
        rw [show k - n = (k - (n + 1)) + 1 by omega, List.getElem?_cons_succ]
        exact hf
    unfold oldestLearning at h
    split at h
    · rename_i hnew
      rcases hlater h with heq | hfound
      · have hk : n = k := Option.some.inj heq
        rw [Bool.and_eq_true, Bool.not_eq_true'] at hnew
        exact Or.inr ⟨e, by simp [hk], Nat.le_of_eq hk, hnew.1⟩
      · exact Or.inr hfound
    · exact hlater h

/-! ### One update -/

/-- What an update can do: nothing, or one of the three ways to write a slot. -/
theorem ttlTrackUpdate_cases (t : TtlTable) (p : Packet) (ttl : UInt8) (now now' : Int) :
    ttlTrackUpdate t p ttl now now' = (-1, t) ∨
    (∃ i e, findTtlEntry t p = some i ∧ t.live[i]? = some e ∧
      ttlTrackUpdate t p ttl now now' = (0, t.setSlot i (touchEntry e ttl now))) ∨
    (findTtlEntry t p = none ∧ t.size < maxTtlEntries ∧
      ttlTrackUpdate t p ttl now now' = (0, t.push (newEntry p ttl now))) ∨
    (∃ i, findTtlEntry t p = none ∧ ¬ t.size < maxTtlEntries ∧ oldestLearning t.live 0 now none = some i ∧
      i < t.live.length ∧ ttlTrackUpdate t p ttl now now' = (0, t.setSlot i (newEntry p ttl now'))) := by
  unfold ttlTrackUpdate
  split
  · exact Or.inl rfl
  · cases hfind : findTtlEntry t p with
    | some i =>
      obtain ⟨hi, -, -⟩ := List.findIdx?_eq_some_iff_getElem.1 hfind
      refine Or.inr (Or.inl ⟨i, t.live[i], rfl, List.getElem?_eq_getElem hi, ?_⟩)
      simp [List.getD_eq_getElem?_getD, List.getElem?_eq_getElem hi]
    | none =>
      by_cases hsize : t.size < maxTtlEntries
      · exact Or.inr (Or.inr (Or.inl ⟨rfl, hsize, if_pos hsize⟩))
      · rw [if_neg hsize]
        cases hold : oldestLearning t.live 0 now none with
        | none => exact Or.inl rfl
        | some i =>
          rcases oldestLearning_learning hold with h | ⟨e, he, -, -⟩
          · cases h
          · have hi : i < t.live.length := (List.getElem?_eq_some_iff.1 he).1
            exact Or.inr (Or.inr (Or.inr ⟨i, rfl, hsize, rfl, hi, rfl⟩))

theorem size_le_update (t : TtlTable) (p : Packet) (ttl : UInt8) (now now' : Int) :
    t.size ≤ (ttlTrackUpdate t p ttl now now').2.size ∧ (ttlTrackUpdate t p ttl now now').2.size ≤ t.size + 1 := by
  rcases ttlTrackUpdate_cases t p ttl now now' with heq | ⟨i, e, -, -, heq⟩ | ⟨-, -, heq⟩ | ⟨i, -, -, -, -, heq⟩
  · rw [heq]
    exact ⟨Nat.le_refl _, Nat.le_succ _⟩
  · rw [heq]
    exact ⟨Nat.le_refl _, Nat.le_succ _⟩
  · rw [heq]
    exact ⟨Nat.le_succ _, Nat.le_refl _⟩
  · rw [heq]
    exact ⟨Nat.le_refl _, Nat.le_succ _⟩

private theorem pairwise_set {l : List TtlEntry} {i : Nat} {x : TtlEntry} (h : l.Pairwise TtlEntry.Distinct)
    (hx : ∀ j e, l[j]? = some e → j ≠ i → e.Distinct x) : (l.set i x).Pairwise TtlEntry.Distinct := by
  rw [List.pairwise_iff_getElem] at h ⊢
  intro j k hj hk hjk
  -- at most one of the two positions is the one that is overwritten
  rw [List.length_set] at hj hk
  rw [List.getElem_set, List.getElem_set]
  by_cases hij : i = j
  · rw [if_pos hij, if_neg (by omega)]
    exact (hx k l[k] (List.getElem?_eq_getElem hk) (by omega)).symm
  · rw [if_neg hij]
    by_cases hik : i = k
    · rw [if_pos hik]
      exact hx j l[j] (List.getElem?_eq_getElem hj) (by omega)
    · rw [if_neg hik]
      exact h j k hj hk hjk

private theorem distinct_of_ne {l : List TtlEntry} (h : l.Pairwise TtlEntry.Distinct) {i j : Nat} {e f : TtlEntry}
    (hi : l[i]? = some e) (hj : l[j]? = some f) (hij : j ≠ i) : f.Distinct e := by
  obtain ⟨hi', rfl⟩ := List.getElem?_eq_some_iff.1 hi
  obtain ⟨hj', rfl⟩ := List.getElem?_eq_some_iff.1 hj
  rw [List.pairwise_iff_getElem] at h
  rcases Nat.lt_or_gt_of_ne hij with hlt | hgt
  · exact h j i hj' hi' hlt
  · exact (h i j hi' hj' hgt).symm

theorem TtlInv.setSlot {t : TtlTable} (h : TtlInv t) {i : Nat} {x : TtlEntry} (hx : x.Valid)
    (hd : ∀ j e, t.live[j]? = some e → j ≠ i → e.Distinct x) : TtlInv (t.setSlot i x) where
  size_le := h.size_le
  valid := by
    rw [live_setSlot]
    intro e he
    rcases List.mem_or_eq_of_mem_set he with hmem | rfl
    · exact h.valid e hmem
    · exact hx
  distinct := by
    rw [live_setSlot]
    exact pairwise_set h.distinct hd

theorem TtlInv.push {t : TtlTable} (h : TtlInv t) (hsize : t.size < maxTtlEntries) {x : TtlEntry} (hx : x.Valid)
    (hd : ∀ e ∈ t.live, e.Distinct x) : TtlInv (t.push x) where
  size_le := hsize
  valid := by
    rw [live_push hsize]
    intro e he
    rcases List.mem_append.1 he with hmem | hmem
    · exact h.valid e hmem
    · rw [List.mem_singleton.1 hmem]
      exact hx
  distinct := by
    rw [live_push hsize, List.pairwise_append]
    refine ⟨h.distinct, List.pairwise_singleton _ _, ?_⟩
    intro e he f hf
    rw [List.mem_singleton.1 hf]
    exact hd e he

theorem TtlInv.update {t : TtlTable} (h : TtlInv t) (p : Packet) (ttl : UInt8) (now now' : Int) :
    TtlInv (ttlTrackUpdate t p ttl now now').2 := by
  rcases ttlTrackUpdate_cases t p ttl now now' with heq | ⟨i, e, -, he, heq⟩ | ⟨hnone, hsize, heq⟩ |
    ⟨i, hnone, -, -, -, heq⟩
  · rw [heq]
    exact h
  · rw [heq]
    apply h.setSlot (valid_touchEntry (h.valid e (List.mem_of_getElem? he)) ttl now)
    intro j f hf hji
    exact (Distinct.touchEntry_left (distinct_of_ne h.distinct he hf hji).symm ttl now).symm
  · rw [heq]
    exact h.push hsize (valid_newEntry p ttl now) (findTtlEntry_none h hnone ttl now)
  · rw [heq]
    apply h.setSlot (valid_newEntry p ttl now')
    intro j f hf _
    exact findTtlEntry_none h hnone ttl now' f (List.mem_of_getElem? hf)

/-! ### Expiry -/

/-- The loop keeps the entries before `i` and filters the rest. -/
theorem cleanupLoop_live (now : Int) (n i removed : Nat) (t : TtlTable) (hsize : t.size = i + n)
    (hle : t.size ≤ maxTtlEntries) :
    (cleanupLoop now n i removed t).2.live = t.live.take i ++ (t.live.drop i).filter (!ttlExpired now ·) ∧
      (cleanupLoop now n i removed t).2.size ≤ t.size := by
  have hlive := length_live hle
  induction n generalizing i removed t with
  | zero =>
    rw [cleanupLoop, List.drop_eq_nil_of_le (by omega), List.take_of_length_le (by omega)]
    simp
  | succ n ih =>
    have hi : i < t.live.length := by omega
    have hget : t.slots.getD i TtlEntry.zero = t.live[i] := by
      rw [List.getD_eq_getElem?_getD, ← getElem?_live (by omega), List.getElem?_eq_getElem hi, Option.getD_some]
    rw [cleanupLoop, hget, List.drop_eq_getElem_cons hi, List.filter_cons]
    by_cases hexp : ttlExpired now t.live[i]
    · -- the induction is on the entries to go: a removal takes one away and keeps the index
      have hrm := live_removeAt (show i < t.size by omega) hle
      have hsz : (t.removeAt i).size = t.size - 1 := rfl
      obtain ⟨hl, hs⟩ := ih i (removed + 1) (t.removeAt i) (by omega) (by omega) (length_live (by omega))
      rw [if_pos hexp, hl, hrm, List.eraseIdx_eq_take_drop_succ]
      refine ⟨?_, by omega⟩
      have htake : (t.live.take i).length = i := by rw [List.length_take]; omega
      rw [List.take_append_of_le_length (by omega), List.take_take, Nat.min_self,
        List.drop_append_of_le_length (by omega), List.drop_eq_nil_of_le (by omega), List.nil_append]
      simp [hexp]
    · obtain ⟨hl, hs⟩ := ih (i + 1) removed t (by omega) hle hlive
      have hkeep : (!ttlExpired now t.live[i]) = true := by simpa using hexp
      rw [if_neg hexp, hl, if_pos hkeep, List.take_succ_eq_append_getElem hi, List.append_assoc, List.singleton_append]
      exact ⟨rfl, hs⟩

theorem live_cleanupExpired {t : TtlTable} (h : t.size ≤ maxTtlEntries) (now : Int) :
    (ttlTrackerCleanupExpired t now).2.live = t.live.filter (!ttlExpired now ·) ∧
      (ttlTrackerCleanupExpired t now).2.size ≤ t.size := by
  have hloop := cleanupLoop_live now t.size 0 0 t (by omega) h
  rwa [List.take_zero, List.nil_append, List.drop_zero] at hloop

theorem TtlInv.cleanupExpired {t : TtlTable} (h : TtlInv t) (now : Int) :
    TtlInv (ttlTrackerCleanupExpired t now).2 := by
  obtain ⟨hlive, hsize⟩ := live_cleanupExpired h.size_le now
  refine ⟨Nat.le_trans hsize h.size_le, ?_, ?_⟩
  · rw [hlive]
    intro e he
    exact h.valid e (List.mem_of_mem_filter he)
  · rw [hlive]
    exact h.distinct.filter _

/-! ### Reachable states -/

theorem ttlInv_init : TtlInv ttlTrackerInit where
  size_le := Nat.zero_le _
  valid := by
    intro e he
    cases he
  distinct := List.Pairwise.nil

theorem TtlInv.step {t : TtlTable} (h : TtlInv t) (op : TtlOp) : TtlInv (ttlStep t op) := by
  cases op with
  | update p ttl now now' => exact h.update p ttl now now'
  | cleanupExpired now => exact h.cleanupExpired now

theorem TtlInv.foldl {t : TtlTable} (h : TtlInv t) (ops : List TtlOp) : TtlInv (ops.foldl ttlStep t) := by
  induction ops generalizing t with
  | nil => exact h
  | cons op ops ih => exact ih (h.step op)

/-- The invariant holds in every state that calls can reach from `ttl_tracker_init`. -/
theorem ttlRun_inv (ops : List TtlOp) : TtlInv (ttlRun ops) := ttlInv_init.foldl ops

end GoodbyeDpi
