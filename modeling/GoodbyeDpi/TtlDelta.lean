import GoodbyeDpi.TtlLearning

/-!
# The TTL delta of a connection

Runs of updates with IPv4 packets of any kind and any TTL, zero included, over any number of connections and through
any number of evictions.  Beside the table runs the list of the TTLs that it has recorded for one connection since it
last had no entry for it.  The delta that `ttl_get_delta` reports is that of the tenth of them, modulo 256, and its
other end is the first of the ten that is not zero.
-/

namespace GoodbyeDpi

open CSem FilledArray

/-- A call of `ttl_track_update` with an IPv4 packet. -/
structure Ipv4Call where
  packet : Packet
  ttl : UInt8
  now : Int
  now' : Int
  ipv4 : packet.isIpv6 = false

def Ipv4Call.op (u : Ipv4Call) : TtlOp := .update u.packet u.ttl u.now u.now'

/-- The table after a run of calls. -/
def tableOf (us : List Ipv4Call) : TtlTable := ttlRun (us.map Ipv4Call.op)

namespace Conn

variable (c : Conn)

instance (e : TtlEntry) : Decidable (c.HasEntry e) := inferInstanceAs (Decidable (c.Joins _ _))

/-- The TTLs recorded for the connection after one more call, which made `r` of the table: a packet of the connection
that was accepted is recorded, and with its entry the connection loses its record. -/
def recordCall (ts : List UInt8) (u : Ipv4Call) (r : Int × TtlTable) : List UInt8 :=
  if c.HasPacket u.packet ∧ r.1 = 0 then ts ++ [u.ttl] else if ∃ e ∈ r.2.live, c.HasEntry e then ts else []

def recordStep (s : TtlTable × List UInt8) (u : Ipv4Call) : TtlTable × List UInt8 :=
  let r := ttlTrackUpdate s.1 u.packet u.ttl u.now u.now'
  (r.2, c.recordCall s.2 u r)

/-- The TTLs observed for the connection, since it last had no entry. -/
def observed (us : List Ipv4Call) : List UInt8 := (us.foldl c.recordStep (ttlTrackerInit, [])).2

/-- The connection has an established entry. -/
def Established (t : TtlTable) : Prop := ∃ e ∈ t.live, c.HasEntry e ∧ e.isEstablished

end Conn

/-- The first TTL that is not zero. -/
def firstSet (ts : List UInt8) : UInt8 := (ts.find? (· ≠ 0)).getD 0

/-- The entry holds the count and the delta of the TTLs `ts`. -/
structure DeltaOf (ts : List UInt8) (e : TtlEntry) : Prop where
  counted : Counted ts.length e
  original : e.originalTtl = firstSet (ts.take 10)
  delta : e.ttlDelta = firstSet (ts.take 10) - (ts.take 10).getLastD 0

/-! ### One entry -/

theorem firstSet_append (ts : List UInt8) (ttl : UInt8) :
    firstSet (ts ++ [ttl]) = if firstSet ts = 0 then ttl else firstSet ts := by
  induction ts with
  | nil =>
    by_cases h : ttl = 0
    · simp [firstSet, h]
    · simp [firstSet, h]
  | cons x ts ih =>
    by_cases h : x = 0
    · simpa [firstSet, h] using ih
    · simp [firstSet, h]

theorem firstSet_eq_zero_iff {ts : List UInt8} : firstSet ts = 0 ↔ ∀ x ∈ ts, x = 0 := by
  induction ts with
  | nil => simp [firstSet]
  | cons x ts ih =>
    by_cases h : x = 0
    · simpa [firstSet, h] using ih
    · simp [firstSet, h]

theorem firstSet_singleton (ttl : UInt8) : firstSet [ttl] = ttl := firstSet_append [] ttl

theorem deltaOf_newEntry (p : Packet) (ttl : UInt8) (now : Int) : DeltaOf [ttl] (newEntry p ttl now) where
  counted := ⟨rfl, rfl⟩
  original := (firstSet_singleton ttl).symm
  delta := by
    change 0 = firstSet [ttl] - ttl
    rw [firstSet_singleton, UInt8.sub_self]

theorem DeltaOf.touchEntry {ts : List UInt8} {e : TtlEntry} (h : DeltaOf ts e) (ttl : UInt8) (now : Int) :
    DeltaOf (ts ++ [ttl]) (touchEntry e ttl now) := by
  unfold GoodbyeDpi.touchEntry
  by_cases hlen : 10 ≤ ts.length
  · have htake : (ts ++ [ttl]).take 10 = ts.take 10 := List.take_append_of_le_length hlen
    have hcounted := h.counted.count hlen now
    rw [if_pos (by rw [h.counted.2]; exact decide_eq_true hlen)]
    refine ⟨by rw [List.length_append]; exact hcounted, ?_, ?_⟩
    · rw [htake]
      exact h.original
    · rw [htake]
      exact h.delta
  · have htake : ts.take 10 = ts := List.take_of_length_le (by omega)
    have htake' : (ts ++ [ttl]).take 10 = ts ++ [ttl] := List.take_of_length_le (by simp; omega)
    have hcounted := h.counted.learnTtl (by omega) ttl now
    have horig := h.original
    rw [htake] at horig
    rw [if_neg (by rw [h.counted.2]; simpa using hlen)]
    refine ⟨by rw [List.length_append]; exact hcounted, ?_, ?_⟩
    · change (if e.originalTtl = 0 then ttl else e.originalTtl) = _
      rw [htake', firstSet_append, horig]
    · change (if e.originalTtl = 0 then ttl else e.originalTtl) - ttl = _
      rw [htake', firstSet_append, horig, List.getLastD_concat]

/-! ### Whole runs -/

/-- The connection has no entry and no record, or one entry that agrees with its record. -/
def Recorded (c : Conn) (t : TtlTable) (ts : List UInt8) : Prop :=
  ts = [] ∧ NoSlot c t ∨ ts ≠ [] ∧ ∃ e, OwnEntry c t e ∧ DeltaOf ts e

private theorem not_exists_of_noSlot {c : Conn} {t : TtlTable} (h : NoSlot c t) : ¬ ∃ e ∈ t.live, c.HasEntry e := by
  rintro ⟨e, he, hown⟩
  obtain ⟨i, hi, rfl⟩ := List.mem_iff_getElem.1 he
  exact h i _ (List.getElem?_eq_getElem hi) hown

private theorem exists_of_ownEntry {c : Conn} {t : TtlTable} {e : TtlEntry} (h : OwnEntry c t e) :
    ∃ e ∈ t.live, c.HasEntry e := by
  obtain ⟨i, hi, he, -⟩ := h
  exact ⟨e, List.mem_of_getElem? hi, he⟩

/-- An update that is refused changes nothing. -/
theorem ttlTrackUpdate_refused {t : TtlTable} {p : Packet} {ttl : UInt8} {now now' : Int}
    (h : (ttlTrackUpdate t p ttl now now').1 ≠ 0) : (ttlTrackUpdate t p ttl now now').2 = t := by
  rcases ttlTrackUpdate_cases t p ttl now now' with heq | ⟨i, e, -, -, heq⟩ | ⟨-, -, heq⟩ | ⟨i, -, -, -, -, heq⟩
  · rw [heq]
  · exact absurd (by rw [heq]) h
  · exact absurd (by rw [heq]) h
  · exact absurd (by rw [heq]) h

theorem ttlTrackUpdate_tracked {t : TtlTable} {p : Packet} {ttl : UInt8} {now now' : Int}
    (h : (ttlTrackUpdate t p ttl now now').1 = 0) : p.type = .ipv4Tcp ∨ p.type = .ipv6Tcp := by
  unfold ttlTrackUpdate at h
  split at h
  · cases h
  · tauto

theorem Recorded.step {c : Conn} {t : TtlTable} {ts : List UInt8} (hrec : Recorded c t ts) (h : TtlInv t)
    (u : Ipv4Call) : Recorded c (c.recordStep (t, ts) u).1 (c.recordStep (t, ts) u).2 := by
  unfold Conn.recordStep Conn.recordCall
  simp only
  by_cases hp : c.HasPacket u.packet
  · by_cases hret : (ttlTrackUpdate t u.packet u.ttl u.now u.now').1 = 0
    · rw [if_pos ⟨hp, hret⟩]
      refine Or.inr ⟨by simp, ?_⟩
      rcases hrec with ⟨rfl, hno⟩ | ⟨-, e, hown, hdelta⟩
      · obtain ⟨made, hmade⟩ := hno.created h u.ipv4 hp hret
        exact ⟨_, hmade, deltaOf_newEntry _ _ _⟩
      · obtain ⟨-, htouched⟩ := hown.touched h u.ipv4 hp (ttlTrackUpdate_tracked hret)
        exact ⟨_, htouched, hdelta.touchEntry _ _⟩
    · rw [if_neg fun hboth => hret hboth.2, ttlTrackUpdate_refused hret]
      rcases hrec with ⟨rfl, hno⟩ | ⟨hts, e, hown, hdelta⟩
      · rw [if_neg (not_exists_of_noSlot hno)]
        exact Or.inl ⟨rfl, hno⟩
      · rw [if_pos (exists_of_ownEntry hown)]
        exact Or.inr ⟨hts, e, hown, hdelta⟩
  · rw [if_neg fun hboth => hp hboth.1]
    rcases hrec with ⟨rfl, hno⟩ | ⟨hts, e, hown, hdelta⟩
    · have hno' : NoSlot c (ttlTrackUpdate t u.packet u.ttl u.now u.now').2 := hno.other u.ipv4 hp
      rw [if_neg (not_exists_of_noSlot hno')]
      exact Or.inl ⟨rfl, hno'⟩
    · have hcases : OwnEntry c (ttlTrackUpdate t u.packet u.ttl u.now u.now').2 e ∨
          NoSlot c (ttlTrackUpdate t u.packet u.ttl u.now u.now').2 := (hown.other h u.ipv4 hp).imp_right And.right
      rcases hcases with hsame | hno'
      · rw [if_pos (exists_of_ownEntry hsame)]
        exact Or.inr ⟨hts, e, hsame, hdelta⟩
      · rw [if_neg (not_exists_of_noSlot hno')]
        exact Or.inl ⟨rfl, hno'⟩

theorem recorded_foldl {c : Conn} {s : TtlTable × List UInt8} (hrec : Recorded c s.1 s.2) (h : TtlInv s.1)
    (us : List Ipv4Call) :
    Recorded c ((us.map Ipv4Call.op).foldl ttlStep s.1) (us.foldl c.recordStep s).2 := by
  induction us generalizing s with
  | nil => exact hrec
  | cons u us ih => exact ih (hrec.step h u) (h.update u.packet u.ttl u.now u.now')

theorem recorded_observed (c : Conn) (us : List Ipv4Call) : Recorded c (tableOf us) (c.observed us) := by
  refine recorded_foldl (s := (ttlTrackerInit, [])) (Or.inl ⟨rfl, ?_⟩) ttlInv_init us
  intro i e hi
  cases hi

theorem ttlInv_tableOf (us : List Ipv4Call) : TtlInv (tableOf us) := ttlInv_init.foldl _

theorem observed_append (c : Conn) (us : List Ipv4Call) (u : Ipv4Call) :
    c.observed (us ++ [u]) =
      c.recordCall (c.observed us) u (ttlTrackUpdate (tableOf us) u.packet u.ttl u.now u.now') := by
  have htable : ∀ s : TtlTable × List UInt8,
      (us.foldl c.recordStep s).1 = (us.map Ipv4Call.op).foldl ttlStep s.1 := by
    induction us with
    | nil => exact fun s => rfl
    | cons v us ih => exact fun s => ih _
  unfold Conn.observed
  rw [List.foldl_append]
  change c.recordCall _ u (ttlTrackUpdate (us.foldl c.recordStep (ttlTrackerInit, [])).1 _ _ _ _) = _
  rw [htable]
  rfl

/-- A connection whose packets were all accepted and whose entry was never evicted has all its TTLs on record. -/
theorem observed_eq_all (c : Conn) (us : List Ipv4Call)
    (haccepted : ∀ pre u post, us = pre ++ u :: post → c.HasPacket u.packet →
      (ttlTrackUpdate (tableOf pre) u.packet u.ttl u.now u.now').1 = 0)
    (hkept : ∀ pre u post, us = pre ++ u :: post → (∃ e ∈ (tableOf pre).live, c.HasEntry e) →
      ∃ e ∈ (ttlTrackUpdate (tableOf pre) u.packet u.ttl u.now u.now').2.live, c.HasEntry e) :
    c.observed us = (us.filter fun u => c.HasPacket u.packet).map (·.ttl) := by
  induction us using List.reverseRecOn with
  | nil => rfl
  | append_singleton us u ih =>
    have hsplit : us ++ [u] = us ++ u :: [] := rfl
    have hobs := ih (fun pre v post heq => haccepted pre v (post ++ [u]) (by rw [heq]; simp))
      (fun pre v post heq => hkept pre v (post ++ [u]) (by rw [heq]; simp))
    rw [observed_append, Conn.recordCall, List.filter_append, List.map_append, ← hobs]
    by_cases hp : c.HasPacket u.packet
    · rw [if_pos ⟨hp, haccepted us u [] hsplit hp⟩]
      simp [hp]
    · rw [if_neg fun hboth => hp hboth.1]
      rcases recorded_observed c us with ⟨hts, -⟩ | ⟨-, e, hown, -⟩
      · simp [hp, hts]
      · rw [if_pos (hkept us u [] hsplit (exists_of_ownEntry hown))]
        simp [hp]

/-! ### The delta -/

theorem OwnEntry.ttlGetDelta_eq {c : Conn} {t : TtlTable} {p : Packet} {e : TtlEntry} (hown : OwnEntry c t e)
    (h : TtlInv t) (h4 : p.isIpv6 = false) (hp : c.HasPacket p) :
    ttlGetDelta t p = if e.isEstablished then (e.ttlDelta.toNat : Int) else -1 := by
  obtain ⟨i, hfind, hi⟩ := hown.find h h4 hp
  unfold ttlGetDelta
  rw [hfind]
  simp only
  rw [List.getD_eq_getElem?_getD, hi, Option.getD_some]

theorem OwnEntry.established_iff {c : Conn} {t : TtlTable} {e : TtlEntry} (hown : OwnEntry c t e) :
    c.Established t ↔ e.isEstablished := by
  constructor
  · rintro ⟨f, hf, hmine, hest⟩
    rwa [← hown.unique hf hmine]
  · intro hest
    obtain ⟨i, hi, he, -⟩ := hown
    exact ⟨e, List.mem_of_getElem? hi, he, hest⟩

/-- Ten TTLs whose first is `first` and whose last is `tenth`. -/
private theorem delta_eq_iff {ts : List UInt8} {first : UInt8} (tenth : UInt8) (hfirst : ts.head? = some first) :
    ((firstSet ts - tenth).toNat : Int) = first.toNat - tenth.toNat ↔
      tenth ≤ first ∧ (first = 0 → ∀ x ∈ ts, x = 0) := by
  have hsub : ∀ a : UInt8, (a - tenth).toNat = (256 - tenth.toNat + a.toNat) % 256 := fun a => UInt8.toNat_sub a tenth
  have ht := tenth.toNat_lt
  have hf := first.toNat_lt
  rw [UInt8.le_iff_toNat_le, hsub]
  by_cases h0 : first = 0
  · have hs := (firstSet ts).toNat_lt
    have hzero : firstSet ts = 0 ↔ ∀ x ∈ ts, x = 0 := firstSet_eq_zero_iff
    rw [← UInt8.toNat_inj] at hzero
    simp only [h0, UInt8.toNat_zero, true_imp_iff] at *
    rw [← hzero]
    omega
  · have hset : firstSet ts = first := by
      obtain ⟨rest, rfl⟩ := List.head?_eq_some_iff.1 hfirst
      simp [firstSet, h0]
    rw [hset]
    simp only [h0, false_imp_iff, and_true]
    omega

/-- The delta of an established connection is the difference between its first and its tenth TTL, and no delta is
reported only where the connection is not established. -/
structure ReportsDelta (c : Conn) (us : List Ipv4Call) (p : Packet) : Prop where
  delta : c.Established (tableOf us) → ∃ first tenth, (c.observed us)[0]? = some first ∧
    (c.observed us)[9]? = some tenth ∧ ttlGetDelta (tableOf us) p = (first.toNat : Int) - tenth.toNat
  missing : ttlGetDelta (tableOf us) p = -1 → ¬ c.Established (tableOf us)

/-- The tenth TTL is not above the first, and where the first is zero, so are the other nine. -/
def DeltaFits (ts : List UInt8) : Prop :=
  ∀ first tenth, ts[0]? = some first → ts[9]? = some tenth →
    tenth ≤ first ∧ (first = 0 → ∀ x ∈ ts.take 10, x = 0)

/-- The delta that a connection with ten recorded TTLs or more reports. -/
private theorem reported_iff {ts : List UInt8} {e : TtlEntry} (hdelta : DeltaOf ts e) (hlen : 10 ≤ ts.length) :
    (∃ first tenth, ts[0]? = some first ∧ ts[9]? = some tenth ∧
      (e.ttlDelta.toNat : Int) = (first.toNat : Int) - tenth.toNat) ↔ DeltaFits ts := by
  have hhead : (ts.take 10).head? = some ts[0] := by
    rw [List.head?_eq_getElem?, List.getElem?_take_of_lt (by omega), List.getElem?_eq_getElem (by omega)]
  have hlast : (ts.take 10).getLastD 0 = ts[9] := by
    rw [List.getLastD_eq_getLast?, List.getLast?_eq_getElem?, List.length_take, Nat.min_eq_left hlen,
      List.getElem?_take_of_lt (by omega), List.getElem?_eq_getElem (by omega), Option.getD_some]
  have hiff := delta_eq_iff ts[9] hhead
  have h0 : ts[0]? = some ts[0] := List.getElem?_eq_getElem (by omega)
  have h9 : ts[9]? = some ts[9] := List.getElem?_eq_getElem (by omega)
  unfold DeltaFits
  rw [hdelta.delta, hlast, h0, h9]
  constructor
  · rintro ⟨first, tenth, hf, ht, heq⟩ first' tenth' hf' ht'
    cases hf
    cases ht
    cases hf'
    cases ht'
    exact hiff.1 heq
  · intro hfits
    exact ⟨_, _, rfl, rfl, hiff.2 (hfits _ _ rfl rfl)⟩

/-- After every run of updates with IPv4 packets, a connection is established if and only if ten of its TTLs have been
recorded, and its delta is the real difference if and only if the ten fit. -/
theorem ttlGetDelta_reports_iff (c : Conn) (us : List Ipv4Call) (p : Packet) (h4 : p.isIpv6 = false)
    (hp : c.HasPacket p) :
    (c.Established (tableOf us) ↔ 10 ≤ (c.observed us).length) ∧
      (ReportsDelta c us p ↔ DeltaFits (c.observed us)) := by
  have hinv := ttlInv_tableOf us
  rcases recorded_observed c us with ⟨hts, hno⟩ | ⟨-, e, hown, hdelta⟩
  · have hnot : ¬ c.Established (tableOf us) := by
      rintro ⟨e, he, hmine, -⟩
      exact not_exists_of_noSlot hno ⟨e, he, hmine⟩
    rw [hts]
    refine ⟨iff_of_false hnot (by simp), iff_of_true ⟨fun hest => absurd hest hnot, fun _ => hnot⟩ ?_⟩
    intro first tenth hf
    cases hf
  · have hest : c.Established (tableOf us) ↔ 10 ≤ (c.observed us).length := by
      rw [hown.established_iff, hdelta.counted.2, decide_eq_true_iff]
    refine ⟨hest, ?_⟩
    by_cases hlen : 10 ≤ (c.observed us).length
    · have heq : ttlGetDelta (tableOf us) p = (e.ttlDelta.toNat : Int) := by
        rw [hown.ttlGetDelta_eq hinv h4 hp, if_pos (hown.established_iff.1 (hest.2 hlen))]
      rw [← reported_iff hdelta hlen]
      constructor
      · intro hreports
        have hreported := hreports.delta (hest.2 hlen)
        rwa [heq] at hreported
      · intro hreported
        rw [← heq] at hreported
        refine ⟨fun _ => hreported, fun hmissing => ?_⟩
        rw [heq] at hmissing
        omega
    · -- a connection that is still learning
      have hnot : ¬ c.Established (tableOf us) := fun h => hlen (hest.1 h)
      refine iff_of_true ⟨fun h => absurd h hnot, fun _ => hnot⟩ ?_
      intro first tenth _ ht
      rw [List.getElem?_eq_none (by omega)] at ht
      cases ht

/-- A packet from port 2000 of one host to port 443 of another, with the given TTL. -/
def deltaCall (ttl : UInt8) : Ipv4Call where
  packet :=
    { packetInit with
      type := .ipv4Tcp
      srcIp := Addr.ofWord 1
      dstIp := Addr.ofWord 2
      srcPort := 2000
      dstPort := 443 }
  ttl := ttl
  now := 0
  now' := 0
  ipv4 := rfl

def deltaConn : Conn := ⟨(1, 2000), (2, 443)⟩

/-- Nine packets with a TTL of 64, and a tenth. -/
def tenCalls (tenth : UInt8) : List Ipv4Call := List.replicate 9 (deltaCall 64) ++ [deltaCall tenth]

theorem ttlGetDelta_reports_falling :
    ReportsDelta deltaConn (tenCalls 57) (deltaCall 64).packet := by
  have hobs : deltaConn.observed (tenCalls 57) = List.replicate 9 64 ++ [57] := by decide +kernel
  refine (ttlGetDelta_reports_iff deltaConn (tenCalls 57) (deltaCall 64).packet rfl (Or.inl ⟨rfl, rfl⟩)).2.2 ?_
  rw [hobs]
  intro first tenth hf ht
  cases hf
  cases ht
  decide

theorem ttlGetDelta_wraps : ¬ ReportsDelta deltaConn (tenCalls 65) (deltaCall 64).packet := by
  have hobs : deltaConn.observed (tenCalls 65) = List.replicate 9 64 ++ [65] := by decide +kernel
  have hest : deltaConn.Established (tableOf (tenCalls 65)) :=
    ⟨{ newEntry (deltaCall 64).packet 64 0 with
        maxTtl := 65, ttlDelta := 255, packetCount := 10, isEstablished := true }, by decide +kernel, by decide, rfl⟩
  have hdelta : ttlGetDelta (tableOf (tenCalls 65)) (deltaCall 64).packet = 255 := by decide +kernel
  intro h
  obtain ⟨first, tenth, hf, ht, heq⟩ := h.delta hest
  rw [hobs] at hf ht
  cases hf
  cases ht
  rw [hdelta] at heq
  revert heq
  decide

end GoodbyeDpi
