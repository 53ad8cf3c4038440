import GoodbyeDpi.DnsSessions

/-!
# The entries of the DNS table

Any sequence of calls on any packets, with an allocation that may fail.  The keys have a direction, so one exchange has
two keys, each the reversal of the other.  An update looks for both before it adds an entry, `dns_tracker_add` for none.
The last part is about the two loops over the table, which split it in the same way.
-/

namespace GoodbyeDpi

open CSem

/-! ### Keys -/

/-- The key of the other direction: the addresses and the ports change places in the text. -/
def reversedKey (k : List UInt8) : List UInt8 :=
  (k.drop 9).take 8 ++ ascii ":" ++ k.take 8 ++ ascii ":" ++ (k.drop 23).take 4 ++ ascii ":" ++ (k.drop 18).take 4

/-- The keys are those of different exchanges. -/
def KeysApart (k l : List UInt8) : Prop := k ≠ l ∧ k ≠ reversedKey l ∧ reversedKey k ≠ l

instance (k l : List UInt8) : Decidable (KeysApart k l) := inferInstanceAs (Decidable (_ ∧ _))

/-- At most one entry for each exchange. -/
def OneEntryPerSession (t : DnsTable) : Prop := (t.map (·.key)).Pairwise KeysApart

instance (t : DnsTable) : Decidable (OneEntryPerSession t) := inferInstanceAs (Decidable (List.Pairwise _ _))

/-- A part of a text, by its place. -/
private theorem part_eq {l m r : List UInt8} {i n : Nat} (hl : l.length = i) (hm : m.length = n) :
    ((l ++ (m ++ r)).drop i).take n = m := by
  rw [List.drop_left' hl, List.take_left' hm]

theorem reversedKey_dnsKey (a b : UInt32) (x y : UInt16) : reversedKey (dnsKey a b x y) = dnsKey b a y x := by
  have ha : (hexPadded 8 a.toNat).length = 8 := length_hexPadded 8 _
  have hb : (hexPadded 8 b.toNat).length = 8 := length_hexPadded 8 _
  have hx : (hexPadded 4 x.toNat).length = 4 := length_hexPadded 4 _
  have hy : (hexPadded 4 y.toNat).length = 4 := length_hexPadded 4 _
  have hcolon : (ascii ":").length = 1 := rfl
  rw [dnsKey_eq, dnsKey_eq]
  unfold reversedKey
  generalize hexPadded 8 a.toNat = A at *
  generalize hexPadded 8 b.toNat = B at *
  generalize hexPadded 4 x.toNat = X at *
  generalize hexPadded 4 y.toNat = Y at *
  generalize ascii ":" = colon at *
  -- each part is cut out at its place in the text, the last one with nothing after it
  have hA : (A ++ colon ++ B ++ colon ++ X ++ colon ++ Y).take 8 = A := by
    simpa using part_eq (l := []) (r := colon ++ B ++ colon ++ X ++ colon ++ Y) rfl ha
  have hB : ((A ++ colon ++ B ++ colon ++ X ++ colon ++ Y).drop 9).take 8 = B := by
    have hlen : (A ++ colon).length = 9 := by simp [ha, hcolon]
    simpa using part_eq (r := colon ++ X ++ colon ++ Y) hlen hb
  have hX : ((A ++ colon ++ B ++ colon ++ X ++ colon ++ Y).drop 18).take 4 = X := by
    have hlen : (A ++ colon ++ B ++ colon).length = 18 := by simp [ha, hb, hcolon]
    simpa using part_eq (r := colon ++ Y) hlen hx
  have hY : ((A ++ colon ++ B ++ colon ++ X ++ colon ++ Y).drop 23).take 4 = Y := by
    have hlen : (A ++ colon ++ B ++ colon ++ X ++ colon).length = 23 := by simp [ha, hb, hx, hcolon]
    simpa using part_eq (r := []) hlen hy
  rw [hA, hB, hX, hY]

theorem reversedKey_forward (p : Packet) : reversedKey (dnsForwardKey p) = dnsReverseKey p := reversedKey_dnsKey _ _ _ _

/-- The key is one that `snprintf` can make. -/
def IsDnsKey (k : List UInt8) : Prop := ∃ a b x y, k = dnsKey a b x y

/-- The table has an entry of the packet's exchange. -/
def HasSession (t : DnsTable) (p : Packet) : Prop := ∃ e ∈ t, e.key = dnsForwardKey p ∨ e.key = dnsReverseKey p

theorem keysApart_forward_iff {k : List UInt8} (hk : IsDnsKey k) (p : Packet) :
    KeysApart k (dnsForwardKey p) ↔ k ≠ dnsForwardKey p ∧ k ≠ dnsReverseKey p := by
  obtain ⟨a, b, x, y, rfl⟩ := hk
  unfold KeysApart
  rw [reversedKey_forward]
  constructor
  · rintro ⟨h1, h2, -⟩
    exact ⟨h1, h2⟩
  · rintro ⟨h1, h2⟩
    refine ⟨h1, h2, fun h => h2 ?_⟩
    rw [← reversedKey_forward, ← h, reversedKey_dnsKey, reversedKey_dnsKey]

/-! ### Calls -/

/-- A call, and whether `malloc` gives it the entry that it may need. -/
structure DnsRequest extends DnsCall where
  granted : Bool

/-- One call. -/
def dnsRequestStep (t : DnsTable) (c : DnsRequest) : DnsTable :=
  match c.op with
  | .add p => (dnsTrackerAdd t c.granted p c.now).2
  | .lookup p => (dnsTrackerLookup c.hash t p c.now).2
  | .update p => (dnsTrackerUpdate c.hash t c.granted p c.now).2
  | .cleanupExpired => (dnsTrackerCleanupExpired t c.now).2

/-- The table after a sequence of calls. -/
def dnsTableAfter (cs : List DnsRequest) : DnsTable := cs.foldl dnsRequestStep dnsTrackerInit

/-- The call adds an entry without a search: `dns_tracker_add` of a DNS packet for which there is memory. -/
def DnsRequest.Adds (c : DnsRequest) (p : Packet) : Prop := c.op = .add p ∧ isDnsPacket p ∧ c.granted

theorem dnsTrackerAdd_keys (t : DnsTable) (granted : Bool) (p : Packet) (now : Int) :
    (dnsTrackerAdd t granted p now).2.map (·.key) =
      if isDnsPacket p ∧ granted then t.map (·.key) ++ [dnsForwardKey p] else t.map (·.key) := by
  unfold dnsTrackerAdd
  cases isDnsPacket p
  · simp
  · cases granted
    · simp
    · simp [dnsEntry]

/-- A lookup changes no key, and one that finds nothing has looked for both keys of the packet. -/
theorem dnsTrackerLookup_keys (hash : HashFind) (t : DnsTable) (p : Packet) (now : Int) :
    (dnsTrackerLookup hash t p now).2.map (·.key) = t.map (·.key) ∧
      ((dnsTrackerLookup hash t p now).1 = none → isDnsPacket p → ¬ HasSession t p) := by
  unfold dnsTrackerLookup
  cases hdns : isDnsPacket p with
  | false => exact ⟨rfl, fun _ h => by cases h⟩
  | true =>
    simp only [Bool.not_true, Bool.false_eq_true, ↓reduceIte]
    cases hf : findDnsEntry hash t p with
    | some i =>
      obtain ⟨e, he, -⟩ := key_of_findDnsEntry hf
      simp only [he]
      refine ⟨?_, fun h => by cases h⟩
      apply List.ext_getElem?
      intro j
      rw [List.getElem?_map, List.getElem?_map, List.getElem?_set]
      by_cases hij : i = j
      · subst hij
        have hi : i < t.length := (List.getElem?_eq_some_iff.1 he).1
        rw [if_pos rfl, if_pos hi, he]
        rfl
      · rw [if_neg hij]
    | none =>
      refine ⟨rfl, fun _ _ => ?_⟩
      rintro ⟨e, he, hk⟩
      obtain ⟨hfwd, hrev⟩ := key_ne_of_findDnsEntry hf e he
      exact hk.elim hfwd hrev

/-- An update adds a key only when its exchange is not there. -/
theorem dnsTrackerUpdate_keys (hash : HashFind) (t : DnsTable) (granted : Bool) (p : Packet) (now : Int) :
    (dnsTrackerUpdate hash t granted p now).2.map (·.key) = t.map (·.key) ∨
    (dnsTrackerUpdate hash t granted p now).2.map (·.key) = t.map (·.key) ++ [dnsForwardKey p] ∧ ¬ HasSession t p := by
  obtain ⟨hkeys, hmiss⟩ := dnsTrackerLookup_keys hash t p now
  unfold dnsTrackerUpdate
  cases hlook : dnsTrackerLookup hash t p now with
  | mk found t' =>
    rw [hlook] at hkeys hmiss
    cases found with
    | some info => exact Or.inl hkeys
    | none =>
      simp only at hkeys hmiss ⊢
      rw [dnsTrackerAdd_keys, hkeys]
      by_cases hadds : isDnsPacket p ∧ granted
      · rw [if_pos hadds]
        exact Or.inr ⟨rfl, hmiss trivial hadds.1⟩
      · rw [if_neg hadds]
        exact Or.inl rfl

/-- What a call can do to the keys: nothing, take some away, or add that of a DNS packet; only `dns_tracker_add` adds
the key of an exchange that is there. -/
theorem dnsRequestStep_keys (t : DnsTable) (c : DnsRequest) :
    ((dnsRequestStep t c).map (·.key)).Sublist (t.map (·.key)) ∧ (∀ p, ¬ c.Adds p) ∨
    ∃ p, (dnsRequestStep t c).map (·.key) = t.map (·.key) ++ [dnsForwardKey p] ∧
      (c.Adds p ∨ (∀ q, ¬ c.Adds q) ∧ ¬ HasSession t p) := by
  unfold dnsRequestStep DnsRequest.Adds
  cases c.op with
  | add p =>
    simp only
    rw [dnsTrackerAdd_keys]
    by_cases hadds : isDnsPacket p ∧ c.granted
    · rw [if_pos hadds]
      exact Or.inr ⟨p, rfl, Or.inl ⟨rfl, hadds⟩⟩
    · rw [if_neg hadds]
      refine Or.inl ⟨List.Sublist.refl _, ?_⟩
      rintro q ⟨hq, hrest⟩
      cases hq
      exact hadds hrest
  | lookup p =>
    refine Or.inl ⟨?_, fun q h => by cases h.1⟩
    simp only
    rw [(dnsTrackerLookup_keys c.hash t p c.now).1]
  | update p =>
    simp only
    rcases dnsTrackerUpdate_keys c.hash t c.granted p c.now with hkeys | ⟨hkeys, hfresh⟩
    · refine Or.inl ⟨?_, fun q h => by cases h.1⟩
      rw [hkeys]
    · exact Or.inr ⟨p, hkeys, Or.inr ⟨(fun q h => by cases h.1), hfresh⟩⟩
  | cleanupExpired =>
    refine Or.inl ⟨?_, fun q h => by cases h.1⟩
    simp only [dnsTrackerCleanupExpired]
    rw [dnsCleanupLoop_snd]
    exact List.filter_sublist.map _

/-! ### Runs -/

/-- Every key in the table is one that `snprintf` made. -/
def KeysValid (t : DnsTable) : Prop := ∀ k ∈ t.map (·.key), IsDnsKey k

theorem KeysValid.step {t : DnsTable} (h : KeysValid t) (c : DnsRequest) : KeysValid (dnsRequestStep t c) := by
  intro k hk
  rcases dnsRequestStep_keys t c with ⟨hsub, -⟩ | ⟨p, hkeys, -⟩
  · exact h k (hsub.subset hk)
  · rw [hkeys] at hk
    rcases List.mem_append.1 hk with hk | hk
    · exact h k hk
    · rw [List.mem_singleton.1 hk]
      exact ⟨_, _, _, _, rfl⟩

theorem keysValid_dnsTableAfter (cs : List DnsRequest) : KeysValid (dnsTableAfter cs) := by
  have hfold : ∀ t, KeysValid t → KeysValid (cs.foldl dnsRequestStep t) := by
    induction cs with
    | nil => exact fun t h => h
    | cons c cs ih => exact fun t h => ih _ (h.step c)
  apply hfold
  intro k hk
  cases hk

theorem dnsTableAfter_append (cs : List DnsRequest) (c : DnsRequest) :
    dnsTableAfter (cs ++ [c]) = dnsRequestStep (dnsTableAfter cs) c := by
  unfold dnsTableAfter
  rw [List.foldl_append]
  rfl

/-- One more key keeps the exchanges apart if and only if its exchange is not there. -/
private theorem pairwise_concat_iff {t : DnsTable} (hvalid : KeysValid t) (p : Packet) :
    (t.map (·.key) ++ [dnsForwardKey p]).Pairwise KeysApart ↔ OneEntryPerSession t ∧ ¬ HasSession t p := by
  rw [List.pairwise_append]
  constructor
  · rintro ⟨ht, -, happart⟩
    refine ⟨ht, ?_⟩
    rintro ⟨e, he, hk⟩
    have hmem : e.key ∈ t.map (·.key) := List.mem_map_of_mem he
    have hapart := (keysApart_forward_iff (hvalid _ hmem) p).1 (happart _ hmem _ (List.mem_singleton_self _))
    rcases hk with hk | hk
    · exact hapart.1 hk
    · exact hapart.2 hk
  · rintro ⟨ht, hno⟩
    refine ⟨ht, List.pairwise_singleton _ _, fun k hk l hl => ?_⟩
    rw [List.mem_singleton.1 hl, keysApart_forward_iff (hvalid k hk)]
    obtain ⟨e, he, rfl⟩ := List.mem_map.1 hk
    exact ⟨fun h => hno ⟨e, he, Or.inl h⟩, fun h => hno ⟨e, he, Or.inr h⟩⟩

theorem oneEntryPerSession_step_iff {t : DnsTable} (hvalid : KeysValid t) (hone : OneEntryPerSession t)
    (c : DnsRequest) :
    OneEntryPerSession (dnsRequestStep t c) ↔ ∀ p, c.Adds p → ¬ HasSession t p := by
  rcases dnsRequestStep_keys t c with ⟨hsub, hnone⟩ | ⟨p, hkeys, hadds⟩
  · exact iff_of_true (hone.sublist hsub) fun p hp => absurd hp (hnone p)
  · unfold OneEntryPerSession
    rw [hkeys, pairwise_concat_iff hvalid]
    rcases hadds with hadds | ⟨hnone, hfresh⟩
    · constructor
      · rintro ⟨-, hfresh⟩ q hq
        have hqp : q = p := by
          have heq := hq.1.symm.trans hadds.1
          cases heq
          rfl
        rw [hqp]
        exact hfresh
      · intro h
        exact ⟨hone, h p hadds⟩
    · exact iff_of_true ⟨hone, hfresh⟩ fun q hq => absurd hq (hnone q)

/-- In every run, every state has at most one entry for each exchange if and only if `dns_tracker_add` is never called
for an exchange that has one. -/
theorem dnsTable_oneEntry_iff (cs : List DnsRequest) :
    (∀ pre post, cs = pre ++ post → OneEntryPerSession (dnsTableAfter pre)) ↔
      ∀ pre c post, cs = pre ++ c :: post → ∀ p, c.Adds p → ¬ HasSession (dnsTableAfter pre) p := by
  constructor
  · intro h pre c post hsplit
    have hnext := h (pre ++ [c]) post (by rw [hsplit]; simp)
    rw [dnsTableAfter_append] at hnext
    exact (oneEntryPerSession_step_iff (keysValid_dnsTableAfter pre) (h pre (c :: post) hsplit) c).1 hnext
  · intro h pre
    induction pre using List.reverseRecOn with
    | nil => exact fun _ _ => List.Pairwise.nil
    | append_singleton pre c ih =>
      intro post hsplit
      have hsplit' : cs = pre ++ c :: post := by rw [hsplit]; simp
      rw [dnsTableAfter_append]
      exact (oneEntryPerSession_step_iff (keysValid_dnsTableAfter pre) (ih _ hsplit') c).2 (h pre c post hsplit')

/-- A query that is sent twice, each time with `dns_tracker_add`. -/
def repeatedQuery : List DnsRequest :=
  [⟨⟨.add sampleQuery, 0, newestFirst⟩, true⟩, ⟨⟨.add sampleQuery, 1, newestFirst⟩, true⟩]

theorem dnsTable_two_entries :
    ¬ ∀ pre post, repeatedQuery = pre ++ post → OneEntryPerSession (dnsTableAfter pre) := by
  intro h
  have hone := h repeatedQuery [] (by simp)
  revert hone
  decide

/-! ### Statistics and expiry -/

theorem dnsCleanupLoop_fst (now : Int) (t : DnsTable) (n : Nat) :
    (dnsCleanupLoop now t n).1 = n + t.countP fun e => dnsExpired e.lastSeen now := by
  induction t generalizing n with
  | nil => rfl
  | cons e es ih =>
    unfold dnsCleanupLoop
    by_cases h : dnsExpired e.lastSeen now
    · rw [if_pos h, ih, List.countP_cons_of_pos (by simpa using h)]
      omega
    · rw [if_neg h, List.countP_cons_of_neg (by simpa using h)]
      exact ih n

theorem dnsExpired_eq_not (lastSeen now : Int) :
    dnsExpired lastSeen now = !decide (now - lastSeen ≤ dnsTrackingTimeout) := by
  unfold dnsExpired
  rw [← decide_not]
  apply decide_eq_decide.2
  omega

/-- The loop of `dns_tracker_get_stats` counts the entries that have not expired. -/
theorem dnsTrackerGetStats_eq (t : DnsTable) (now : Int) :
    dnsTrackerGetStats t now = (t.length, t.countP fun e => now - e.lastSeen ≤ dnsTrackingTimeout) := by
  have hfold : ∀ n : Nat,
      t.foldl (fun active e => if now - e.lastSeen ≤ dnsTrackingTimeout then active + 1 else active) n =
        n + t.countP fun e => now - e.lastSeen ≤ dnsTrackingTimeout := by
    induction t with
    | nil => exact fun n => rfl
    | cons e es ih =>
      intro n
      rw [List.foldl_cons]
      by_cases h : now - e.lastSeen ≤ dnsTrackingTimeout
      · rw [if_pos h, ih, List.countP_cons_of_pos (by simpa using h)]
        omega
      · rw [if_neg h, ih, List.countP_cons_of_neg (by simpa using h)]
  unfold dnsTrackerGetStats
  rw [hfold, Nat.zero_add]

/-- A clean-up removes the entries that the statistics do not count as active and keeps the others as they are. -/
theorem dnsTracker_stats_agree (t : DnsTable) (now : Int) (total active : Nat)
    (h : dnsTrackerGetStats t now = (total, active)) :
    active ≤ total ∧ (dnsTrackerCleanupExpired t now).1 = total - active ∧
      (dnsTrackerCleanupExpired t now).2 = t.filter (fun e => now - e.lastSeen ≤ dnsTrackingTimeout) ∧
      (t.filter fun e => now - e.lastSeen ≤ dnsTrackingTimeout).length = active ∧
      dnsTrackerGetStats (dnsTrackerCleanupExpired t now).2 now = (active, active) := by
  rw [dnsTrackerGetStats_eq] at h
  cases h
  have hkept : (dnsTrackerCleanupExpired t now).2 = t.filter (fun e => now - e.lastSeen ≤ dnsTrackingTimeout) := by
    unfold dnsTrackerCleanupExpired
    rw [dnsCleanupLoop_snd]
    apply List.filter_congr
    intro e _
    rw [dnsExpired_eq_not, Bool.not_not]
  have hlength : (t.filter fun e => now - e.lastSeen ≤ dnsTrackingTimeout).length =
      t.countP fun e => now - e.lastSeen ≤ dnsTrackingTimeout := List.countP_eq_length_filter.symm
  have hsplit := t.length_eq_countP_add_countP fun e => decide (now - e.lastSeen ≤ dnsTrackingTimeout)
  refine ⟨List.countP_le_length, ?_, hkept, hlength, ?_⟩
  · unfold dnsTrackerCleanupExpired
    rw [dnsCleanupLoop_fst]
    simp only [dnsExpired_eq_not]
    have hexpired : t.countP (fun e => !decide (now - e.lastSeen ≤ dnsTrackingTimeout)) =
        t.countP (fun e => decide ¬ decide (now - e.lastSeen ≤ dnsTrackingTimeout) = true) := by
      apply List.countP_congr
      simp
    omega
  · rw [dnsTrackerGetStats_eq, hkept, hlength, List.countP_filter]
    simp

theorem dnsTracker_stats_agree_sample :
    (dnsTrackerCleanupExpired [dnsEntry sampleQuery 0, dnsEntry sampleResponse 50] 70).1 = 2 - 1 :=
  (dnsTracker_stats_agree [dnsEntry sampleQuery 0, dnsEntry sampleResponse 50] 70 2 1 (by decide)).2.1

end GoodbyeDpi
