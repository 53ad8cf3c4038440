import GoodbyeDpi.DnsTracker
import GoodbyeDpi.ExpiringMap
import Mathlib.Data.Sym.Sym2

/-!
# The DNS tracker as a map of sessions

A session is the unordered pair of the two endpoints of a DNS exchange.  The table, in which a session may have
several entries and each is stored under the direction of the packet that made it, stands for a map from sessions to
the time of their last activity, from which an entry is dropped 60 seconds after that.
-/

namespace GoodbyeDpi

open CSem ExpiringMap

/-! ### Sessions -/

/-- The two endpoints, in no order. -/
abbrev DnsSession := Sym2 Endpoint

def Packet.session (p : Packet) : DnsSession := s(p.source, p.dest)

/-- An IPv4 UDP packet as the parser leaves it, with exactly one port of a DNS server. -/
structure OneSidedDns (p : Packet) : Prop where
  type : p.type = .ipv4UdpData
  src_word : p.srcIp = Addr.ofWord p.srcIp.w0
  dst_word : p.dstIp = Addr.ofWord p.dstIp.w0
  one_port : p.srcPort = dnsPort ↔ p.dstPort ≠ dnsPort

def DnsOp.packet? : DnsOp → Option Packet
  | .add p => some p
  | .lookup p => some p
  | .update p => some p
  | .cleanupExpired => none

/-- The server is the endpoint of the packet with port 53 and the client is the other one. -/
structure ReportsRoles (info : DnsInfo) (p : Packet) : Prop where
  valid : info.valid
  response : p.srcPort = dnsPort → info.dnsServerIp = p.srcIp ∧ info.dnsServerPort = p.srcPort ∧
    info.clientIp = p.dstIp ∧ info.clientPort = p.dstPort
  query : p.dstPort = dnsPort → info.dnsServerIp = p.dstIp ∧ info.dnsServerPort = p.dstPort ∧
    info.clientIp = p.srcIp ∧ info.clientPort = p.srcPort

/-- After `pre`, the call is an activity of the session: an add, an update or a lookup that succeeds. -/
def Activity (pre : List DnsCall) (c : DnsCall) (s : DnsSession) : Prop :=
  match c.op with
  | .add q => q.session = s
  | .update q => q.session = s
  | .lookup q => q.session = s ∧ (dnsTrackerLookup c.hash (dnsRun pre) q c.now).1.isSome
  | .cleanupExpired => False

/-- The session had an activity, and no cleanup since the latest one ran more than 60 seconds after it. -/
def RecentlyActive (calls : List DnsCall) (s : DnsSession) : Prop :=
  ∃ pre c post, calls = pre ++ c :: post ∧ Activity pre c s ∧
    (∀ mid d rest, post = mid ++ d :: rest → ¬ Activity (pre ++ c :: mid) d s) ∧
    ∀ d ∈ post, d.op = .cleanupExpired → d.now - c.now ≤ 60

/-! ### Keys -/

section

variable {a b c d : UInt32} {x y u v : UInt16}

theorem dnsKey_eq : dnsKey a b x y =
    hexPadded 8 a.toNat ++ ascii ":" ++ hexPadded 8 b.toNat ++ ascii ":" ++ hexPadded 4 x.toNat ++ ascii ":" ++
      hexPadded 4 y.toNat := by
  apply List.take_of_length_le
  simp only [List.length_append, length_hexPadded]
  decide

private theorem word_inj {w w' : UInt32} (h : hexPadded 8 w.toNat = hexPadded 8 w'.toNat) : w = w' :=
  UInt32.toNat_inj.1 (hexPadded_inj w.toNat_lt w'.toNat_lt h)

private theorem port_inj {w w' : UInt16} (h : hexPadded 4 w.toNat = hexPadded 4 w'.toNat) : w = w' :=
  UInt16.toNat_inj.1 (hexPadded_inj w.toNat_lt w'.toNat_lt h)

/-- The key determines the addresses and the ports. -/
theorem dnsKey_inj (h : dnsKey a b x y = dnsKey c d u v) : a = c ∧ b = d ∧ x = u ∧ y = v := by
  rw [dnsKey_eq, dnsKey_eq] at h
  -- all parts have fixed lengths, so the texts can be compared from the right
  obtain ⟨h, hy⟩ := List.append_inj' h (by simp only [length_hexPadded])
  obtain ⟨h, -⟩ := List.append_inj' h rfl
  obtain ⟨h, hx⟩ := List.append_inj' h (by simp only [length_hexPadded])
  obtain ⟨h, -⟩ := List.append_inj' h rfl
  obtain ⟨h, hb⟩ := List.append_inj' h (by simp only [length_hexPadded])
  obtain ⟨ha, -⟩ := List.append_inj' h rfl
  exact ⟨word_inj ha, word_inj hb, port_inj hx, port_inj hy⟩

end

theorem dnsForwardKey_inj {p q : Packet} (h : dnsForwardKey q = dnsForwardKey p) :
    q.source = p.source ∧ q.dest = p.dest := by
  obtain ⟨h1, h2, h3, h4⟩ := dnsKey_inj h
  exact ⟨Prod.ext h1 h3, Prod.ext h2 h4⟩

theorem dnsForwardKey_eq_reverse {p q : Packet} (h : dnsForwardKey q = dnsReverseKey p) :
    q.source = p.dest ∧ q.dest = p.source := by
  obtain ⟨h1, h2, h3, h4⟩ := dnsKey_inj h
  exact ⟨Prod.ext h1 h3, Prod.ext h2 h4⟩

theorem session_eq_iff {p q : Packet} :
    q.session = p.session ↔ dnsForwardKey q = dnsForwardKey p ∨ dnsForwardKey q = dnsReverseKey p := by
  unfold Packet.session
  rw [Sym2.eq_iff]
  constructor
  · unfold dnsForwardKey dnsReverseKey Packet.source Packet.dest
    simp only [Prod.mk.injEq]
    rintro (⟨⟨h1, h2⟩, h3, h4⟩ | ⟨⟨h1, h2⟩, h3, h4⟩)
    · exact Or.inl (by rw [h1, h2, h3, h4])
    · exact Or.inr (by rw [h1, h2, h3, h4])
  · rintro (h | h)
    · exact Or.inl (dnsForwardKey_inj h)
    · exact Or.inr (dnsForwardKey_eq_reverse h)

/-! ### Entries -/

/-- The session an entry is about, from its information. -/
def DnsEntry.session (e : DnsEntry) : DnsSession :=
  s((e.info.clientIp.w0, e.info.clientPort), (e.info.dnsServerIp.w0, e.info.dnsServerPort))

/-- The entry was made from the packet `q`. -/
structure EntryOf (e : DnsEntry) (q : Packet) : Prop where
  packet : OneSidedDns q
  key : e.key = dnsForwardKey q
  roles : ReportsRoles e.info q

theorem OneSidedDns.port_cases {p : Packet} (h : OneSidedDns p) :
    (p.srcPort = dnsPort ∧ p.dstPort ≠ dnsPort) ∨ (p.srcPort ≠ dnsPort ∧ p.dstPort = dnsPort) := by
  by_cases hs : p.srcPort = dnsPort
  · exact Or.inl ⟨hs, h.one_port.1 hs⟩
  · exact Or.inr ⟨hs, by_contra fun hd => hs (h.one_port.2 hd)⟩

theorem OneSidedDns.isDnsPacket {p : Packet} (h : OneSidedDns p) : isDnsPacket p = true := by
  unfold GoodbyeDpi.isDnsPacket
  rw [h.type]
  rcases h.port_cases with ⟨hs, -⟩ | ⟨-, hd⟩
  · simp [hs]
  · simp [hd]

theorem reportsRoles_dnsInfo {p : Packet} (h : OneSidedDns p) (now : Int) : ReportsRoles (dnsInfo p now) p := by
  rcases h.port_cases with ⟨hs, hd⟩ | ⟨hs, hd⟩
  · unfold dnsInfo
    rw [if_pos hs]
    exact ⟨rfl, fun _ => ⟨rfl, rfl, rfl, rfl⟩, fun hd' => absurd hd' hd⟩
  · unfold dnsInfo
    rw [if_neg hs]
    exact ⟨rfl, fun hs' => absurd hs' hs, fun _ => ⟨rfl, rfl, rfl, rfl⟩⟩

theorem entryOf_dnsEntry {p : Packet} (h : OneSidedDns p) (now : Int) : EntryOf (dnsEntry p now) p := by
  -- `rfl` would print the key
  have hkey : (dnsEntry p now).key = dnsForwardKey p := by simp only [dnsEntry]
  exact ⟨h, hkey, reportsRoles_dnsInfo h now⟩

theorem EntryOf.touch {e : DnsEntry} {q : Packet} (h : EntryOf e q) (now : Int) :
    EntryOf { e with lastSeen := now } q :=
  ⟨h.packet, h.key, h.roles⟩

theorem EntryOf.session_eq {e : DnsEntry} {q : Packet} (h : EntryOf e q) : e.session = q.session := by
  unfold DnsEntry.session Packet.session Packet.source Packet.dest
  rcases h.packet.port_cases with ⟨hs, -⟩ | ⟨-, hd⟩
  · obtain ⟨h1, h2, h3, h4⟩ := h.roles.response hs
    rw [h1, h2, h3, h4, Sym2.eq_swap]
  · obtain ⟨h1, h2, h3, h4⟩ := h.roles.query hd
    rw [h1, h2, h3, h4]

/-- The roles do not depend on the direction of the packet. -/
theorem ReportsRoles.of_session_eq {info : DnsInfo} {p q : Packet} (h : ReportsRoles info q) (hq : OneSidedDns q)
    (hp : OneSidedDns p) (hs : q.session = p.session) : ReportsRoles info p := by
  unfold Packet.session Packet.source Packet.dest at hs
  simp only [Sym2.eq_iff, Prod.mk.injEq] at hs
  rcases hs with ⟨⟨h1, h2⟩, h3, h4⟩ | ⟨⟨h1, h2⟩, h3, h4⟩
  · have hsrc : q.srcIp = p.srcIp := by rw [hq.src_word, h1, ← hp.src_word]
    have hdst : q.dstIp = p.dstIp := by rw [hq.dst_word, h3, ← hp.dst_word]
    refine ⟨h.valid, ?_, ?_⟩
    · rw [← hsrc, ← hdst, ← h2, ← h4]
      exact h.response
    · rw [← hsrc, ← hdst, ← h2, ← h4]
      exact h.query
  · -- the stored packet went the other way: its query is the response of this one
    have hsrc : q.srcIp = p.dstIp := by rw [hq.src_word, h1, ← hp.dst_word]
    have hdst : q.dstIp = p.srcIp := by rw [hq.dst_word, h3, ← hp.src_word]
    refine ⟨h.valid, ?_, ?_⟩
    · rw [← hsrc, ← hdst, ← h2, ← h4]
      exact h.query
    · rw [← hsrc, ← hdst, ← h2, ← h4]
      exact h.response

/-! ### Lookups -/

/-- Every entry was made from a packet with one port of a DNS server. -/
def EntriesValid (t : DnsTable) : Prop := ∀ e ∈ t, ∃ q, EntryOf e q

section

variable {t : DnsTable} {p : Packet} {hash : HashFind}

/-- The search gives an entry with one of the two keys of the packet. -/
theorem key_of_findDnsEntry {i : Nat} (h : findDnsEntry hash t p = some i) :
    ∃ e, t[i]? = some e ∧ (e.key = dnsForwardKey p ∨ e.key = dnsReverseKey p) := by
  unfold findDnsEntry at h
  split at h
  · rename_i j hj
    cases h
    obtain ⟨e, he, hk⟩ := hash.found hj
    exact ⟨e, he, Or.inl hk⟩
  · obtain ⟨e, he, hk⟩ := hash.found h
    exact ⟨e, he, Or.inr hk⟩

/-- A search that finds nothing has looked for both keys. -/
theorem key_ne_of_findDnsEntry (h : findDnsEntry hash t p = none) :
    ∀ e ∈ t, e.key ≠ dnsForwardKey p ∧ e.key ≠ dnsReverseKey p := by
  unfold findDnsEntry at h
  split at h
  · cases h
  · rename_i hfwd
    intro e he
    exact ⟨hash.complete hfwd e he, hash.complete h e he⟩

/-- The search gives an entry of the session of the packet, whatever its direction. -/
theorem findDnsEntry_some (ht : EntriesValid t) {i : Nat} (h : findDnsEntry hash t p = some i) :
    ∃ e, t[i]? = some e ∧ e.session = p.session := by
  obtain ⟨e, he, hk⟩ := key_of_findDnsEntry h
  obtain ⟨q, hq⟩ := ht e (List.mem_of_getElem? he)
  refine ⟨e, he, ?_⟩
  rw [hq.session_eq, session_eq_iff, ← hq.key]
  exact hk

theorem findDnsEntry_none (ht : EntriesValid t) (h : findDnsEntry hash t p = none) :
    ∀ e ∈ t, e.session ≠ p.session := by
  intro e he
  obtain ⟨q, hq⟩ := ht e he
  rw [hq.session_eq, Ne, session_eq_iff, ← hq.key, not_or]
  exact key_ne_of_findDnsEntry h e he

variable (hash)

/-- A lookup touches an entry of the session and gives its information, or the session has no entry. -/
theorem dnsTrackerLookup_cases (ht : EntriesValid t) (hp : OneSidedDns p) (now : Int) :
    (∃ i e, t[i]? = some e ∧ e.session = p.session ∧
      dnsTrackerLookup hash t p now = (some e.info, t.set i { e with lastSeen := now })) ∨
    (∀ e ∈ t, e.session ≠ p.session) ∧ dnsTrackerLookup hash t p now = (none, t) := by
  unfold dnsTrackerLookup
  simp only [hp.isDnsPacket, Bool.not_true, Bool.false_eq_true, ↓reduceIte]
  cases hf : findDnsEntry hash t p with
  | none => exact Or.inr ⟨findDnsEntry_none ht hf, rfl⟩
  | some i =>
    obtain ⟨e, he, hs⟩ := findDnsEntry_some ht hf
    exact Or.inl ⟨i, e, he, hs, by simp only [he]⟩

theorem dnsTrackerLookup_isSome (ht : EntriesValid t) (hp : OneSidedDns p) (now : Int) :
    (dnsTrackerLookup hash t p now).1.isSome ↔ ∃ e ∈ t, e.session = p.session := by
  rcases dnsTrackerLookup_cases hash ht hp now with ⟨i, e, he, hs, heq⟩ | ⟨hno, heq⟩
  · rw [heq]
    exact ⟨fun _ => ⟨e, List.mem_of_getElem? he, hs⟩, fun _ => rfl⟩
  · rw [heq]
    constructor
    · intro h
      cases h
    · rintro ⟨e, he, hs⟩
      exact absurd hs (hno e he)

theorem dnsTrackerLookup_roles (ht : EntriesValid t) (hp : OneSidedDns p) {now : Int} {info : DnsInfo}
    (h : (dnsTrackerLookup hash t p now).1 = some info) : ReportsRoles info p := by
  rcases dnsTrackerLookup_cases hash ht hp now with ⟨i, e, he, hs, heq⟩ | ⟨-, heq⟩
  · rw [heq] at h
    cases h
    obtain ⟨q, hq⟩ := ht e (List.mem_of_getElem? he)
    exact hq.roles.of_session_eq hq.packet hp (hq.session_eq.symm.trans hs)
  · rw [heq] at h
    cases h

end

theorem dnsCleanupLoop_snd (now : Int) (t : DnsTable) (n : Nat) :
    (dnsCleanupLoop now t n).2 = t.filter fun e => !dnsExpired e.lastSeen now := by
  induction t generalizing n with
  | nil => rfl
  | cons e es ih =>
    unfold dnsCleanupLoop
    by_cases h : dnsExpired e.lastSeen now
    · rw [if_pos h, ih, List.filter_cons_of_neg (by simp [h])]
    · rw [if_neg h, ih, List.filter_cons_of_pos (by simp [h])]

/-! ### One call -/

/-- What a call means for the map of sessions. -/
def DnsCall.event (c : DnsCall) : Event DnsSession Int :=
  match c.op with
  | .add p => .touch p.session c.now
  | .lookup p => .probe p.session c.now
  | .update p => .touch p.session c.now
  | .cleanupExpired => .sweep c.now

/-- The table stands for the map, and no entry is newer than `now`. -/
structure Tracks (now : Int) (t : DnsTable) (m : ExpiringMap DnsSession Int) : Prop where
  entries : EntriesValid t
  sessions : Represents DnsEntry.session DnsEntry.lastSeen t m
  clock : ∀ e ∈ t, e.lastSeen ≤ now

namespace Tracks

variable {now : Int} {t : DnsTable} {m : ExpiringMap DnsSession Int} {p : Packet}

theorem mono (h : Tracks now t m) {later : Int} (hle : now ≤ later) : Tracks later t m :=
  ⟨h.entries, h.sessions, fun e he => Int.le_trans (h.clock e he) hle⟩

theorem lookup_isSome (h : Tracks now t m) (hp : OneSidedDns p) (hash : HashFind) (clock : Int) :
    (dnsTrackerLookup hash t p clock).1.isSome ↔ (m p.session).isSome := by
  rw [dnsTrackerLookup_isSome hash h.entries hp, h.sessions.isSome_iff]

/-- A new entry of the session. -/
theorem add (h : Tracks now t m) (hp : OneSidedDns p) :
    Tracks now (dnsTrackerAdd t true p now).2 (step dnsExpired m (.touch p.session now)) := by
  have heq : dnsTrackerAdd t true p now = (0, t ++ [dnsEntry p now]) := by
    simp [dnsTrackerAdd, hp.isDnsPacket]
  have hs : (dnsEntry p now).session = p.session := (entryOf_dnsEntry hp now).session_eq
  rw [heq]
  refine ⟨?_, ?_, ?_⟩
  · intro e he
    rcases List.mem_append.1 he with he | he
    · exact h.entries e he
    · rw [List.mem_singleton.1 he]
      exact ⟨p, entryOf_dnsEntry hp now⟩
  · rw [← hs]
    exact h.sessions.append h.clock
  · intro e he
    rcases List.mem_append.1 he with he | he
    · exact h.clock e he
    · rw [List.mem_singleton.1 he]
      exact Int.le_refl now

/-- An entry of the session that is seen again. -/
private theorem touchEntry (h : Tracks now t m) {i : Nat} {e : DnsEntry} (hi : t[i]? = some e) :
    Tracks now (t.set i { e with lastSeen := now }) (step dnsExpired m (.touch e.session now)) := by
  refine ⟨?_, h.sessions.restamp hi rfl h.clock, ?_⟩
  · intro f hf
    rcases List.mem_or_eq_of_mem_set hf with hf | rfl
    · exact h.entries f hf
    · obtain ⟨q, hq⟩ := h.entries e (List.mem_of_getElem? hi)
      exact ⟨q, hq.touch now⟩
  · intro f hf
    rcases List.mem_or_eq_of_mem_set hf with hf | rfl
    · exact h.clock f hf
    · exact Int.le_refl now

theorem lookup (h : Tracks now t m) (hp : OneSidedDns p) (hash : HashFind) :
    Tracks now (dnsTrackerLookup hash t p now).2 (step dnsExpired m (.probe p.session now)) := by
  have hsome := h.lookup_isSome hp hash now
  rcases dnsTrackerLookup_cases hash h.entries hp now with ⟨i, e, hi, hs, heq⟩ | ⟨-, heq⟩
  · rw [heq] at hsome ⊢
    rw [step_probe_of_isSome (hsome.1 rfl), ← hs]
    exact h.touchEntry hi
  · rw [heq] at hsome ⊢
    rw [step_probe_of_eq_none (by simpa using hsome)]
    exact h

/-- An update touches the session whether it has an entry or not. -/
theorem update (h : Tracks now t m) (hp : OneSidedDns p) (hash : HashFind) :
    Tracks now (dnsTrackerUpdate hash t true p now).2 (step dnsExpired m (.touch p.session now)) := by
  unfold dnsTrackerUpdate
  rcases dnsTrackerLookup_cases hash h.entries hp now with ⟨i, e, hi, hs, heq⟩ | ⟨-, heq⟩
  · rw [heq, ← hs]
    exact h.touchEntry hi
  · rw [heq]
    exact h.add hp

theorem cleanupExpired (h : Tracks now t m) :
    Tracks now (dnsTrackerCleanupExpired t now).2 (step dnsExpired m (.sweep now)) := by
  unfold dnsTrackerCleanupExpired
  rw [dnsCleanupLoop_snd]
  refine ⟨fun e he => h.entries e (List.mem_filter.1 he).1, h.sessions.sweep ?_,
    fun e he => h.clock e (List.mem_filter.1 he).1⟩
  intro u v huv hstale
  unfold dnsExpired at hstale ⊢
  rw [decide_eq_true_eq] at hstale ⊢
  omega

end Tracks

/-- A call on the packets of the parser. -/
def DnsCall.Regular (c : DnsCall) : Prop := ∀ p, c.op.packet? = some p → OneSidedDns p

theorem Tracks.step {c : DnsCall} {t : DnsTable} {m : ExpiringMap DnsSession Int} (h : Tracks c.now t m)
    (hc : c.Regular) : Tracks c.now (dnsStep t c) (ExpiringMap.step dnsExpired m c.event) := by
  unfold DnsCall.Regular at hc
  unfold dnsStep DnsCall.event
  cases hop : c.op with
  | add p => exact h.add (hc p (by rw [hop]; rfl))
  | lookup p => exact h.lookup (hc p (by rw [hop]; rfl)) c.hash
  | update p => exact h.update (hc p (by rw [hop]; rfl)) c.hash
  | cleanupExpired => exact h.cleanupExpired

/-! ### Whole runs -/

/-- The readings of the clock do not decrease. -/
def ClockSorted (calls : List DnsCall) : Prop := calls.Pairwise fun c d => c.now ≤ d.now

/-- The map of sessions after the same calls. -/
def sessionsAfter (calls : List DnsCall) : ExpiringMap DnsSession Int := run dnsExpired DnsCall.event calls

/-- After every run the table stands for the map of sessions. -/
theorem tracks_dnsRun (calls : List DnsCall) (hreg : ∀ c ∈ calls, c.Regular) (hclock : ClockSorted calls) {now : Int}
    (hnow : ∀ c ∈ calls, c.now ≤ now) : Tracks now (dnsRun calls) (sessionsAfter calls) := by
  induction calls using List.reverseRecOn generalizing now with
  | nil =>
    refine ⟨?_, Represents.nil, ?_⟩
    · intro e he
      cases he
    · intro e he
      cases he
  | append_singleton calls c ih =>
    obtain ⟨hsorted, -, hle⟩ := List.pairwise_append.1 hclock
    have hlast : c ∈ calls ++ [c] := List.mem_append_right _ (List.mem_singleton_self c)
    -- the clock is sorted, so no entry is newer than the reading that `c` gets
    have hprev : Tracks c.now (dnsRun calls) (sessionsAfter calls) :=
      ih (fun d hd => hreg d (List.mem_append_left _ hd)) hsorted
        (fun d hd => hle d hd c (List.mem_singleton_self c))
    have hstep := hprev.step (hreg c hlast)
    unfold sessionsAfter dnsRun at hstep ⊢
    rw [run_append_singleton, List.foldl_append]
    exact hstep.mono (hnow c hlast)

theorem event_eq_sweep {c : DnsCall} {now : Int} : c.event = .sweep now ↔ c.op = .cleanupExpired ∧ c.now = now := by
  unfold DnsCall.event
  cases c.op with
  | cleanupExpired => simp
  | add p => simp
  | lookup p => simp
  | update p => simp

section

variable {calls : List DnsCall} (hreg : ∀ c ∈ calls, c.Regular) (hclock : ClockSorted calls)

include hreg hclock

theorem tracks_dnsRun_exists : ∃ now, Tracks now (dnsRun calls) (sessionsAfter calls) := by
  rcases List.eq_nil_or_concat' calls with rfl | ⟨cs, c, rfl⟩
  · exact ⟨0, tracks_dnsRun [] hreg hclock (fun c hc => by cases hc)⟩
  · refine ⟨c.now, tracks_dnsRun _ hreg hclock ?_⟩
    obtain ⟨-, -, hle⟩ := List.pairwise_append.1 hclock
    intro d hd
    rcases List.mem_append.1 hd with hd | hd
    · exact hle d hd c (List.mem_singleton_self c)
    · rw [List.mem_singleton.1 hd]

/-- In the map a call touches a session exactly when it is an activity of the session. -/
theorem touches_iff_activity {pre post : List DnsCall} {c : DnsCall} (hsplit : calls = pre ++ c :: post)
    (s : DnsSession) (u : Int) :
    Touches (sessionsAfter pre) s u c.event ↔ Activity pre c s ∧ c.now = u := by
  subst hsplit
  obtain ⟨now, htracks⟩ := tracks_dnsRun_exists (fun d hd => hreg d (List.mem_append_left _ hd))
    (List.pairwise_append.1 hclock).1
  have hc : c.Regular := hreg c (by simp)
  unfold DnsCall.event Activity
  cases hop : c.op with
  | add p => exact Iff.rfl
  | update p => exact Iff.rfl
  | cleanupExpired => simp [Touches]
  | lookup p =>
    simp only [Touches, htracks.lookup_isSome (hc p (by rw [hop]; rfl))]
    constructor
    · rintro ⟨rfl, hu, hm⟩
      exact ⟨⟨rfl, hm⟩, hu⟩
    · rintro ⟨⟨rfl, hm⟩, hu⟩
      exact ⟨rfl, hu, hm⟩

/-- The map holds a session exactly when it has been active recently. -/
theorem sessionsAfter_isSome (s : DnsSession) : (sessionsAfter calls s).isSome ↔ RecentlyActive calls s := by
  rw [Option.isSome_iff_exists]
  constructor
  · rintro ⟨u, hu⟩
    obtain ⟨pre, c, post, hsplit, htouch, hlater, hsweep⟩ := (run_eq_some_iff calls).1 hu
    obtain ⟨hact, rfl⟩ := (touches_iff_activity hreg hclock hsplit s u).1 htouch
    refine ⟨pre, c, post, hsplit, hact, ?_, ?_⟩
    · intro mid d rest hpost hd
      have hsplit' : calls = (pre ++ c :: mid) ++ d :: rest := by rw [hsplit, hpost]; simp
      exact hlater mid d rest hpost d.now ((touches_iff_activity hreg hclock hsplit' s d.now).2 ⟨hd, rfl⟩)
    · intro d hd hop
      have hfresh := hsweep d hd d.now (event_eq_sweep.2 ⟨hop, rfl⟩)
      unfold dnsExpired dnsTrackingTimeout at hfresh
      rw [decide_eq_false_iff_not] at hfresh
      omega
  · rintro ⟨pre, c, post, hsplit, hact, hlater, hsweep⟩
    refine ⟨c.now, (run_eq_some_iff calls).2 ⟨pre, c, post, hsplit, ?_, ?_, ?_⟩⟩
    · exact (touches_iff_activity hreg hclock hsplit s c.now).2 ⟨hact, rfl⟩
    · intro mid d rest hpost u hd
      have hsplit' : calls = (pre ++ c :: mid) ++ d :: rest := by rw [hsplit, hpost]; simp
      exact hlater mid d rest hpost ((touches_iff_activity hreg hclock hsplit' s u).1 hd).1
    · intro d hd now hev
      obtain ⟨hop, rfl⟩ := event_eq_sweep.1 hev
      have hle := hsweep d hd hop
      unfold dnsExpired dnsTrackingTimeout
      rw [decide_eq_false_iff_not]
      omega

end

/-- After every run with a clock that does not go back, a lookup succeeds exactly when the session of the packet has
been active, in whatever direction, and no cleanup since its latest activity ran more than 60 seconds after it; and
what it then reports as server is the endpoint with port 53, and as client the other one. -/
theorem dnsTrackerLookup_iff_recentlyActive (calls : List DnsCall) (hreg : ∀ c ∈ calls, c.Regular)
    (hclock : ClockSorted calls) (hash : HashFind) (p : Packet) (hp : OneSidedDns p) (now : Int) :
    ((dnsTrackerLookup hash (dnsRun calls) p now).1.isSome ↔ RecentlyActive calls p.session) ∧
    ∀ info, (dnsTrackerLookup hash (dnsRun calls) p now).1 = some info → ReportsRoles info p := by
  obtain ⟨clock, htracks⟩ := tracks_dnsRun_exists hreg hclock
  constructor
  · rw [htracks.lookup_isSome hp, sessionsAfter_isSome hreg hclock]
  · intro info hinfo
    exact dnsTrackerLookup_roles hash htracks.entries hp hinfo

/-- The newest entry with a key, which is the first of its bucket as long as the buckets are not resized. -/
def newestEntry (k : List UInt8) : DnsTable → Option Nat
  | [] => none
  | e :: es =>
    match newestEntry k es with
    | some i => some (i + 1)
    | none => if e.key = k then some 0 else none

private theorem newestEntry_some {k : List UInt8} {t : DnsTable} {i : Nat} (h : newestEntry k t = some i) :
    ∃ e, t[i]? = some e ∧ e.key = k := by
  induction t generalizing i with
  | nil => cases h
  | cons e es ih =>
    unfold newestEntry at h
    split at h
    · rename_i j hj
      cases h
      exact ih hj
    · split at h
      · rename_i hk
        cases h
        exact ⟨e, rfl, hk⟩
      · cases h

private theorem newestEntry_none {k : List UInt8} {t : DnsTable} (h : newestEntry k t = none) : ∀ e ∈ t, e.key ≠ k := by
  induction t with
  | nil =>
    intro e he
    cases he
  | cons e es ih =>
    unfold newestEntry at h
    split at h
    · cases h
    · rename_i hes
      split at h
      · cases h
      · rename_i hk
        intro f hf
        rcases List.mem_cons.1 hf with rfl | hf
        · exact hk
        · exact ih hes f hf

def newestFirst : HashFind where
  find t k := newestEntry k t
  found := newestEntry_some
  complete := newestEntry_none

/-- A query of port 4000 of one host to port 53 of another. -/
def sampleQuery : Packet :=
  { packetInit with
    type := .ipv4UdpData
    srcIp := Addr.ofWord 1
    dstIp := Addr.ofWord 2
    srcPort := 4000
    dstPort := 53 }

/-- Its response. -/
def sampleResponse : Packet :=
  { sampleQuery with
    srcIp := Addr.ofWord 2
    dstIp := Addr.ofWord 1
    srcPort := 53
    dstPort := 4000 }

/-- The query is stored, the table is cleaned up within a minute, and the response is looked up. -/
def sampleCalls : List DnsCall :=
  [⟨.add sampleQuery, 0, newestFirst⟩, ⟨.cleanupExpired, 60, newestFirst⟩, ⟨.lookup sampleResponse, 70, newestFirst⟩]

theorem dnsTrackerLookup_sampleResponse :
    (dnsTrackerLookup newestFirst (dnsRun sampleCalls) sampleResponse 71).1.isSome ∧
    ((dnsTrackerLookup newestFirst (dnsRun sampleCalls) sampleResponse 71).1.isSome ↔
      RecentlyActive sampleCalls sampleResponse.session) ∧
    ∀ info, (dnsTrackerLookup newestFirst (dnsRun sampleCalls) sampleResponse 71).1 = some info →
      ReportsRoles info sampleResponse := by
  have hq : OneSidedDns sampleQuery := ⟨rfl, rfl, rfl, by decide⟩
  have hr : OneSidedDns sampleResponse := ⟨rfl, rfl, rfl, by decide⟩
  refine ⟨by decide, dnsTrackerLookup_iff_recentlyActive sampleCalls ?_ ?_ newestFirst sampleResponse hr 71⟩
  · intro c hc p hp
    simp only [sampleCalls, List.mem_cons, List.not_mem_nil, or_false] at hc
    rcases hc with rfl | rfl | rfl
    · cases hp
      exact hq
    · cases hp
    · cases hp
      exact hr
  · unfold ClockSorted
    decide

end GoodbyeDpi
