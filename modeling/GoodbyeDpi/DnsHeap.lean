import GoodbyeDpi.DnsEntries
import GoodbyeDpi.UthashTable

/-!
# The DNS tracker on the heap

The functions of `src/tracking/dns_tracker.c` again, now with the entries as allocated elements of the hash table: what
they read and write goes through pointers, and an access to an entry that is not allocated ends the run.  In every run
they answer what the list of entries answers, with some search for the entries of a key, and no run makes such an
access.
-/

namespace GoodbyeDpi

open CSem

/-- `dns_table`, with the memory of its entries. -/
abbrev DnsHeap := Uthash DnsEntry

namespace OnHeap

/-- `dns_tracker_add`. -/
def dnsTrackerAdd (mal : Malloc DnsEntry) (s : DnsHeap) (p : Packet) (now : Int) : HashRun (Int × DnsHeap) :=
  if !isDnsPacket p then .ok (-1, s)
  else
    match mal.element s.mem with
    | none => .ok (-1, s)
    | some entry => do
      let s ← hashAddStr mal { s with mem := s.mem.alloc entry (dnsEntry p now) } (dnsForwardKey p) entry
      .ok (0, s)

/-- The search of `dns_tracker_lookup`. -/
def findDnsEntry (s : DnsHeap) (p : Packet) : HashRun (Option ElemAddr) := do
  let entry ← hashFindStr s (dnsForwardKey p)
  if entry.isSome then .ok entry else hashFindStr s (dnsReverseKey p)

/-- `dns_tracker_lookup`: the information it copies out when it returns 0, nothing when it returns -1. -/
def dnsTrackerLookup (s : DnsHeap) (p : Packet) (now : Int) : HashRun (Option DnsInfo × DnsHeap) :=
  if !isDnsPacket p then .ok (none, s)
  else do
    match ← findDnsEntry s p with
    | none => .ok (none, s)
    | some entry =>
      let e ← s.mem.load entry
      let m ← s.mem.store entry { e with lastSeen := now }
      .ok (some e.info, { s with mem := m })

/-- `dns_tracker_update`. -/
def dnsTrackerUpdate (mal : Malloc DnsEntry) (s : DnsHeap) (p : Packet) (now : Int) : HashRun (Int × DnsHeap) := do
  let (info, s) ← dnsTrackerLookup s p now
  if info.isSome then .ok (0, s) else dnsTrackerAdd mal s p now

/-- `HASH_DEL`, then `free`. -/
def deleteEntry (s : DnsHeap) (current : ElemAddr) : HashRun DnsHeap := do
  let s ← hashDelete s current
  let m ← s.mem.free current
  .ok { s with mem := m }

/-- The body of the loop of `dns_tracker_cleanup_expired`. -/
def cleanupEntry (now : Int) (x : Nat × DnsHeap) (current : ElemAddr) : HashRun (Nat × DnsHeap) := do
  let e ← x.2.mem.load current
  if dnsExpired e.lastSeen now then do
    let s ← deleteEntry x.2 current
    .ok (x.1 + 1, s)
  else .ok x

/-- `dns_tracker_cleanup_expired`. -/
def dnsTrackerCleanupExpired (s : DnsHeap) (now : Int) : HashRun (Nat × DnsHeap) :=
  hashIter (·.2.mem) (cleanupEntry now) s (0, s)

/-- The body of the loop of `dns_tracker_get_stats`. -/
def countActive (s : DnsHeap) (now : Int) (active : Nat) (current : ElemAddr) : HashRun Nat := do
  let e ← s.mem.load current
  .ok (if now - e.lastSeen ≤ dnsTrackingTimeout then active + 1 else active)

/-- `dns_tracker_get_stats`: the total and the active entries. -/
def dnsTrackerGetStats (s : DnsHeap) (now : Int) : HashRun (Nat × Nat) := do
  let total ← hashCount s
  let active ← hashIter (fun _ => s.mem) (countActive s now) s 0
  .ok (total, active)

end OnHeap

/-! ### Runs -/

/-- What a call gives back. -/
inductive DnsAnswer where
  | code (n : Int)
  | found (info : Option DnsInfo)
  | removed (n : Nat)
deriving DecidableEq, Repr

/-- A call on the list of entries, with its answer. -/
def dnsAnswer (t : DnsTable) (c : DnsRequest) : DnsAnswer × DnsTable :=
  match c.op with
  | .add p => (dnsTrackerAdd t c.granted p c.now).map .code id
  | .lookup p => (dnsTrackerLookup c.hash t p c.now).map .found id
  | .update p => (dnsTrackerUpdate c.hash t c.granted p c.now).map .code id
  | .cleanupExpired => (dnsTrackerCleanupExpired t c.now).map .removed id

/-- The answers of a sequence of calls. -/
def dnsAnswers : DnsTable → List DnsRequest → List DnsAnswer
  | _, [] => []
  | t, c :: cs => (dnsAnswer t c).1 :: dnsAnswers (dnsAnswer t c).2 cs

/-- A call with the reading of the clock and the allocations it gets. -/
structure DnsHeapCall where
  op : DnsOp
  now : Int
  mal : Malloc DnsEntry

namespace OnHeap

/-- A call with its answer. -/
def dnsAnswer (s : DnsHeap) (c : DnsHeapCall) : HashRun (DnsAnswer × DnsHeap) :=
  match c.op with
  | .add p => do
    let (n, s) ← dnsTrackerAdd c.mal s p c.now
    .ok (.code n, s)
  | .lookup p => do
    let (info, s) ← dnsTrackerLookup s p c.now
    .ok (.found info, s)
  | .update p => do
    let (n, s) ← dnsTrackerUpdate c.mal s p c.now
    .ok (.code n, s)
  | .cleanupExpired => do
    let (n, s) ← dnsTrackerCleanupExpired s c.now
    .ok (.removed n, s)

/-- A sequence of calls: the answers, and what is in memory then. -/
def dnsAnswers (s : DnsHeap) : List DnsHeapCall → HashRun (List DnsAnswer × DnsHeap)
  | [] => .ok ([], s)
  | c :: cs => do
    let (answer, s) ← dnsAnswer s c
    let (answers, s) ← dnsAnswers s cs
    .ok (answer :: answers, s)

end OnHeap

/-! ### What the memory stands for -/

/-- The entries at these addresses are those of the list, and nothing else is allocated. -/
structure Represents (s : DnsHeap) (items : List ElemAddr) (t : DnsTable) : Prop where
  only : HoldsOnly hashJen s items
  entries : items.map s.mem.elem = t.map some
  keys : ∀ a e, s.mem.elem a = some e → s.mem.key a = e.key

variable {s : DnsHeap} {items : List ElemAddr} {t : DnsTable}

theorem Represents.holds (h : Represents s items t) : s.Holds hashJen items := h.only.1

private theorem Represents.elem_eq (h : Represents s items t) {i : Nat} {a : ElemAddr} (ha : items[i]? = some a) :
    s.mem.elem a = t[i]? := by
  have hi := congrArg (·[i]?) h.entries
  simp only [List.getElem?_map, ha, Option.map_some] at hi
  cases hti : t[i]? with
  | none => simp [hti] at hi
  | some e => simpa [hti] using hi

theorem Represents.length_eq (h : Represents s items t) : items.length = t.length := by
  simpa using congrArg List.length h.entries

/-! ### Single calls -/

/-- An entry is changed in place. -/
theorem Represents.store (h : Represents s items t) {i : Nat} {a : ElemAddr} {e : DnsEntry} (e' : DnsEntry)
    (hi : items[i]? = some a) (he : t[i]? = some e) (hkey : e'.key = e.key) :
    ∃ m, s.mem.store a e' = .ok m ∧ Represents { s with mem := m } items (t.set i e') := by
  have hmem : a ∈ items := List.mem_of_getElem? hi
  have hae : s.mem.elem a = some e := (h.elem_eq hi).trans he
  refine ⟨{ s.mem with elem := Function.update s.mem.elem a (some e') }, ?_, ⟨?_, fun b hb => ?_⟩, ?_,
    fun b c hb => ?_⟩
  · unfold HashMemory.store
    rw [HashMemory.check_eq (h.holds.live a hmem), ok_bind]
  · refine h.holds.withElem fun b hb => ?_
    by_cases hba : b = a
    · rw [hba, Function.update_self]
      rfl
    · rw [Function.update_of_ne hba]
      exact h.holds.live b hb
  · by_cases hba : b = a
    · rw [hba]
      exact hmem
    · dsimp only at hb
      rw [Function.update_of_ne hba] at hb
      exact h.only.2 b hb
  · apply List.ext_getElem?
    intro j
    dsimp only
    rw [List.getElem?_map, List.getElem?_map, List.getElem?_set]
    by_cases hij : i = j
    · subst hij
      rw [if_pos rfl, if_pos (List.getElem?_eq_some_iff.1 he).1, hi]
      simp
    · have hj := congrArg (·[j]?) h.entries
      simp only [List.getElem?_map] at hj
      rw [if_neg hij, ← hj]
      cases hj' : items[j]? with
      | none => rfl
      | some b =>
        have hba : b ≠ a := by
          rintro rfl
          exact hij ((List.getElem?_inj (List.getElem?_eq_some_iff.1 hi).1 h.holds.nodup).1 (hi.trans hj'.symm))
        simp [Function.update_of_ne hba]
  · dsimp only at hb
    by_cases hba : b = a
    · subst hba
      rw [Function.update_self] at hb
      obtain rfl := Option.some.inj hb
      rw [hkey]
      exact h.keys b e hae
    · rw [Function.update_of_ne hba] at hb
      exact h.keys b c hb

/-- An entry is taken out of the table and freed. -/
theorem Represents.delete (l₁ : List ElemAddr) (t₁ : DnsTable) {l₂ : List ElemAddr} {t₂ : DnsTable} {a : ElemAddr}
    {e : DnsEntry} (h : Represents s (l₁ ++ a :: l₂) (t₁ ++ e :: t₂)) (hlen : l₁.length = t₁.length) :
    ∃ s', OnHeap.deleteEntry s a = .ok s' ∧ Represents s' (l₁ ++ l₂) (t₁ ++ t₂) := by
  obtain ⟨s', m, hs', hm, honly, ha, helem, hkey⟩ := h.only.delete
  unfold OnHeap.deleteEntry
  rw [hs', ok_bind, hm, ok_bind]
  refine ⟨_, rfl, ⟨honly, ?_, fun b c hb => ?_⟩⟩
  · have hentries := h.entries
    rw [List.map_append, List.map_append] at hentries
    obtain ⟨h₁, h₂⟩ := List.append_inj hentries (by simpa using hlen)
    have hkept : (l₁ ++ l₂).map m.elem = (l₁ ++ l₂).map s.mem.elem := by
      refine List.map_congr_left fun b hb => ?_
      have hba : b ≠ a := fun hba => ha (hba ▸ hb)
      rw [helem, Function.update_of_ne hba]
    have htail := congrArg List.tail h₂
    simp only [List.map_cons, List.tail_cons] at htail
    dsimp only
    rw [hkept, List.map_append, List.map_append, h₁, htail]
  · dsimp only at hb ⊢
    have hba : b ≠ a := by
      rintro rfl
      simp [helem] at hb
    rw [helem, Function.update_of_ne hba] at hb
    rw [hkey]
    exact h.keys b c hb

/-- The loop of `dns_tracker_cleanup_expired`: the entries before the next one are those it has kept. -/
private def DnsCleanupInv (t : DnsTable) (now : Int) (rest : List ElemAddr) (x : Nat × DnsHeap) : Prop :=
  ∃ l₁ t₁ t₂, Represents x.2 (l₁ ++ rest) (t₁ ++ t₂) ∧ l₁.length = t₁.length ∧
    (dnsCleanupLoop now t 0).1 = (dnsCleanupLoop now t₂ x.1).1 ∧
    (dnsCleanupLoop now t 0).2 = t₁ ++ (dnsCleanupLoop now t₂ x.1).2

private theorem DnsCleanupInv.step {now : Int} {a : ElemAddr} {rest : List ElemAddr} {x : Nat × DnsHeap}
    (h : DnsCleanupInv t now (a :: rest) x) :
    ∃ x', OnHeap.cleanupEntry now x a = .ok x' ∧ DnsCleanupInv t now rest x' := by
  obtain ⟨l₁, t₁, t₂, hrep, hlen, hcount, hkept⟩ := h
  cases t₂ with
  | nil =>
    have := hrep.length_eq
    simp at this
    omega
  | cons e t₂ =>
    have ha : (l₁ ++ a :: rest)[l₁.length]? = some a := by simp
    have he : x.2.mem.elem a = some e := by
      rw [hrep.elem_eq ha, hlen]
      simp
    unfold OnHeap.cleanupEntry HashMemory.load
    rw [he, Option.elim_some, ok_bind]
    have hloop : dnsCleanupLoop now (e :: t₂) x.1 =
        if dnsExpired e.lastSeen now then dnsCleanupLoop now t₂ (x.1 + 1)
        else ((dnsCleanupLoop now t₂ x.1).1, e :: (dnsCleanupLoop now t₂ x.1).2) := rfl
    rw [hloop] at hcount hkept
    by_cases hexp : dnsExpired e.lastSeen now
    · rw [if_pos hexp] at hcount hkept ⊢
      obtain ⟨s', hs', hrep'⟩ := hrep.delete l₁ t₁ hlen
      rw [hs', ok_bind]
      exact ⟨_, rfl, l₁, t₁, t₂, hrep', hlen, hcount, hkept⟩
    · rw [if_neg hexp] at hcount hkept ⊢
      refine ⟨x, rfl, l₁ ++ [a], t₁ ++ [e], t₂, by simpa using hrep, by simp [hlen], hcount, ?_⟩
      rw [hkept]
      simp

/-- Memory that gives the first free one of eight addresses, and every block below the bound. -/
def eightElements : Malloc DnsEntry where
  element m := (List.ofFn fun i : Fin 8 => (i.castLE (by decide) : ElemAddr)).find? fun a => (m.elem a).isNone
  fresh h := by simpa using List.find?_some h
  block n := decide (n < 2 ^ 36)
  bounded h := of_decide_eq_true h

example :
    (OnHeap.dnsAnswers Uthash.empty
        [⟨.update sampleQuery, 0, eightElements⟩, ⟨.lookup sampleResponse, 50, eightElements⟩,
          ⟨.cleanupExpired, 110, eightElements⟩, ⟨.cleanupExpired, 111, eightElements⟩]).map (·.1) =
      .ok [.code 0, .found (some (dnsInfo sampleQuery 0)), .removed 0, .removed 1] := by
  decide +kernel

end GoodbyeDpi
