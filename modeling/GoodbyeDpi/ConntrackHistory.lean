import GoodbyeDpi.Conntrack
import GoodbyeDpi.SweptCell

/-!
# What the connection table remembers

Every slot of an initialised table is a cell that is overwritten by the adds of its packets, refreshed by the lookups
that succeed and swept by `conntrack_cleanup_old`.  So what a lookup finds is decided by the calls since the table was
initialised.
-/

namespace GoodbyeDpi

open History

variable {s : Conntrack} {p q : Packet} {c : ConntrackCall} {cs : List ConntrackCall} {i : Nat}

/-! ### Slots -/

theorem conntrackSlot_lt (p : Packet) : conntrackSlot p < maxConnections := Nat.mod_lt _ (by decide)

namespace Conntrack

theorem entry_setEntry_self (hi : i < maxConnections) (e : ConntrackEntry) : (s.setEntry i e).entry i = e := by
  simp [entry, setEntry, s.length_table, hi]

theorem entry_setEntry_of_ne {j : Nat} (h : i ≠ j) (e : ConntrackEntry) : (s.setEntry i e).entry j = s.entry j := by
  simp [entry, setEntry, h]

end Conntrack

@[simp] theorem entry_conntrackZeroed (b : Bool) : (conntrackZeroed b).entry i = ConntrackEntry.zero := by
  by_cases hi : i < maxConnections
  · simp [Conntrack.entry, conntrackZeroed, hi]
  · simp [Conntrack.entry, conntrackZeroed, hi]

theorem entry_conntrackCleanupOld (hs : s.initialized = true) (now : Int) :
    (conntrackCleanupOld s now).2.entry i = conntrackSwept now (s.entry i) := by
  have hzero : conntrackSwept now ConntrackEntry.zero = ConntrackEntry.zero := rfl
  simp only [conntrackCleanupOld, hs, Bool.not_true, Bool.false_eq_true, if_false, Conntrack.entry,
    conntrackCleanupLoop_table]
  rw [List.getD_eq_getElem?_getD, List.getElem?_map, List.getD_eq_getElem?_getD]
  cases s.table[i]? with
  | none => exact hzero.symm
  | some e => rfl

/-- What a successful lookup does to the table, and what it reports. -/
theorem conntrackLookup_of_find (h : findConntrackEntry s p = some i) (info : ConntrackInfo) (now : Int) :
    conntrackLookup s p info now =
      (0, info.fill ((s.entry i).stamp now), s.setEntry i ((s.entry i).stamp now)) := by
  have hs : s.initialized = true := by
    by_contra hs
    simp [findConntrackEntry, hs] at h
  simp [conntrackLookup, hs, h]

theorem conntrackLookup_of_find_none (h : findConntrackEntry s p = none) (info : ConntrackInfo) (now : Int) :
    conntrackLookup s p info now = (-1, info, s) := by
  simp [conntrackLookup, h]

theorem findConntrackEntry_eq_some_iff : findConntrackEntry s p = some i ↔
    i = conntrackSlot p ∧ s.initialized = true ∧ (s.entry i).valid = true ∧ conntrackMatches p (s.entry i) = true := by
  unfold findConntrackEntry
  constructor
  · intro h
    split at h
    · cases h
    · split at h
      · cases h
      · split at h
        · rename_i hs hv hm
          cases h
          simp only [Bool.not_eq_true', Bool.not_eq_false] at hs hv
          exact ⟨rfl, hs, hv, hm⟩
        · cases h
  · rintro ⟨rfl, hs, hv, hm⟩
    simp [hs, hv, hm]

theorem conntrackLookup_eq_zero_iff (info : ConntrackInfo) (now : Int) :
    (conntrackLookup s p info now).1 = 0 ↔ findConntrackEntry s p = some (conntrackSlot p) := by
  cases h : findConntrackEntry s p with
  | none => simp [conntrackLookup_of_find_none h]
  | some i =>
    have hi : i = conntrackSlot p := (findConntrackEntry_eq_some_iff.1 h).1
    simp [conntrackLookup_of_find h, hi]

/-! ### Calls -/

namespace ConntrackCall

/-- The call empties the whole table. -/
def IsReset (c : ConntrackCall) : Prop := c.op = .init ∨ c.op = .cleanup

/-- The call adds a packet to slot `i`. -/
def AddsTo (i : Nat) (c : ConntrackCall) : Prop := ∃ p, c.op = .add p ∧ conntrackSlot p = i

/-- The call is a lookup in slot `i` that succeeds in the state `s`. -/
def succeedsIn (s : Conntrack) (i : Nat) (c : ConntrackCall) : Bool :=
  match c.op with
  | .lookup p info => conntrackSlot p == i && (conntrackLookup s p info c.now).1 == 0
  | _ => false

end ConntrackCall

/-- The time of the latest activity in slot `i` after the calls, when it was `t` in the state `s` before them. -/
def slotActivity (i : Nat) : Conntrack → Int → List ConntrackCall → Int
  | _, t, [] => t
  | s, t, c :: cs => slotActivity i (conntrackStep s c) (if c.succeedsIn s i then c.now else t) cs

/-- The first address words and the ports agree. -/
def SameTuple (p q : Packet) : Prop :=
  p.srcIp.w0 = q.srcIp.w0 ∧ p.dstIp.w0 = q.dstIp.w0 ∧ p.srcPort = q.srcPort ∧ p.dstPort = q.dstPort

instance (p q : Packet) : Decidable (SameTuple p q) := inferInstanceAs (Decidable (_ ∧ _ ∧ _ ∧ _))

/-- The calls leave an entry of `q` that a lookup of `p` finds: since the table was initialised, the latest add to the
slot of `p` was of `q`, which has the tuple of `p`, and no sweep since then read a clock more than 300 seconds after
the latest activity in the slot. -/
def Remembers (cs : List ConntrackCall) (p q : Packet) : Prop :=
  ∃ older start recent pre c post,
    Latest ConntrackCall.IsReset cs older start recent ∧ start.op = .init ∧
    Latest (ConntrackCall.AddsTo (conntrackSlot p)) recent pre c post ∧ c.op = .add q ∧ SameTuple q p ∧
    ∀ mid d rest, post = mid ++ d :: rest → d.op = .cleanupOld →
      d.now - slotActivity (conntrackSlot p) (conntrackRun (older ++ start :: (pre ++ [c]))) c.now mid ≤ 300

/-! ### Slots as cells -/

/-- The slot `i` as a cell: the entry without its time, and the time of its last use. -/
def slotCell (s : Conntrack) (i : Nat) : SweptCell ConntrackEntry Int :=
  if (s.entry i).valid then some ((s.entry i).stamp 0, (s.entry i).lastSeen) else none

/-- What a call does to the slot `i` of an initialised table. -/
def slotEvent (i : Nat) (c : ConntrackCall) : SweptCell.Event ConntrackEntry Packet Int :=
  match c.op with
  | .add p => if conntrackSlot p = i then .write (conntrackEntry p 0) c.now else .skip
  | .lookup p _ => if conntrackSlot p = i then .probe p c.now else .skip
  | .cleanupOld => .sweep c.now
  | _ => .skip

/-- The slot as a cell decides whether a lookup succeeds. -/
theorem findConntrackEntry_iff_slotCell (hs : s.initialized = true) :
    findConntrackEntry s p = some (conntrackSlot p) ↔
      ∃ e t, slotCell s (conntrackSlot p) = some (e, t) ∧ conntrackMatches p e = true := by
  rw [findConntrackEntry_eq_some_iff]
  unfold slotCell
  constructor
  · rintro ⟨-, -, hv, hm⟩
    exact ⟨(s.entry (conntrackSlot p)).stamp 0, (s.entry (conntrackSlot p)).lastSeen, if_pos hv, hm⟩
  · rintro ⟨e, t, hcell, hm⟩
    split at hcell
    · cases hcell
      exact ⟨rfl, hs, by assumption, hm⟩
    · cases hcell

theorem slotCell_setEntry_self (hi : i < maxConnections) {e : ConntrackEntry} (hv : e.valid = true) :
    slotCell (s.setEntry i e) i = some (e.stamp 0, e.lastSeen) := by
  simp [slotCell, Conntrack.entry_setEntry_self hi, hv]

theorem slotCell_setEntry_of_ne {j : Nat} (h : i ≠ j) (e : ConntrackEntry) :
    slotCell (s.setEntry i e) j = slotCell s j := by
  simp [slotCell, Conntrack.entry_setEntry_of_ne h]

private theorem slotCell_lookup (hs : s.initialized = true) (info : ConntrackInfo) (now : Int) :
    slotCell (conntrackLookup s p info now).2.2 i =
      SweptCell.step conntrackOld conntrackMatches (slotCell s i)
        (if conntrackSlot p = i then .probe p now else .skip) := by
  by_cases hi : conntrackSlot p = i
  · subst hi
    rw [if_pos rfl]
    cases hfind : findConntrackEntry s p with
    | none =>
      -- the lookup fails, so the probe does not hit
      have hmiss : ¬ ∃ e t, slotCell s (conntrackSlot p) = some (e, t) ∧ conntrackMatches p e = true := by
        rw [← findConntrackEntry_iff_slotCell hs, hfind]
        simp
      rw [conntrackLookup_of_find_none hfind]
      cases hcell : slotCell s (conntrackSlot p) with
      | none => rfl
      | some x =>
        have hx : ¬ conntrackMatches p x.1 = true := fun hm => hmiss ⟨x.1, x.2, hcell, hm⟩
        simp [SweptCell.step, hx]
    | some j =>
      obtain ⟨rfl, -, hv, hm⟩ := findConntrackEntry_eq_some_iff.1 hfind
      have hm' : conntrackMatches p ((s.entry (conntrackSlot p)).stamp 0) = true := hm
      rw [conntrackLookup_of_find hfind, slotCell_setEntry_self (conntrackSlot_lt p) (by exact hv)]
      simp [SweptCell.step, slotCell, hv, hm']
      exact ⟨rfl, rfl⟩
  · rw [if_neg hi]
    cases hfind : findConntrackEntry s p with
    | none => rw [conntrackLookup_of_find_none hfind]; rfl
    | some j =>
      obtain ⟨rfl, -⟩ := findConntrackEntry_eq_some_iff.1 hfind
      rw [conntrackLookup_of_find hfind, slotCell_setEntry_of_ne hi]
      rfl

/-- One call on an initialised table is an event of every cell. -/
theorem slotCell_step (hs : s.initialized = true) (hc : ¬ c.IsReset) (i : Nat) :
    slotCell (conntrackStep s c) i =
      SweptCell.step conntrackOld conntrackMatches (slotCell s i) (slotEvent i c) := by
  obtain ⟨op, now⟩ := c
  cases op with
  | init => exact absurd (Or.inl rfl) hc
  | cleanup => exact absurd (Or.inr rfl) hc
  | add p =>
    have hadd : conntrackStep s ⟨.add p, now⟩ = s.setEntry (conntrackSlot p) (conntrackEntry p now) := by
      simp [conntrackStep, conntrackAdd, hs]
    by_cases hi : conntrackSlot p = i
    · subst hi
      rw [hadd, slotCell_setEntry_self (conntrackSlot_lt p) rfl]
      simp only [slotEvent, if_true]
      rfl
    · rw [hadd, slotCell_setEntry_of_ne hi]
      simp only [slotEvent, hi, if_false]
      rfl
  | lookup p info => exact slotCell_lookup hs info now
  | cleanupOld =>
    change slotCell (conntrackCleanupOld s now).2 i = (slotCell s i).filter fun y => !conntrackOld y.2 now
    unfold slotCell
    rw [entry_conntrackCleanupOld hs, conntrackSwept]
    cases hv : (s.entry i).valid with
    | false => simp [hv]
    | true =>
      cases hold : conntrackOld (s.entry i).lastSeen now with
      | false => simp [hv, hold, Option.filter]
      | true => simp [hold, Option.filter, ConntrackEntry.zero]

/-! ### Runs -/

theorem initialized_step (hc : ¬ c.IsReset) : (conntrackStep s c).initialized = s.initialized := by
  obtain ⟨op, now⟩ := c
  cases op with
  | init => exact absurd (Or.inl rfl) hc
  | cleanup => exact absurd (Or.inr rfl) hc
  | add p =>
    change (conntrackAdd s p now).2.initialized = s.initialized
    unfold conntrackAdd
    split
    · rfl
    · rfl
  | lookup p info =>
    change (conntrackLookup s p info now).2.2.initialized = s.initialized
    cases hfind : findConntrackEntry s p with
    | none => rw [conntrackLookup_of_find_none hfind]
    | some j =>
      rw [conntrackLookup_of_find hfind]
      rfl
  | cleanupOld =>
    change (conntrackCleanupOld s now).2.initialized = s.initialized
    unfold conntrackCleanupOld
    split
    · rfl
    · rfl

theorem initialized_foldl (hcs : ∀ c ∈ cs, ¬ c.IsReset) :
    (cs.foldl conntrackStep s).initialized = s.initialized := by
  induction cs generalizing s with
  | nil => rfl
  | cons c cs ih =>
    have hc := hcs c List.mem_cons_self
    rw [List.foldl_cons, ih fun d hd => hcs d (List.mem_cons_of_mem c hd), initialized_step hc]

/-- A sequence of calls on an initialised table is a run of every cell. -/
theorem slotCell_foldl (hs : s.initialized = true) (hcs : ∀ c ∈ cs, ¬ c.IsReset) (i : Nat) :
    slotCell (cs.foldl conntrackStep s) i =
      SweptCell.run conntrackOld conntrackMatches (slotEvent i) (slotCell s i) cs := by
  induction cs generalizing s with
  | nil => rfl
  | cons c cs ih =>
    have hc := hcs c List.mem_cons_self
    rw [List.foldl_cons, SweptCell.run_cons, ← slotCell_step hs hc]
    exact ih ((initialized_step hc).trans hs) fun d hd => hcs d (List.mem_cons_of_mem c hd)

/-- A lookup succeeds exactly when it is a use of the cell. -/
private theorem useTime_slotCell (hs : s.initialized = true) (t : Int) (i : Nat) :
    SweptCell.useTime conntrackMatches (slotCell s i) t (slotEvent i c) = if c.succeedsIn s i then c.now else t := by
  obtain ⟨op, now⟩ := c
  cases op with
  | init => rfl
  | cleanup => rfl
  | cleanupOld => rfl
  | add p =>
    by_cases hi : conntrackSlot p = i
    · simp [slotEvent, hi, SweptCell.useTime, ConntrackCall.succeedsIn]
    · simp [slotEvent, hi, SweptCell.useTime, ConntrackCall.succeedsIn]
  | lookup p info =>
    by_cases hi : conntrackSlot p = i
    · subst hi
      have hhit : ((slotCell s (conntrackSlot p)).any fun y => conntrackMatches p y.1) = true ↔
          (conntrackLookup s p info now).1 = 0 := by
        rw [conntrackLookup_eq_zero_iff, findConntrackEntry_iff_slotCell hs]
        cases slotCell s (conntrackSlot p) with
        | none => simp
        | some y =>
          obtain ⟨e, u⟩ := y
          simp
      simp only [slotEvent, if_true, SweptCell.useTime, ConntrackCall.succeedsIn, beq_self_eq_true, Bool.true_and,
        beq_iff_eq, hhit]
    · simp [slotEvent, hi, SweptCell.useTime, ConntrackCall.succeedsIn]

/-- The latest activity in a slot is the last use of its cell. -/
theorem slotActivity_eq_lastUse (hs : s.initialized = true) (hcs : ∀ c ∈ cs, ¬ c.IsReset) (t : Int) (i : Nat) :
    slotActivity i s t cs =
      SweptCell.lastUse conntrackOld conntrackMatches (slotEvent i) (slotCell s i) t cs := by
  induction cs generalizing s t with
  | nil => rfl
  | cons c cs ih =>
    have hc := hcs c List.mem_cons_self
    rw [slotActivity, SweptCell.lastUse, useTime_slotCell hs, ← slotCell_step hs hc]
    exact ih ((initialized_step hc).trans hs) (fun d hd => hcs d (List.mem_cons_of_mem c hd)) _

theorem slotEvent_eq_write_iff {e : ConntrackEntry} {now : Int} : slotEvent i c = .write e now ↔
    ∃ q, c.op = .add q ∧ conntrackSlot q = i ∧ e = conntrackEntry q 0 ∧ now = c.now := by
  obtain ⟨op, t⟩ := c
  cases op with
  | init => simp [slotEvent]
  | cleanup => simp [slotEvent]
  | cleanupOld => simp [slotEvent]
  | lookup p info =>
    by_cases hi : conntrackSlot p = i
    · simp [slotEvent, hi]
    · simp [slotEvent, hi]
  | add p =>
    by_cases hi : conntrackSlot p = i
    · simp only [slotEvent, hi, if_true, SweptCell.Event.write.injEq, ConntrackOp.add.injEq]
      constructor
      · rintro ⟨rfl, rfl⟩
        exact ⟨p, rfl, hi, rfl, rfl⟩
      · rintro ⟨q, rfl, -, rfl, rfl⟩
        exact ⟨rfl, rfl⟩
    · simp only [slotEvent, hi, if_false, reduceCtorEq, ConntrackOp.add.injEq, false_iff]
      rintro ⟨q, rfl, hq, -⟩
      exact hi hq

theorem isWrite_slotEvent_iff : (slotEvent i c).IsWrite ↔ c.AddsTo i := by
  rw [SweptCell.isWrite_iff]
  simp [slotEvent_eq_write_iff, ConntrackCall.AddsTo]

theorem slotEvent_eq_sweep_iff {now : Int} : slotEvent i c = .sweep now ↔ c.op = .cleanupOld ∧ now = c.now := by
  obtain ⟨op, t⟩ := c
  cases op with
  | init => simp [slotEvent]
  | cleanup => simp [slotEvent]
  | cleanupOld => simp [slotEvent, eq_comm]
  | add p =>
    by_cases hi : conntrackSlot p = i
    · simp [slotEvent, hi]
    · simp [slotEvent, hi]
  | lookup p info =>
    by_cases hi : conntrackSlot p = i
    · simp [slotEvent, hi]
    · simp [slotEvent, hi]

/-- The table after the latest reset. -/
theorem conntrackRun_of_latest {older recent : List ConntrackCall} {start : ConntrackCall}
    (h : Latest ConntrackCall.IsReset cs older start recent) :
    conntrackRun cs = recent.foldl conntrackStep (conntrackZeroed (start.op matches .init)) := by
  have hstart : ∀ s, conntrackStep s start = conntrackZeroed (start.op matches .init) := by
    intro s
    rcases h.kind with hop | hop
    · simp only [conntrackStep, hop]
      rfl
    · simp only [conntrackStep, hop]
      rfl
  rw [h.split, conntrackRun, List.foldl_append, List.foldl_cons, hstart]

/-- The table is initialised exactly when the latest reset was `conntrack_init`. -/
theorem initialized_conntrackRun_iff : (conntrackRun cs).initialized = true ↔
    ∃ older start recent, Latest ConntrackCall.IsReset cs older start recent ∧ start.op = .init := by
  constructor
  · intro hs
    rcases latest_or_none ConntrackCall.IsReset cs with hnone | ⟨older, start, recent, hlast⟩
    · rw [conntrackRun, initialized_foldl hnone] at hs
      cases hs
    · refine ⟨older, start, recent, hlast, ?_⟩
      rw [conntrackRun_of_latest hlast, initialized_foldl hlast.later] at hs
      rcases hlast.kind with hop | hop
      · exact hop
      · rw [hop] at hs
        cases hs
  · rintro ⟨older, start, recent, hlast, hinit⟩
    rw [conntrackRun_of_latest hlast, initialized_foldl hlast.later, hinit]
    rfl

section

variable {older recent pre post : List ConntrackCall} {start : ConntrackCall}

/-- The state after an add: the table is initialised, and the slot holds the packet. -/
private theorem after_add (hlast : Latest ConntrackCall.IsReset cs older start recent) (hinit : start.op = .init)
    (hrecent : recent = pre ++ c :: post) (hq : c.op = .add q) (hslot : conntrackSlot q = i) :
    (conntrackRun (older ++ start :: (pre ++ [c]))).initialized = true ∧
      slotCell (conntrackRun (older ++ start :: (pre ++ [c]))) i = some (conntrackEntry q 0, c.now) := by
  have hpre : Latest ConntrackCall.IsReset (older ++ start :: (pre ++ [c])) older start (pre ++ [c]) := by
    refine ⟨rfl, hlast.kind, fun d hd => hlast.later d ?_⟩
    rw [hrecent]
    rcases List.mem_append.1 hd with hd | hd
    · exact List.mem_append_left _ hd
    · rw [List.mem_singleton.1 hd]
      simp
  refine ⟨initialized_conntrackRun_iff.2 ⟨older, start, pre ++ [c], hpre, hinit⟩, ?_⟩
  rw [conntrackRun_of_latest hpre, hinit, slotCell_foldl rfl hpre.later, SweptCell.run_append, SweptCell.run_cons,
    slotEvent_eq_write_iff.2 ⟨q, hq, hslot, rfl, rfl⟩]
  rfl

/-- The activity in the slot after an add is the last use of a cell that was written then. -/
private theorem slotActivity_after_add (hlast : Latest ConntrackCall.IsReset cs older start recent)
    (hinit : start.op = .init) (hrecent : recent = pre ++ c :: post) (hq : c.op = .add q)
    (hslot : conntrackSlot q = i) {mid : List ConntrackCall} (hmid : ∀ d ∈ mid, d ∈ post) :
    slotActivity i (conntrackRun (older ++ start :: (pre ++ [c]))) c.now mid =
      SweptCell.lastUse conntrackOld conntrackMatches (slotEvent i) (some (conntrackEntry q 0, c.now)) c.now mid := by
  obtain ⟨hs, hcell⟩ := after_add hlast hinit hrecent hq hslot
  have hreset : ∀ d ∈ mid, ¬ d.IsReset := by
    intro d hd
    apply hlast.later
    rw [hrecent]
    exact List.mem_append_right _ (List.mem_cons_of_mem c (hmid d hd))
  rw [slotActivity_eq_lastUse hs hreset, hcell]

/-- No sweep after an add finds the cell stale: what that says about the calls. -/
private theorem neverStale_after_add (hlast : Latest ConntrackCall.IsReset cs older start recent)
    (hinit : start.op = .init) (hrecent : recent = pre ++ c :: post) (hq : c.op = .add q)
    (hslot : conntrackSlot q = i) :
    SweptCell.NeverStale conntrackOld conntrackMatches (slotEvent i) (some (conntrackEntry q 0, c.now)) c.now post ↔
      ∀ mid d rest, post = mid ++ d :: rest → d.op = .cleanupOld →
        d.now - slotActivity i (conntrackRun (older ++ start :: (pre ++ [c]))) c.now mid ≤ 300 := by
  have hactivity : ∀ {mid d rest}, post = mid ++ d :: rest →
      slotActivity i (conntrackRun (older ++ start :: (pre ++ [c]))) c.now mid = SweptCell.lastUse conntrackOld
        conntrackMatches (slotEvent i) (some (conntrackEntry q 0, c.now)) c.now mid := by
    intro mid d rest hpost
    apply slotActivity_after_add hlast hinit hrecent hq hslot
    intro x hx
    rw [hpost]
    exact List.mem_append_left _ hx
  constructor
  · intro h mid d rest hpost hop
    have hfresh := h mid d rest hpost d.now (slotEvent_eq_sweep_iff.2 ⟨hop, rfl⟩)
    rw [hactivity hpost]
    simpa [conntrackOld, conntrackTimeout] using hfresh
  · intro h mid d rest hpost now hsweep
    obtain ⟨hop, rfl⟩ := slotEvent_eq_sweep_iff.1 hsweep
    have hle := h mid d rest hpost hop
    rw [hactivity hpost] at hle
    simpa [conntrackOld, conntrackTimeout] using hle

/-- What a slot holds is decided by the adds to it and the sweeps since the table was initialised. -/
theorem slotCell_conntrackRun_iff {e : ConntrackEntry} {t : Int}
    (hlast : Latest ConntrackCall.IsReset cs older start recent) (hinit : start.op = .init) :
    slotCell (conntrackRun cs) i = some (e, t) ↔
      ∃ pre c post q, Latest (ConntrackCall.AddsTo i) recent pre c post ∧ c.op = .add q ∧ e = conntrackEntry q 0 ∧
        t = slotActivity i (conntrackRun (older ++ start :: (pre ++ [c]))) c.now post ∧
        ∀ mid d rest, post = mid ++ d :: rest → d.op = .cleanupOld →
          d.now - slotActivity i (conntrackRun (older ++ start :: (pre ++ [c]))) c.now mid ≤ 300 := by
  have hrun : conntrackRun cs = recent.foldl conntrackStep conntrackInit := by
    rw [conntrackRun_of_latest hlast, hinit]
    rfl
  have hempty : slotCell conntrackInit i = none := by simp [slotCell, conntrackInit, ConntrackEntry.zero]
  rw [hrun, slotCell_foldl rfl hlast.later, hempty, SweptCell.run_eq_some_iff]
  simp only [isWrite_slotEvent_iff]
  constructor
  · rintro ⟨pre, c, post, now, hadd, hwrite, ht, hfresh⟩
    obtain ⟨q, hq, hslot, rfl, rfl⟩ := slotEvent_eq_write_iff.1 hwrite
    refine ⟨pre, c, post, q, hadd, hq, rfl, ?_, (neverStale_after_add hlast hinit hadd.split hq hslot).1 hfresh⟩
    rw [ht, slotActivity_after_add hlast hinit hadd.split hq hslot fun d hd => hd]
  · rintro ⟨pre, c, post, q, hadd, hq, rfl, ht, hfresh⟩
    have hslot : conntrackSlot q = i := by
      obtain ⟨q', hq', hslot⟩ := hadd.kind
      rw [hq] at hq'
      cases hq'
      exact hslot
    refine ⟨pre, c, post, c.now, hadd, slotEvent_eq_write_iff.2 ⟨q, hq, hslot, rfl, rfl⟩, ?_,
      (neverStale_after_add hlast hinit hadd.split hq hslot).2 hfresh⟩
    rw [ht, slotActivity_after_add hlast hinit hadd.split hq hslot fun d hd => hd]

end

/-- The entry of `q` that is remembered for `p` is in the slot of `p`. -/
theorem slotCell_of_remembers (h : Remembers cs p q) :
    (conntrackRun cs).initialized = true ∧
      ∃ t, slotCell (conntrackRun cs) (conntrackSlot p) = some (conntrackEntry q 0, t) := by
  obtain ⟨older, start, recent, pre, c, post, hlast, hinit, hadd, hq, -, hfresh⟩ := h
  refine ⟨initialized_conntrackRun_iff.2 ⟨older, start, recent, hlast, hinit⟩, ?_⟩
  exact ⟨_, (slotCell_conntrackRun_iff hlast hinit).2 ⟨pre, c, post, q, hadd, hq, rfl, rfl, hfresh⟩⟩

theorem conntrackMatches_conntrackEntry_iff (now : Int) :
    conntrackMatches p (conntrackEntry q now) = true ↔ SameTuple q p := by
  simp [conntrackMatches, conntrackEntry, SameTuple, and_assoc]

/-- A lookup finds an entry exactly when the calls so far leave one for it. -/
theorem findConntrackEntry_conntrackRun_iff :
    findConntrackEntry (conntrackRun cs) p = some (conntrackSlot p) ↔ ∃ q, Remembers cs p q := by
  constructor
  · intro hfind
    obtain ⟨-, hs, -, -⟩ := findConntrackEntry_eq_some_iff.1 hfind
    obtain ⟨older, start, recent, hlast, hinit⟩ := initialized_conntrackRun_iff.1 hs
    obtain ⟨e, t, hcell, hm⟩ := (findConntrackEntry_iff_slotCell hs).1 hfind
    obtain ⟨pre, c, post, q, hadd, hq, rfl, -, hfresh⟩ := (slotCell_conntrackRun_iff hlast hinit).1 hcell
    have htuple := (conntrackMatches_conntrackEntry_iff 0).1 hm
    exact ⟨q, older, start, recent, pre, c, post, hlast, hinit, hadd, hq, htuple, hfresh⟩
  · rintro ⟨q, h⟩
    obtain ⟨hs, t, hcell⟩ := slotCell_of_remembers h
    obtain ⟨older, start, recent, pre, c, post, -, -, -, -, htuple, -⟩ := h
    exact (findConntrackEntry_iff_slotCell hs).2 ⟨_, t, hcell, (conntrackMatches_conntrackEntry_iff 0).2 htuple⟩

/-- What a lookup reports of the entry that is remembered. -/
theorem conntrackLookup_of_remembers (h : Remembers cs p q) (info : ConntrackInfo) (now : Int) :
    (conntrackLookup (conntrackRun cs) p info now).1 = 0 ∧
      (conntrackLookup (conntrackRun cs) p info now).2.1 = info.fill (conntrackEntry q now) := by
  have hfind := findConntrackEntry_conntrackRun_iff.2 ⟨q, h⟩
  obtain ⟨-, t, hcell⟩ := slotCell_of_remembers h
  obtain ⟨-, -, hv, -⟩ := findConntrackEntry_eq_some_iff.1 hfind
  -- the entry in the slot is the one made from `q`, up to its time
  have hentry : ((conntrackRun cs).entry (conntrackSlot p)).stamp 0 = conntrackEntry q 0 := by
    rw [slotCell, if_pos hv, Option.some.injEq, Prod.mk.injEq] at hcell
    exact hcell.1
  rw [conntrackLookup_of_find hfind]
  refine ⟨rfl, ?_⟩
  exact congrArg (fun e => info.fill (e.stamp now)) hentry

/-! ### Placement -/

/-- Every valid entry is in the slot of its own tuple. -/
def WellPlaced (s : Conntrack) : Prop :=
  ∀ i, (s.entry i).valid = true →
    conntrackHash (s.entry i).srcAddr (s.entry i).dstAddr (s.entry i).srcPort (s.entry i).dstPort = i

theorem wellPlaced_zeroed (b : Bool) : WellPlaced (conntrackZeroed b) := by
  intro i hv
  simp [ConntrackEntry.zero] at hv

theorem WellPlaced.setEntry (h : WellPlaced s) (hi : i < maxConnections) {e : ConntrackEntry}
    (he : conntrackHash e.srcAddr e.dstAddr e.srcPort e.dstPort = i) : WellPlaced (s.setEntry i e) := by
  intro j hv
  by_cases hij : i = j
  · subst hij
    rw [Conntrack.entry_setEntry_self hi]
    exact he
  · rw [Conntrack.entry_setEntry_of_ne hij] at hv ⊢
    exact h j hv

theorem WellPlaced.step (h : WellPlaced s) (c : ConntrackCall) : WellPlaced (conntrackStep s c) := by
  obtain ⟨op, now⟩ := c
  cases op with
  | init => exact wellPlaced_zeroed true
  | cleanup => exact wellPlaced_zeroed false
  | add p =>
    change WellPlaced (conntrackAdd s p now).2
    unfold conntrackAdd
    split
    · exact h
    · exact h.setEntry (conntrackSlot_lt p) rfl
  | lookup p info =>
    change WellPlaced (conntrackLookup s p info now).2.2
    cases hfind : findConntrackEntry s p with
    | none => rwa [conntrackLookup_of_find_none hfind]
    | some j =>
      obtain ⟨rfl, -, hv, -⟩ := findConntrackEntry_eq_some_iff.1 hfind
      rw [conntrackLookup_of_find hfind]
      -- the time of an entry is not part of its place
      exact h.setEntry (conntrackSlot_lt p) (h (conntrackSlot p) hv)
  | cleanupOld =>
    change WellPlaced (conntrackCleanupOld s now).2
    by_cases hs : s.initialized = true
    · intro i hv
      rw [entry_conntrackCleanupOld hs, conntrackSwept] at hv ⊢
      split at hv
      · simp [ConntrackEntry.zero] at hv
      · rename_i hold
        rw [if_neg hold]
        exact h i hv
    · simpa [conntrackCleanupOld, hs] using h

theorem wellPlaced_conntrackRun (cs : List ConntrackCall) : WellPlaced (conntrackRun cs) := by
  induction cs using List.reverseRecOn with
  | nil => exact wellPlaced_zeroed false
  | append_singleton cs c ih =>
    rw [conntrackRun, List.foldl_append]
    exact ih.step c

/-! ### Main result -/

/-- In every reachable table each valid slot holds a tuple that belongs there; a lookup succeeds exactly when the
calls so far leave an entry for the packet, and then reports what was recorded for the packet it came from. -/
theorem conntrack_remembers (cs : List ConntrackCall) :
    (∀ i e, (conntrackRun cs).table[i]? = some e → e.valid = true →
      conntrackHash e.srcAddr e.dstAddr e.srcPort e.dstPort = i) ∧
    ∀ p info now,
      ((conntrackLookup (conntrackRun cs) p info now).1 = 0 ↔ ∃ q, Remembers cs p q) ∧
      ∀ q, Remembers cs p q → (conntrackLookup (conntrackRun cs) p info now).2.1.ttl = q.ttl ∧
        (conntrackLookup (conntrackRun cs) p info now).2.1.protocol = conntrackProtocol q := by
  refine ⟨?_, ?_⟩
  · intro i e he hv
    have hentry : (conntrackRun cs).entry i = e := by simp [Conntrack.entry, he]
    have hplaced := wellPlaced_conntrackRun cs i
    rw [hentry] at hplaced
    exact hplaced hv
  · intro p info now
    refine ⟨?_, ?_⟩
    · rw [conntrackLookup_eq_zero_iff, findConntrackEntry_conntrackRun_iff]
    · intro q h
      rw [(conntrackLookup_of_remembers h info now).2]
      exact ⟨rfl, rfl⟩

end GoodbyeDpi
