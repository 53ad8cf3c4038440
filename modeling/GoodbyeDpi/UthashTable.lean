import GoodbyeDpi.UthashSpec

/-!
# The hash table keeps its invariant

`Uthash.Holds` is the invariant of a table with the elements `items`, in the order of insertion.  Adding, finding and
deleting keep it, `HASH_ITER` visits the elements in order even where the body deletes and frees the element it is
at, and no operation touches memory that is not allocated.
-/

namespace GoodbyeDpi

open CSem

variable {V α : Type}

/-- The block of the table, for the elements `items`. -/
structure TableHolds (m : HashMemory V) (t : HashTable) (items : List ElemAddr) : Prop where
  tail : items.getLast? = some t.tail
  numItems : t.numItems = items.length
  numBuckets : t.numBuckets = 2 ^ t.log2NumBuckets
  small : t.log2NumBuckets ≤ 31
  length : t.buckets.length = t.numBuckets
  buckets : BucketsHold m t.buckets (· ∈ items)

/-- The invariant: the elements are linked in this order, with the right keys and hash values, and the table is there
when there is an element. -/
structure Uthash.Holds (hash : List UInt8 → UInt32) (s : Uthash V) (items : List ElemAddr) : Prop where
  head : s.head = items.head?
  live : ∀ a ∈ items, (s.mem.elem a).isSome
  nodup : items.Nodup
  linked : Linked s.mem.app none items none
  hashv : ∀ a ∈ items, s.mem.hashv a = hash (s.mem.key a)
  tbl : s.tbl = none ∧ items = [] ∨ ∃ t, s.tbl = some t ∧ TableHolds s.mem t items

/-- The table before anything is added. -/
def Uthash.empty : Uthash V where
  mem := .empty
  head := none
  tbl := none

variable {hash : List UInt8 → UInt32} {m : HashMemory V} {t : HashTable} {s : Uthash V} {items : List ElemAddr}

theorem TableHolds.ne_nil (h : TableHolds m t items) : items ≠ [] := by
  rintro rfl
  cases h.tail

theorem TableHolds.pos (h : TableHolds m t items) : 0 < t.numBuckets := by
  rw [h.numBuckets]
  exact Nat.two_pow_pos _

/-! ### Adding -/

private theorem hashExpandBuckets_returns (mal : Malloc V) (h : TableHolds m t items)
    (hlive : ∀ a ∈ items, (m.elem a).isSome) :
    Returns mal.Refuses (hashExpandBuckets mal m t) fun r =>
      ∃ B, r.1 = { m with bkt := B } ∧ TableHolds r.1 r.2 items := by
  have hpos := h.pos
  have hstart : Expanded m (t.numBuckets * 2)
      (fun a => a ∈ items ∧ hashToBkt (m.hashv a) t.buckets.length < 0)
      { mem := m, newBuckets := List.replicate (t.numBuckets * 2) ⟨none, 0, 0⟩, nonidealItems := 0 } :=
    ⟨rfl, fun _ _ => rfl, List.length_replicate,
      (bucketsHold_replicate m (t.numBuckets * 2)).congr (fun a => by simp) (fun _ _ => rfl) fun _ _ => rfl⟩
  unfold hashExpandBuckets
  dsimp only
  cases hblock : mal.block (hashBucketSize * t.numBuckets * 2) with
  | false => exact returns_error hblock
  | true =>
    -- a block of that size has a number of buckets that the counters can hold
    have hsize := mal.bounded hblock
    have hlog : t.log2NumBuckets + 1 ≤ 31 := by
      rw [h.numBuckets, show hashBucketSize = 2 ^ 4 from rfl, ← Nat.pow_add, ← Nat.pow_succ] at hsize
      have := (Nat.pow_lt_pow_iff_right (by decide)).1 hsize
      omega
    have hwrap : t.numBuckets * 2 % 2 ^ 32 = t.numBuckets * 2 := by
      refine Nat.mod_eq_of_lt ?_
      rw [h.numBuckets, ← Nat.pow_succ]
      exact Nat.pow_lt_pow_right (by decide) (by omega)
    have hposold : 0 < t.buckets.length := by rw [h.length]; exact hpos
    obtain ⟨x, hx, hexp⟩ := Expanded.run h.buckets hlive (by omega : 0 < t.numBuckets * 2) hposold
      (fun l hl hsub => hl.length_le_of_subset hsub)
      (items.length >>> (t.log2NumBuckets + 1) + if items.length &&& (t.numBuckets * 2 - 1) ≠ 0 then 1 else 0)
      (by rw [h.length, Nat.zero_add]) hstart
    simp only [Bool.not_true, Bool.false_eq_true, if_false]
    rw [h.numItems, hwrap, hx, ok_bind]
    refine returns_ok ⟨x.mem.bkt, hexp.mem, ⟨h.tail, rfl, ?_, hlog, hexp.length, hexp.holds⟩⟩
    rw [h.numBuckets, Nat.pow_succ]

variable {add : ElemAddr}

private theorem hashAddToBkt_returns (mal : Malloc V) (hb : BucketsHold m t.buckets (· ∈ items))
    (hlive : ∀ a ∈ items ++ [add], (m.elem a).isSome) (hadd : add ∉ items) (htail : t.tail = add)
    (hnum : t.numItems = items.length + 1) (hwidth : t.numBuckets = 2 ^ t.log2NumBuckets)
    (hsmall : t.log2NumBuckets ≤ 31) (hlen : t.buckets.length = t.numBuckets) :
    Returns mal.Refuses (hashAddToBkt mal m t (hashToBkt (m.hashv add) t.numBuckets) add) fun r =>
      ∃ B, r.1 = { m with bkt := B } ∧ TableHolds r.1 r.2 (items ++ [add]) := by
  have hlt : hashToBkt (m.hashv add) t.numBuckets < t.buckets.length := by
    rw [hlen]
    exact hashToBkt_lt _ (by rw [hwidth]; exact Nat.two_pow_pos _)
  obtain ⟨b, hbkt⟩ : ∃ b, t.buckets[hashToBkt (m.hashv add) t.numBuckets]? = some b := ⟨_, List.getElem?_eq_getElem hlt⟩
  obtain ⟨l, hl, hmem⟩ := hb _ _ hbkt
  have hlive_add : (m.elem add).isSome := hlive add (by simp)
  have hhead : m.Allowed b.hhHead := by
    rw [hl.head]
    exact HashMemory.allowed_head fun c hc => hlive c (List.mem_append_left _ ((hmem c).1 hc).1)
  have hpush := hb.push hadd hbkt (by rw [hlen]) b.expandMult
  have hholds : TableHolds { m with bkt := linkFirst m.bkt b.hhHead add }
      { t with buckets := t.buckets.set (hashToBkt (m.hashv add) t.numBuckets) ⟨some add, incr b.count, b.expandMult⟩ }
      (items ++ [add]) := by
    refine ⟨by simp [htail], by simp [hnum], hwidth, hsmall, (List.length_set ..).trans hlen, ?_⟩
    exact hpush.congr (fun a => by simp [or_comm]) (fun _ _ => rfl) fun _ _ => rfl
  unfold hashAddToBkt bucketAt
  rw [hbkt, Option.elim_some, ok_bind, hashLinkFirst_eq hlive_add hhead, ok_bind]
  dsimp only
  split
  · refine (hashExpandBuckets_returns mal hholds hlive).imp ?_
    rintro ⟨m', t'⟩ ⟨B, rfl, h'⟩
    exact ⟨B, rfl, h'⟩
  · exact returns_ok ⟨_, rfl, hholds⟩

/-- The element is linked behind the others already, and the block of the table has it as the last one. -/
private theorem hashAddToTable_returns (mal : Malloc V) (hb : BucketsHold m t.buckets (· ∈ items))
    (hlive : ∀ a ∈ items ++ [add], (m.elem a).isSome) (hnodup : (items ++ [add]).Nodup)
    (hlinked : Linked m.app none (items ++ [add]) none) (hhashv : ∀ a ∈ items ++ [add], m.hashv a = hash (m.key a))
    (htail : t.tail = add) (hnum : t.numItems = items.length) (hwidth : t.numBuckets = 2 ^ t.log2NumBuckets)
    (hsmall : t.log2NumBuckets ≤ 31) (hlen : t.buckets.length = t.numBuckets) :
    Returns mal.Refuses (hashAddToTable mal m (items ++ [add]).head? t (m.hashv add) add) fun s' =>
      s'.Holds hash (items ++ [add]) ∧ s'.mem.elem = m.elem ∧ s'.mem.key = m.key := by
  have hadd : add ∉ items := fun hadd => (List.nodup_append.1 hnodup).2.2 add hadd add List.mem_cons_self rfl
  have hcount : incr t.numItems = items.length + 1 := by
    have hlt := length_lt_of_nodup hnodup
    rw [List.length_append, List.length_singleton] at hlt
    rw [hnum, incr_eq hlt]
  unfold hashAddToTable
  refine Returns.bind (hashAddToBkt_returns mal (t := { t with numItems := incr t.numItems }) hb hlive hadd htail
    hcount hwidth hsmall hlen) ?_
  rintro ⟨m', t'⟩ ⟨B, rfl, ht'⟩
  exact returns_ok ⟨⟨rfl, hlive, hnodup, hlinked, hhashv, Or.inr ⟨t', rfl, ht'⟩⟩, rfl, rfl⟩

private theorem hashMakeTable_returns (mal : Malloc V) (add : ElemAddr) :
    Returns mal.Refuses (hashMakeTable mal add) fun t =>
      t.buckets = List.replicate t.numBuckets ⟨none, 0, 0⟩ ∧ t.numBuckets = 2 ^ t.log2NumBuckets ∧
        t.log2NumBuckets ≤ 31 ∧ t.numItems = 0 ∧ t.tail = add := by
  unfold hashMakeTable
  dsimp only
  split
  next hblock =>
    have hrefused : mal.block hashTableSize = false := by simpa using hblock
    exact returns_error hrefused
  next =>
    split
    next hblock =>
      have hrefused : mal.block (hashInitialNumBuckets * hashBucketSize) = false := by simpa using hblock
      exact returns_error hrefused
    next => exact returns_ok ⟨rfl, rfl, (by decide : hashInitialNumBucketsLog2 ≤ 31), rfl, rfl⟩

/-- Adding puts the element behind all others, under its key. -/
private theorem hashAddKeyptr_returns (mal : Malloc V) (h : s.Holds hash items) (hadd : add ∉ items)
    (hlive : (s.mem.elem add).isSome) (key : List UInt8) :
    Returns mal.Refuses (hashAddKeyptr mal s key (hash key) add) fun s' =>
      s'.Holds hash (items ++ [add]) ∧ s'.mem.elem = s.mem.elem ∧ s'.mem.key = Function.update s.mem.key add key := by
  have hold : ∀ a ∈ items, a ≠ add := fun a ha hne => hadd (hne ▸ ha)
  have hnodup : (items ++ [add]).Nodup := by
    refine List.nodup_append.2 ⟨h.nodup, List.nodup_singleton add, fun a ha b hb => ?_⟩
    rw [List.mem_singleton.1 hb]
    exact hold a ha
  have hlives : ∀ a ∈ items ++ [add], (s.mem.elem a).isSome := by
    intro a ha
    rcases List.mem_append.1 ha with ha | ha
    · exact h.live a ha
    · rw [List.mem_singleton.1 ha]
      exact hlive
  -- the memory with the key of the new element
  obtain ⟨m, hm⟩ : ∃ m : HashMemory V, m = { s.mem with
    key := Function.update s.mem.key add key
    hashv := Function.update s.mem.hashv add (hash key) } := ⟨_, rfl⟩
  have hhashv : ∀ a ∈ items ++ [add], m.hashv a = hash (m.key a) := by
    intro a ha
    rw [hm]
    dsimp only
    rcases List.mem_append.1 ha with ha | ha
    · rw [Function.update_of_ne (hold a ha), Function.update_of_ne (hold a ha)]
      exact h.hashv a ha
    · rw [List.mem_singleton.1 ha, Function.update_self, Function.update_self]
  have hself : m.hashv add = hash key := by rw [hm]; exact Function.update_self ..
  have helem : m.elem = s.mem.elem := by rw [hm]
  have hkey : m.key = Function.update s.mem.key add key := by rw [hm]
  have happ : m.app = s.mem.app := by rw [hm]
  have hbkt : m.bkt = s.mem.bkt := by rw [hm]
  have hlivem : ∀ A, (({ m with app := A } : HashMemory V).elem add).isSome := by
    intro A
    change (m.elem add).isSome
    rw [helem]
    exact hlive
  rw [← helem] at hlives
  unfold hashAddKeyptr
  rw [HashMemory.setKey_eq hlive, ok_bind, ← hm, ← hself, ← hkey, ← helem]
  rcases h.tbl with ⟨htbl, rfl⟩ | ⟨t, htbl, ht⟩
  · rw [h.head]
    simp only [List.head?_nil]
    rw [HashMemory.setNext_eq (hlivem m.app), ok_bind, HashMemory.setPrev_eq (hlivem _), ok_bind]
    refine (hashMakeTable_returns mal add).bind ?_
    rintro t ⟨hbuckets, hwidth, hsmall, hnum, htail⟩
    refine hashAddToTable_returns mal (m := { m with app := CSem.setPrev (CSem.setNext m.app add none) add none })
      ?_ hlives hnodup ?_ hhashv htail hnum hwidth hsmall ?_
    · rw [hbuckets]
      exact (bucketsHold_replicate _ t.numBuckets).congr (fun a => by simp) (fun _ _ => rfl) fun _ _ => rfl
    · simp
    · rw [hbuckets, List.length_replicate]
  · have hheads : (items ++ [add]).head? = s.head := by
      rw [h.head, List.head?_append_of_ne_nil _ ht.ne_nil]
    obtain ⟨head, hhead⟩ : ∃ head, s.head = some head := by
      rw [h.head]
      exact ⟨_, List.head?_eq_some_head ht.ne_nil⟩
    have htail : (m.elem t.tail).isSome := by
      rw [helem]
      exact h.live _ (List.mem_of_getLast? ht.tail)
    have htails : ∀ A, (({ m with app := A } : HashMemory V).elem t.tail).isSome := fun _ => htail
    rw [hhead]
    dsimp only
    unfold Uthash.table hashAppendList
    rw [htbl, Option.elim_some, ok_bind, HashMemory.setNext_eq (hlivem m.app), ok_bind,
      HashMemory.setPrev_eq (hlivem _), ok_bind, HashMemory.setNext_eq (htails _), ok_bind, ← hhead, ← hheads]
    refine hashAddToTable_returns mal (m := { m with app := linkLast m.app t.tail add })
      ?_ hlives hnodup ?_ hhashv rfl ht.numItems ht.numBuckets ht.small ht.length
    · refine ht.buckets.congr (fun _ => Iff.rfl) (fun a _ => ?_) fun a ha => ?_
      · exact congrFun hbkt a
      · change m.hashv a = _
        rw [hm]
        exact Function.update_of_ne (hold a ha) ..
    · change Linked (linkLast m.app t.tail add) none (items ++ [add]) none
      rw [happ]
      exact h.linked.linkLast ht.tail hnodup

/-! ### Finding -/

/-- The search of a chain takes the first element with the hash value and the key. -/
private theorem hashFindInBkt_eq {l : List ElemAddr} {b : Option ElemAddr} (hl : Linked m.bkt b l none)
    (hlive : ∀ a ∈ l, (m.elem a).isSome) (key : List UInt8) (hashval : UInt32) {fuel : Nat} (hfuel : l.length ≤ fuel) :
    hashFindInBkt m key hashval fuel l.head? = .ok (l.find? fun a => m.hashv a = hashval ∧ m.key a = key) := by
  induction l generalizing b fuel with
  | nil => simp [hashFindInBkt]
  | cons a l ih =>
    obtain ⟨fuel, rfl⟩ : ∃ k, fuel = k + 1 := ⟨fuel - 1, by simp at hfuel; omega⟩
    obtain ⟨-, hnext, hlinked⟩ := hl
    have hrest := ih hlinked (fun c hc => hlive c (List.mem_cons_of_mem _ hc)) (by simpa using hfuel)
    simp only [List.head?_cons, hashFindInBkt]
    rw [HashMemory.hhLinks_eq (hlive a List.mem_cons_self), ok_bind, hnext, Option.or_none, hrest, List.find?_cons]
    by_cases ha : m.hashv a = hashval ∧ m.key a = key
    · simp [ha]
    · simp [ha]

/-- The search ends, at an element with the key where there is one. -/
theorem hashFind_eq (h : s.Holds hash items) (key : List UInt8) :
    ∃ o, hashFind s key (hash key) = .ok o ∧ (∀ a ∈ o, a ∈ items ∧ s.mem.key a = key) ∧
      (o = none → ∀ a ∈ items, s.mem.key a ≠ key) := by
  unfold hashFind
  rcases h.tbl with ⟨-, rfl⟩ | ⟨t, htbl, ht⟩
  · rw [h.head]
    exact ⟨none, rfl, by simp, by simp⟩
  · have hhead : s.head = some (items.head ht.ne_nil) := by rw [h.head, List.head?_eq_some_head]
    have hlt : hashToBkt (hash key) t.numBuckets < t.buckets.length := by
      rw [ht.length]
      exact hashToBkt_lt _ ht.pos
    obtain ⟨b, hb⟩ : ∃ b, t.buckets[hashToBkt (hash key) t.numBuckets]? = some b := ⟨_, List.getElem?_eq_getElem hlt⟩
    obtain ⟨l, hl, hmem⟩ := ht.buckets _ _ hb
    have hsub : ∀ a ∈ l, a ∈ items := fun a ha => ((hmem a).1 ha).1
    have hfuel : l.length ≤ t.numItems := by
      rw [ht.numItems]
      exact hl.nodup.length_le_of_subset hsub
    refine ⟨l.find? fun a => s.mem.hashv a = hash key ∧ s.mem.key a = key, ?_, fun a ha => ?_, fun hnone a ha => ?_⟩
    · rw [hhead]
      unfold Uthash.table bucketAt
      simp only [htbl, Option.elim_some, ok_bind, hb, hl.head]
      exact hashFindInBkt_eq hl.linked (fun a ha => h.live a (hsub a ha)) key (hash key) hfuel
    · have hfound := List.find?_some ha
      simp only [decide_eq_true_eq] at hfound
      exact ⟨hsub a (List.mem_of_find?_eq_some ha), hfound.2⟩
    · -- an element with the key has the hash value of the key, so it is in the bucket that was searched
      intro hkey
      have hhashv : s.mem.hashv a = hash key := by rw [h.hashv a ha, hkey]
      have hal : a ∈ l := (hmem a).2 ⟨ha, by rw [hhashv, ht.length]⟩
      have hmiss := List.find?_eq_none.1 hnone a hal
      simp [hhashv, hkey] at hmiss

/-! ### Deleting -/

private theorem hashDelInBkt_eq {del : ElemAddr} (hb : BucketsHold m t.buckets (· ∈ items))
    (hlive : ∀ a ∈ items, (m.elem a).isSome) (hdel : del ∈ items) (hpos : 0 < t.numBuckets)
    (hlen : t.buckets.length = t.numBuckets) :
    ∃ buckets', hashDelInBkt m t (hashToBkt (m.hashv del) t.numBuckets) del =
        .ok ({ m with bkt := unlink m.bkt del }, { t with buckets := buckets' }) ∧
      buckets'.length = t.numBuckets ∧
      BucketsHold { m with bkt := unlink m.bkt del } buckets' fun a => a ∈ items ∧ a ≠ del := by
  have hlt : hashToBkt (m.hashv del) t.numBuckets < t.buckets.length := by
    rw [hlen]
    exact hashToBkt_lt _ hpos
  obtain ⟨b, hbkt⟩ : ∃ b, t.buckets[hashToBkt (m.hashv del) t.numBuckets]? = some b := ⟨_, List.getElem?_eq_getElem hlt⟩
  obtain ⟨l, hl, hmem⟩ := hb _ _ hbkt
  have hlives : ∀ a ∈ l, (m.elem a).isSome := fun a ha => hlive a ((hmem a).1 ha).1
  obtain ⟨l₁, l₂, rfl⟩ := List.append_of_mem ((hmem del).2 ⟨hdel, by rw [hlen]⟩)
  obtain ⟨hprev, hnext⟩ := hl.linked.neighbours
  rw [Option.or_none] at hprev hnext
  have hdisj := (List.nodup_append.1 hl.nodup).2.2
  have hallow₁ : m.Allowed (m.bkt del).prev := by
    rw [hprev]
    exact HashMemory.allowed_getLast fun a ha => hlives a (List.mem_append_left _ ha)
  have hallow₂ : m.Allowed (m.bkt del).next := by
    rw [hnext]
    exact HashMemory.allowed_head fun a ha => hlives a (List.mem_append_right _ (List.mem_cons_of_mem _ ha))
  have hlive_del : ∀ B, (({ m with bkt := B } : HashMemory V).elem del).isSome := fun _ => hlive del hdel
  have hallow₂' : ∀ B, ({ m with bkt := B } : HashMemory V).Allowed (m.bkt del).next := fun _ => hallow₂
  -- the write to the neighbour in front leaves the pointers of the element itself alone
  have hself : setNextOf m.bkt (m.bkt del).prev (m.bkt del).next del = m.bkt del := by
    refine setNextOf_of_ne (fun hp => ?_) _
    rw [hprev] at hp
    exact hdisj del (List.mem_of_getLast? hp) del List.mem_cons_self rfl
  refine ⟨_, ?_, ?_, hb.remove hdel hbkt (by rw [hlen])⟩
  · unfold hashDelInBkt bucketAt
    rw [hbkt, Option.elim_some, ok_bind, HashMemory.hhLinks_eq (hlive_del m.bkt), ok_bind]
    dsimp only
    rw [HashMemory.setHhNextWhere_eq hallow₁, ok_bind, HashMemory.hhLinks_eq (hlive_del _), ok_bind]
    dsimp only
    rw [hself, HashMemory.setHhPrevWhere_eq (hallow₂' _), ok_bind]
    rfl
  · exact (List.length_set ..).trans hlen

/-- The element behind which new ones go after a deletion. -/
private theorem tailWithout_eq {l₁ l₂ : List ElemAddr} {del : ElemAddr}
    (htail : (l₁ ++ del :: l₂).getLast? = some t.tail) (hnodup : (l₁ ++ del :: l₂).Nodup) (hne : l₁ ++ l₂ ≠ []) :
    ∃ tail, tailWithout t del l₁.getLast? = .ok tail ∧ (l₁ ++ l₂).getLast? = some tail := by
  rw [List.getLast?_append_of_ne_nil _ (List.cons_ne_nil del l₂)] at htail
  unfold tailWithout
  cases l₂ with
  | nil =>
    rw [List.append_nil] at hne ⊢
    have hlast : l₁.getLast? = some (l₁.getLast hne) := List.getLast?_eq_some_getLast hne
    have heq : del = t.tail := by simpa using htail
    rw [if_pos heq, hlast]
    exact ⟨_, rfl, rfl⟩
  | cons b l₂ =>
    rw [List.getLast?_cons_cons] at htail
    have hmem := List.mem_of_getLast? htail
    have hdel : del ≠ t.tail := by
      rintro rfl
      exact (List.nodup_cons.1 (List.nodup_append.1 hnodup).2.1).1 hmem
    rw [if_neg hdel, List.getLast?_append_of_ne_nil _ (List.cons_ne_nil b l₂), htail]
    exact ⟨_, rfl, rfl⟩

/-- Deleting takes the element out of the list and out of its bucket; the last one takes the table with it. -/
private theorem hashDelete_eq {l₁ l₂ : List ElemAddr} {del : ElemAddr} (h : s.Holds hash (l₁ ++ del :: l₂)) :
    ∃ s', hashDelete s del = .ok s' ∧ s'.Holds hash (l₁ ++ l₂) ∧ s'.mem.elem = s.mem.elem ∧
      s'.mem.key = s.mem.key := by
  have hdel : del ∈ l₁ ++ del :: l₂ := by simp
  have hsub : ∀ a ∈ l₁ ++ l₂, a ∈ l₁ ++ del :: l₂ := fun a ha => by
    rw [List.mem_append] at ha
    rw [List.mem_append, List.mem_cons]
    exact ha.imp_right Or.inr
  have hnodup : (l₁ ++ l₂).Nodup :=
    h.nodup.sublist (List.Sublist.append_left (List.sublist_cons_self del l₂) l₁)
  have hmem : ∀ a, a ∈ l₁ ++ l₂ ↔ a ∈ l₁ ++ del :: l₂ ∧ a ≠ del := by
    intro a
    have hdel₁ : ∀ a ∈ l₁, a ≠ del := fun a ha => (List.nodup_append.1 h.nodup).2.2 a ha del List.mem_cons_self
    have hdel₂ : ∀ a ∈ l₂, a ≠ del := by
      rintro a ha rfl
      exact (List.nodup_cons.1 (List.nodup_append.1 h.nodup).2.1).1 ha
    constructor
    · intro ha
      refine ⟨hsub a ha, ?_⟩
      exact (List.mem_append.1 ha).elim (hdel₁ a) (hdel₂ a)
    · rintro ⟨ha, hne⟩
      rw [List.mem_append, List.mem_cons] at ha
      rw [List.mem_append]
      tauto
  obtain ⟨hprev, hnext⟩ := h.linked.neighbours
  rw [Option.or_none] at hprev hnext
  obtain ⟨t, htbl, ht⟩ : ∃ t, s.tbl = some t ∧ TableHolds s.mem t (l₁ ++ del :: l₂) := by
    rcases h.tbl with ⟨-, hnil⟩ | ht
    · simp at hnil
    · exact ht
  have hlive_del := h.live del hdel
  have hlive_del' : ∀ A, (({ s.mem with app := A } : HashMemory V).elem del).isSome := fun _ => hlive_del
  unfold hashDelete Uthash.table
  rw [HashMemory.links_eq hlive_del, ok_bind, htbl, Option.elim_some, ok_bind]
  by_cases hnil : l₁ ++ l₂ = []
  · obtain ⟨rfl, rfl⟩ := List.append_eq_nil_iff.1 hnil
    rw [if_pos ⟨hprev, hnext⟩]
    exact ⟨_, rfl, ⟨rfl, by simp, List.nodup_nil, trivial, by simp, Or.inl ⟨rfl, rfl⟩⟩, rfl, rfl⟩
  · have hsome : ¬ ((s.mem.app del).prev = none ∧ (s.mem.app del).next = none) := by
      rw [hprev, hnext, List.getLast?_eq_none_iff, List.head?_eq_none_iff]
      rintro ⟨rfl, rfl⟩
      exact hnil rfl
    obtain ⟨tail', htail, htail'⟩ := tailWithout_eq ht.tail h.nodup hnil
    have hallow₁ : s.mem.Allowed (s.mem.app del).prev := by
      rw [hprev]
      exact HashMemory.allowed_getLast fun a ha => h.live a (hsub a (List.mem_append_left _ ha))
    have hallow₂ : ∀ A, ({ s.mem with app := A } : HashMemory V).Allowed (s.mem.app del).next := by
      intro A
      rw [hnext]
      exact HashMemory.allowed_head fun a ha => h.live a (hsub a (List.mem_append_right _ ha))
    have hself : setNextOf s.mem.app (s.mem.app del).prev (s.mem.app del).next del = s.mem.app del := by
      refine setNextOf_of_ne (fun hp => ?_) _
      rw [hprev] at hp
      exact (List.nodup_append.1 h.nodup).2.2 del (List.mem_of_getLast? hp) del List.mem_cons_self rfl
    obtain ⟨buckets', hbkt, hlen, hbuckets⟩ :=
      hashDelInBkt_eq (m := { s.mem with app := unlink s.mem.app del }) (t := { t with tail := tail' })
        (ht.buckets.congr (fun _ => Iff.rfl) (fun _ _ => rfl) fun _ _ => rfl) h.live hdel ht.pos ht.length
    rw [if_neg hsome, hprev, htail, ok_bind, ← hprev, HashMemory.setNextWhere_eq hallow₁, ok_bind,
      HashMemory.links_eq (hlive_del' _), ok_bind]
    dsimp only
    rw [hself, HashMemory.setPrevWhere_eq (hallow₂ _), ok_bind]
    dsimp only
    have hunlink : setPrevOf (setNextOf s.mem.app (s.mem.app del).prev (s.mem.app del).next) (s.mem.app del).next
        (s.mem.app del).prev = unlink s.mem.app del := rfl
    rw [hunlink]
    dsimp only at hbkt
    rw [hbkt, ok_bind]
    refine ⟨_, rfl, ⟨?_, fun a ha => h.live a (hsub a ha), hnodup, h.linked.unlink h.nodup,
      fun a ha => h.hashv a (hsub a ha), Or.inr ⟨_, rfl, ⟨htail', ?_, ht.numBuckets, ht.small, hlen, ?_⟩⟩⟩, rfl, rfl⟩
    · rw [hprev, hnext, h.head]
      cases l₁ with
      | nil => rfl
      | cons b l₁ => simp [List.getLast?_cons]
    · have hlen : (l₁ ++ del :: l₂).length = (l₁ ++ l₂).length + 1 := by simp [Nat.add_assoc]
      rw [ht.numItems, decr_eq (by rw [hlen]; exact Nat.succ_pos _) (length_lt_of_nodup h.nodup), hlen]
      rfl
    · exact hbuckets.congr hmem (fun _ _ => rfl) fun _ _ => rfl

/-! ### Visiting -/

/-- What the program stores in the elements does not matter to the table, as long as they are allocated. -/
theorem Uthash.Holds.withElem (h : s.Holds hash items) {elem : ElemAddr → Option V}
    (helem : ∀ a ∈ items, (elem a).isSome) :
    Uthash.Holds hash { s with mem := { s.mem with elem } } items := by
  refine ⟨h.head, helem, h.nodup, h.linked, h.hashv, ?_⟩
  rcases h.tbl with hnone | ⟨t, htbl, ht⟩
  · exact Or.inl hnone
  · exact Or.inr ⟨t, htbl, ht.tail, ht.numItems, ht.numBuckets, ht.small, ht.length,
      ht.buckets.congr (fun _ => Iff.rfl) (fun _ _ => rfl) fun _ _ => rfl⟩

/-! ### Elements that come and go -/

/-- The table has these elements, and nothing else is allocated. -/
def HoldsOnly (hash : List UInt8 → UInt32) (s : Uthash V) (items : List ElemAddr) : Prop :=
  s.Holds hash items ∧ ∀ a, (s.mem.elem a).isSome → a ∈ items

/-- An element is allocated and added. -/
theorem HoldsOnly.insert (h : HoldsOnly hash s items) {mal : Malloc V} {a : ElemAddr}
    (hmal : mal.element s.mem = some a) (key : List UInt8) (v : V) :
    Returns mal.Refuses (hashAddKeyptr mal { s with mem := s.mem.alloc a v } key (hash key) a) fun s' =>
      HoldsOnly hash s' (items ++ [a]) ∧ a ∉ items ∧ s'.mem.elem = Function.update s.mem.elem a (some v) ∧
        s'.mem.key = Function.update s.mem.key a key := by
  obtain ⟨hs, honly⟩ := h
  have ha : a ∉ items := fun ha => by
    have hlive := hs.live a ha
    rw [mal.fresh hmal] at hlive
    cases hlive
  have halloc : Uthash.Holds hash { s with mem := s.mem.alloc a v } items := by
    refine hs.withElem fun b hb => ?_
    have hba : b ≠ a := fun hba => ha (hba ▸ hb)
    rw [Function.update_of_ne hba]
    exact hs.live b hb
  have hlive : ((s.mem.alloc a v).elem a).isSome := by simp [HashMemory.alloc]
  refine (hashAddKeyptr_returns mal halloc ha hlive key).imp ?_
  rintro s' ⟨hs', helem, hkey⟩
  refine ⟨⟨hs', fun b hb => ?_⟩, ha, helem, hkey⟩
  rw [helem] at hb
  by_cases hba : b = a
  · simp [hba]
  · rw [show (s.mem.alloc a v).elem b = s.mem.elem b from Function.update_of_ne hba ..] at hb
    exact List.mem_append_left _ (honly b hb)

/-- An element is deleted and freed. -/
theorem HoldsOnly.delete {l₁ l₂ : List ElemAddr} {a : ElemAddr} (h : HoldsOnly hash s (l₁ ++ a :: l₂)) :
    ∃ s' m, hashDelete s a = .ok s' ∧ s'.mem.free a = .ok m ∧
      HoldsOnly hash { s' with mem := m } (l₁ ++ l₂) ∧ a ∉ l₁ ++ l₂ ∧
      m.elem = Function.update s.mem.elem a none ∧ m.key = s.mem.key := by
  obtain ⟨hs, honly⟩ := h
  obtain ⟨s', hs', hholds, helem, hkey⟩ := hashDelete_eq hs
  have ha : a ∉ l₁ ++ l₂ := by
    have hnodup := hs.nodup
    rw [List.nodup_middle] at hnodup
    exact (List.nodup_cons.1 hnodup).1
  have hlive : (s'.mem.elem a).isSome := by
    rw [helem]
    exact hs.live a (by simp)
  refine ⟨s', { s'.mem with elem := Function.update s'.mem.elem a none }, hs', ?_, ⟨?_, fun b hb => ?_⟩, ha, ?_, hkey⟩
  · unfold HashMemory.free
    rw [HashMemory.check_eq hlive, ok_bind]
  · refine hholds.withElem fun b hb => ?_
    have hba : b ≠ a := fun hba => ha (hba ▸ hb)
    rw [Function.update_of_ne hba]
    exact hholds.live b hb
  · dsimp only at hb
    have hba : b ≠ a := by
      rintro rfl
      simp at hb
    rw [Function.update_of_ne hba, helem] at hb
    have hmem := honly b hb
    rw [List.mem_append, List.mem_cons] at hmem
    rw [List.mem_append]
    tauto
  · dsimp only
    rw [helem]

end GoodbyeDpi
