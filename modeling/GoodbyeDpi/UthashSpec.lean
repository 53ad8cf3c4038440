import GoodbyeDpi.Uthash
import Mathlib.Data.List.Nodup

/-!
# The hash table keeps its lists

What the operations do to the two lists of every element.  `Uthash.Holds` is the invariant: the elements of the table
are linked in the order of insertion, and every bucket has the chain of just those elements whose hash value belongs
there, with the right counts.  Every operation keeps it and touches no memory but that of the elements.
-/

namespace GoodbyeDpi

open CSem

variable {V α β : Type}

/-! ### Outcomes -/

/-- The run gives a result with this property, or ends with one of these faults. -/
def Returns (E : HashFault → Prop) (r : HashRun α) (P : α → Prop) : Prop :=
  (∃ e, r = .error e ∧ E e) ∨ ∃ a, r = .ok a ∧ P a

variable {E : HashFault → Prop} {r : HashRun α}

theorem returns_ok {a : α} {P : α → Prop} (h : P a) : Returns E (.ok a) P := Or.inr ⟨a, rfl, h⟩

theorem returns_error {e : HashFault} {P : α → Prop} (h : E e) : Returns E (.error e) P := Or.inl ⟨e, rfl, h⟩

theorem Returns.bind {f : α → HashRun β} {P : α → Prop} {Q : β → Prop} (h : Returns E r P)
    (hf : ∀ a, P a → Returns E (f a) Q) : Returns E (r >>= f) Q := by
  obtain ⟨e, rfl, he⟩ | ⟨a, rfl, ha⟩ := h
  · exact returns_error he
  · exact hf a ha

theorem Returns.imp {P Q : α → Prop} (h : Returns E r P) (hPQ : ∀ a, P a → Q a) : Returns E r Q := by
  obtain ⟨e, rfl, he⟩ | ⟨a, rfl, ha⟩ := h
  · exact returns_error he
  · exact returns_ok (hPQ a ha)

@[simp] theorem ok_bind (a : α) (f : α → HashRun β) : (Except.ok a : HashRun α) >>= f = f a := rfl

/-- One of these calls ends the run, with a fault that the call may have; a call that returns leaves the state of its
result to those behind it. -/
inductive EndsIn {σ γ ρ : Type} (call : σ → γ → HashRun ρ) (state : ρ → σ) (own : γ → HashFault → Prop) :
    σ → List γ → HashFault → Prop
  | here {s : σ} {c : γ} {cs : List γ} {e : HashFault} (hcall : call s c = .error e) (hown : own c e) :
    EndsIn call state own s (c :: cs) e
  | later {s : σ} {c : γ} {cs : List γ} {e : HashFault} {r : ρ} (hcall : call s c = .ok r)
    (hrest : EndsIn call state own (state r) cs e) : EndsIn call state own s (c :: cs) e

/-- The first call, and then the rest of the run. -/
theorem Returns.cons {σ γ ρ : Type} {call : σ → γ → HashRun ρ} {state : ρ → σ} {own : γ → HashFault → Prop} {s : σ}
    {c : γ} {cs : List γ} {rest : ρ → HashRun α} {P : ρ → Prop} {Q : α → Prop} (h : Returns (own c) (call s c) P)
    (hrest : ∀ a, call s c = .ok a → P a → Returns (EndsIn call state own (state a) cs) (rest a) Q) :
    Returns (EndsIn call state own s (c :: cs)) (call s c >>= rest) Q := by
  obtain ⟨e, hcall, he⟩ | ⟨a, hcall, ha⟩ := h
  · rw [hcall]
    exact returns_error (.here hcall he)
  · obtain ⟨e, hfail, he⟩ | ⟨b, hok, hb⟩ := hrest a hcall ha
    · rw [hcall, ok_bind, hfail]
      exact returns_error (.later hcall he)
    · rw [hcall, ok_bind, hok]
      exact returns_ok hb

/-! ### Counters -/

theorem incr_eq {n : Nat} (h : n + 1 < 2 ^ 32) : incr n = n + 1 := Nat.mod_eq_of_lt h

theorem decr_eq {n : Nat} (hpos : 0 < n) (h : n < 2 ^ 32) : decr n = n - 1 := by
  unfold decr
  omega

/-- The counters can hold the number of elements in a list. -/
theorem length_lt_of_nodup {l : List ElemAddr} (h : l.Nodup) : l.length < 2 ^ 32 := by
  have hle : l.length ≤ maxElements := by simpa using h.length_le_card
  exact Nat.lt_of_le_of_lt hle (by decide)

/-! ### Accesses -/

namespace HashMemory

variable {m : HashMemory V} {a : ElemAddr}

/-- The pointer is null or points at an element. -/
def Allowed (m : HashMemory V) (o : Option ElemAddr) : Prop := ∀ a ∈ o, (m.elem a).isSome

theorem check_eq (h : (m.elem a).isSome) : m.check a = .ok () := by simp [check, h]

theorem links_eq (h : (m.elem a).isSome) : m.links a = .ok (m.app a) := by simp [links, check_eq h]

theorem hhLinks_eq (h : (m.elem a).isSome) : m.hhLinks a = .ok (m.bkt a) := by simp [hhLinks, check_eq h]

theorem setPrev_eq (h : (m.elem a).isSome) (p : Option ElemAddr) :
    m.setPrev a p = .ok { m with app := CSem.setPrev m.app a p } := by
  simp [setPrev, check_eq h]

theorem setNext_eq (h : (m.elem a).isSome) (n : Option ElemAddr) :
    m.setNext a n = .ok { m with app := CSem.setNext m.app a n } := by
  simp [setNext, check_eq h]

private theorem setHhPrev_eq (h : (m.elem a).isSome) (p : Option ElemAddr) :
    m.setHhPrev a p = .ok { m with bkt := CSem.setPrev m.bkt a p } := by
  simp [setHhPrev, check_eq h]

private theorem setHhNext_eq (h : (m.elem a).isSome) (n : Option ElemAddr) :
    m.setHhNext a n = .ok { m with bkt := CSem.setNext m.bkt a n } := by
  simp [setHhNext, check_eq h]

theorem setKey_eq (h : (m.elem a).isSome) (key : List UInt8) (hashv : UInt32) :
    m.setKey a key hashv =
      .ok { m with key := Function.update m.key a key, hashv := Function.update m.hashv a hashv } := by
  simp [setKey, check_eq h]

variable {o : Option ElemAddr}

theorem setPrevWhere_eq (h : m.Allowed o) (p : Option ElemAddr) :
    setWhere o (fun m a => m.setPrev a p) m = .ok { m with app := setPrevOf m.app o p } := by
  cases o with
  | none => rfl
  | some a => exact setPrev_eq (h a rfl) p

theorem setNextWhere_eq (h : m.Allowed o) (n : Option ElemAddr) :
    setWhere o (fun m a => m.setNext a n) m = .ok { m with app := setNextOf m.app o n } := by
  cases o with
  | none => rfl
  | some a => exact setNext_eq (h a rfl) n

theorem setHhPrevWhere_eq (h : m.Allowed o) (p : Option ElemAddr) :
    setWhere o (fun m a => m.setHhPrev a p) m = .ok { m with bkt := setPrevOf m.bkt o p } := by
  cases o with
  | none => rfl
  | some a => exact setHhPrev_eq (h a rfl) p

theorem setHhNextWhere_eq (h : m.Allowed o) (n : Option ElemAddr) :
    setWhere o (fun m a => m.setHhNext a n) m = .ok { m with bkt := setNextOf m.bkt o n } := by
  cases o with
  | none => rfl
  | some a => exact setHhNext_eq (h a rfl) n

theorem allowed_head {l : List ElemAddr} (h : ∀ a ∈ l, (m.elem a).isSome) : m.Allowed l.head? :=
  fun a ha => h a (List.mem_of_head? ha)

theorem allowed_getLast {l : List ElemAddr} (h : ∀ a ∈ l, (m.elem a).isSome) : m.Allowed l.getLast? :=
  fun a ha => h a (List.mem_of_getLast? ha)

end HashMemory

theorem hashLinkFirst_eq {m : HashMemory V} {head : Option ElemAddr} {a : ElemAddr} (ha : (m.elem a).isSome)
    (hhead : m.Allowed head) :
    hashLinkFirst m head a = .ok { m with bkt := linkFirst m.bkt head a } := by
  have ha' : ∀ B, (({ m with bkt := B } : HashMemory V).elem a).isSome := fun _ => ha
  have hhead' : ∀ B, ({ m with bkt := B } : HashMemory V).Allowed head := fun _ => hhead
  unfold hashLinkFirst
  rw [HashMemory.setHhNext_eq ha, ok_bind, HashMemory.setHhPrev_eq (ha' _), ok_bind,
    HashMemory.setHhPrevWhere_eq (hhead' _)]
  rfl

/-! ### Buckets -/

theorem hashToBkt_lt (hashv : UInt32) {n : Nat} (hn : 0 < n) : hashToBkt hashv n < n := by
  have hle : hashv.toNat &&& (n - 1) ≤ n - 1 := Nat.and_le_right
  unfold hashToBkt
  omega

/-- The bucket is the one of these elements, the first of the chain first. -/
structure ChainHolds (m : HashMemory V) (b : HashBucket) (l : List ElemAddr) : Prop where
  head : b.hhHead = l.head?
  count : b.count = l.length
  linked : Linked m.bkt none l none
  nodup : l.Nodup

/-- The buckets hold the elements in `S`, each of them in the bucket of its hash value. -/
def BucketsHold (m : HashMemory V) (buckets : List HashBucket) (S : ElemAddr → Prop) : Prop :=
  ∀ i b, buckets[i]? = some b →
    ∃ l, ChainHolds m b l ∧ ∀ a, a ∈ l ↔ S a ∧ hashToBkt (m.hashv a) buckets.length = i

variable {m m' : HashMemory V} {buckets : List HashBucket} {S : ElemAddr → Prop}

theorem ChainHolds.congr {b : HashBucket} {l : List ElemAddr} (h : ChainHolds m b l)
    (heq : ∀ a ∈ l, m'.bkt a = m.bkt a) :
    ChainHolds m' b l :=
  ⟨h.head, h.count, h.linked.congr heq, h.nodup⟩

theorem bucketsHold_replicate (m : HashMemory V) (n : Nat) :
    BucketsHold m (List.replicate n ⟨none, 0, 0⟩) fun _ => False := by
  intro i b hb
  obtain rfl := List.eq_of_mem_replicate (List.mem_of_getElem? hb)
  exact ⟨[], ⟨rfl, rfl, trivial, List.nodup_nil⟩, by simp⟩

/-- Only the pointers and the hash values of the elements matter. -/
theorem BucketsHold.congr {S' : ElemAddr → Prop} (h : BucketsHold m buckets S) (hS : ∀ a, S' a ↔ S a)
    (hbkt : ∀ a, S a → m'.bkt a = m.bkt a) (hhashv : ∀ a, S a → m'.hashv a = m.hashv a) :
    BucketsHold m' buckets S' := by
  intro i b hb
  obtain ⟨l, hl, hmem⟩ := h i b hb
  refine ⟨l, hl.congr fun a ha => hbkt a ((hmem a).1 ha).1, fun a => ?_⟩
  rw [hmem a, hS a]
  refine and_congr_right fun ha => ?_
  rw [hhashv a ha]

/-- An element that is not in the table yet becomes the first one of its bucket. -/
theorem BucketsHold.push (h : BucketsHold m buckets S) {x : ElemAddr} {i : Nat} {b : HashBucket} (hx : ¬ S x)
    (hb : buckets[i]? = some b) (hi : hashToBkt (m.hashv x) buckets.length = i) (mult : Nat) :
    BucketsHold { m with bkt := linkFirst m.bkt b.hhHead x } (buckets.set i ⟨some x, incr b.count, mult⟩)
      fun a => a = x ∨ S a := by
  intro j c hc
  obtain ⟨l, hl, hmem⟩ := h i b hb
  have hxl : x ∉ l := fun hxl => hx ((hmem x).1 hxl).1
  rw [List.length_set]
  by_cases hij : i = j
  · subst hij
    rw [List.getElem?_set_self (List.getElem?_eq_some_iff.1 hb).1] at hc
    obtain rfl := Option.some.inj hc
    have hnodup : (x :: l).Nodup := List.nodup_cons.2 ⟨hxl, hl.nodup⟩
    have hcount : incr b.count = (x :: l).length := by rw [hl.count, incr_eq (length_lt_of_nodup hnodup)]; rfl
    refine ⟨x :: l, ⟨rfl, hcount, ?_, hnodup⟩, fun a => ?_⟩
    · rw [hl.head]
      exact hl.linked.linkFirst hnodup
    · rw [List.mem_cons, hmem a]
      constructor
      · rintro (rfl | ⟨ha, hai⟩)
        · exact ⟨Or.inl rfl, hi⟩
        · exact ⟨Or.inr ha, hai⟩
      · rintro ⟨rfl | ha, hai⟩
        · exact Or.inl rfl
        · exact Or.inr ⟨ha, hai⟩
  · rw [List.getElem?_set_ne hij] at hc
    obtain ⟨k, hk, hmemk⟩ := h j c hc
    refine ⟨k, hk.congr fun a ha => linkFirst_of_ne ?_ ?_, fun a => ?_⟩
    · rintro rfl
      exact hx ((hmemk a).1 ha).1
    · -- the element that was first in the chain is in bucket `i`
      intro hhead
      rw [hl.head] at hhead
      exact hij (((hmem a).1 (List.mem_of_head? hhead)).2.symm.trans ((hmemk a).1 ha).2)
    · rw [hmemk a]
      constructor
      · rintro ⟨ha, hai⟩
        exact ⟨Or.inr ha, hai⟩
      · rintro ⟨rfl | ha, hai⟩
        · exact absurd (hi.symm.trans hai) hij
        · exact ⟨ha, hai⟩

/-- An element of the table is taken out of its bucket. -/
theorem BucketsHold.remove (h : BucketsHold m buckets S) {x : ElemAddr} {i : Nat} {b : HashBucket} (hx : S x)
    (hb : buckets[i]? = some b) (hi : hashToBkt (m.hashv x) buckets.length = i) :
    BucketsHold { m with bkt := unlink m.bkt x }
      (buckets.set i
        { b with hhHead := if b.hhHead = some x then (m.bkt x).next else b.hhHead, count := decr b.count })
      fun a => S a ∧ a ≠ x := by
  intro j c hc
  obtain ⟨l, hl, hmem⟩ := h i b hb
  obtain ⟨l₁, l₂, rfl⟩ := List.append_of_mem ((hmem x).2 ⟨hx, hi⟩)
  rw [List.length_set]
  by_cases hij : i = j
  · subst hij
    rw [List.getElem?_set_self (List.getElem?_eq_some_iff.1 hb).1] at hc
    obtain rfl := Option.some.inj hc
    obtain ⟨hnodup₁, hcons, hdisj⟩ := List.nodup_append.1 hl.nodup
    obtain ⟨hx₂, hnodup₂⟩ := List.nodup_cons.1 hcons
    have hx₁ : x ∉ l₁ := fun hx₁ => hdisj x hx₁ x List.mem_cons_self rfl
    refine ⟨l₁ ++ l₂, ⟨?_, ?_, hl.linked.unlink hl.nodup, ?_⟩, fun a => ?_⟩
    · rw [hl.head, hl.linked.neighbours.2]
      cases l₁ with
      | nil => simp
      | cons y l₁ =>
        have hne : y ≠ x := fun hyx => hx₁ (hyx ▸ List.mem_cons_self)
        simp [hne]
    · have hlen : (l₁ ++ x :: l₂).length = (l₁ ++ l₂).length + 1 := by simp [Nat.add_assoc]
      rw [hl.count, decr_eq (by rw [hlen]; exact Nat.succ_pos _) (length_lt_of_nodup hl.nodup), hlen]
      rfl
    · exact hl.nodup.sublist (List.Sublist.append_left (List.sublist_cons_self x l₂) l₁)
    · have hmema := hmem a
      rw [List.mem_append, List.mem_cons] at hmema
      rw [List.mem_append]
      constructor
      · intro ha
        obtain ⟨haS, hai⟩ := hmema.1 (ha.imp_right Or.inr)
        refine ⟨⟨haS, ?_⟩, hai⟩
        rintro rfl
        exact ha.elim hx₁ hx₂
      · rintro ⟨⟨haS, hax⟩, hai⟩
        have ha := hmema.2 ⟨haS, hai⟩
        tauto
  · rw [List.getElem?_set_ne hij] at hc
    obtain ⟨k, hk, hmemk⟩ := h j c hc
    refine ⟨k, hk.congr fun a ha => hl.linked.unlink_of_notMem fun hal => ?_, fun a => ?_⟩
    · exact hij (((hmem a).1 hal).2.symm.trans ((hmemk a).1 ha).2)
    · rw [hmemk a]
      constructor
      · rintro ⟨ha, hai⟩
        refine ⟨⟨ha, ?_⟩, hai⟩
        rintro rfl
        exact hij (hi.symm.trans hai)
      · rintro ⟨⟨ha, -⟩, hai⟩
        exact ⟨ha, hai⟩

/-! ### Expansion -/

/-- The elements in `S` have gone to their new buckets, and no other one was touched. -/
structure Expanded (m : HashMemory V) (numNew : Nat) (S : ElemAddr → Prop) (x : Expansion V) : Prop where
  mem : x.mem = { m with bkt := x.mem.bkt }
  kept : ∀ y, ¬ S y → x.mem.bkt y = m.bkt y
  length : x.newBuckets.length = numNew
  holds : BucketsHold x.mem x.newBuckets S

variable {numNew : Nat} {x : Expansion V}

theorem Expanded.imp {S' : ElemAddr → Prop} (h : Expanded m numNew S x) (hS : ∀ a, S' a ↔ S a) :
    Expanded m numNew S' x :=
  ⟨h.mem, fun y hy => h.kept y fun hy' => hy ((hS y).2 hy'), h.length, h.holds.congr hS (fun _ _ => rfl) fun _ _ => rfl⟩

theorem Expanded.item (h : Expanded m numNew S x) (hpos : 0 < numNew) (hlive : ∀ a, S a → (m.elem a).isSome)
    {a : ElemAddr} (ha : ¬ S a) (hlivea : (m.elem a).isSome) (ideal : Nat) :
    ∃ x', expandItem numNew ideal a x = .ok x' ∧ Expanded m numNew (fun c => c = a ∨ S c) x' := by
  have helem : x.mem.elem = m.elem := by rw [h.mem]
  have hlt : hashToBkt (x.mem.hashv a) numNew < x.newBuckets.length := by
    rw [h.length]
    exact hashToBkt_lt _ hpos
  obtain ⟨b, hb⟩ : ∃ b, x.newBuckets[hashToBkt (x.mem.hashv a) numNew]? = some b := ⟨_, List.getElem?_eq_getElem hlt⟩
  obtain ⟨l, hl, hmem⟩ := h.holds _ _ hb
  have hhead : x.mem.Allowed b.hhHead := by
    rw [hl.head]
    refine HashMemory.allowed_head fun c hc => ?_
    rw [helem]
    exact hlive c ((hmem c).1 hc).1
  rw [← helem] at hlivea
  unfold expandItem bucketAt
  rw [HashMemory.check_eq hlivea, ok_bind]
  dsimp only
  rw [hb, Option.elim_some, ok_bind, hashLinkFirst_eq hlivea hhead]
  refine ⟨_, rfl, ⟨?_, fun y hy => ?_, ?_, ?_⟩⟩
  · change ({ x.mem with bkt := linkFirst x.mem.bkt b.hhHead a } : HashMemory V) = _
    rw [h.mem]
  · have hya : y ≠ a := fun hya => hy (Or.inl hya)
    have hyS : ¬ S y := fun hyS => hy (Or.inr hyS)
    refine (linkFirst_of_ne hya fun hhead => hyS ?_).trans (h.kept y hyS)
    rw [hl.head] at hhead
    exact ((hmem y).1 (List.mem_of_head? hhead)).1
  · exact (List.length_set ..).trans h.length
  · exact h.holds.push ha hb (by rw [h.length]) _

/-- The elements of one old chain go to their new buckets. -/
theorem Expanded.chain (h : Expanded m numNew S x) (hpos : 0 < numNew) (hlive : ∀ a, S a → (m.elem a).isSome)
    {l : List ElemAddr} {b : Option ElemAddr} (hl : Linked m.bkt b l none) (hnodup : l.Nodup) (hnew : ∀ a ∈ l, ¬ S a)
    (hlivel : ∀ a ∈ l, (m.elem a).isSome) {fuel : Nat} (hfuel : l.length ≤ fuel) (ideal : Nat) :
    ∃ x', expandChain numNew ideal fuel l.head? x = .ok x' ∧ Expanded m numNew (fun c => c ∈ l ∨ S c) x' := by
  induction l generalizing S x b fuel with
  | nil =>
    unfold expandChain
    exact ⟨x, rfl, h.imp fun a => by simp⟩
  | cons a l ih =>
    obtain ⟨fuel, rfl⟩ : ∃ k, fuel = k + 1 := ⟨fuel - 1, by simp at hfuel; omega⟩
    obtain ⟨hal, hnodupl⟩ := List.nodup_cons.1 hnodup
    obtain ⟨-, hnext, hlinked⟩ := hl
    have ha := hnew a List.mem_cons_self
    have hlivea := hlivel a List.mem_cons_self
    have hcheck : (x.mem.elem a).isSome := by
      rw [h.mem]
      exact hlivea
    obtain ⟨x₁, hx₁, h₁⟩ := h.item hpos hlive ha hlivea ideal
    -- the pointer to the rest of the chain is read before the element moves
    have hrest : (x.mem.bkt a).next = l.head? := by rw [h.kept a ha, hnext, Option.or_none]
    obtain ⟨x₂, hx₂, h₂⟩ := ih h₁ (by rintro c (rfl | hc); exacts [hlivea, hlive c hc]) hlinked hnodupl
      (by rintro c hc (rfl | hcS); exacts [hal hc, hnew c (List.mem_cons_of_mem _ hc) hcS])
      (fun c hc => hlivel c (List.mem_cons_of_mem _ hc)) (by simpa using hfuel)
    refine ⟨x₂, ?_, h₂.imp fun c => by rw [List.mem_cons]; tauto⟩
    simp only [List.head?_cons, expandChain]
    rw [HashMemory.hhLinks_eq hcheck, ok_bind, hx₁, ok_bind, hrest, hx₂]

/-- The elements of the old buckets from number `i` on go to their new buckets. -/
theorem Expanded.run (hold : BucketsHold m buckets S) (hlive : ∀ a, S a → (m.elem a).isSome) (hpos : 0 < numNew)
    (hposold : 0 < buckets.length) {fuel : Nat}
    (hfuel : ∀ l : List ElemAddr, l.Nodup → (∀ a ∈ l, S a) → l.length ≤ fuel) (ideal : Nat) {left i : Nat}
    (hleft : i + left = buckets.length)
    (h : Expanded m numNew (fun a => S a ∧ hashToBkt (m.hashv a) buckets.length < i) x) :
    ∃ x', expandBuckets buckets numNew ideal fuel left i x = .ok x' ∧ Expanded m numNew S x' := by
  induction left generalizing i x with
  | zero =>
    unfold expandBuckets
    refine ⟨x, rfl, h.imp fun a => ⟨fun ha => ⟨ha, ?_⟩, fun ha => ha.1⟩⟩
    obtain rfl : i = buckets.length := by omega
    exact hashToBkt_lt _ hposold
  | succ left ih =>
    have hi : i < buckets.length := by omega
    obtain ⟨l, hl, hmem⟩ := hold i buckets[i] (List.getElem?_eq_getElem hi)
    have hSl : ∀ a ∈ l, S a := fun a ha => ((hmem a).1 ha).1
    obtain ⟨x₁, hx₁, h₁⟩ := h.chain hpos (fun a ha => hlive a ha.1) hl.linked hl.nodup
      (by rintro a ha ⟨-, hlt⟩; have := ((hmem a).1 ha).2; omega)
      (fun a ha => hlive a (hSl a ha)) (hfuel l hl.nodup hSl) ideal
    obtain ⟨x₂, hx₂, h₂⟩ := ih (i := i + 1) (by omega) (h₁.imp fun a => by
      rw [hmem a]
      constructor
      · rintro ⟨ha, hlt⟩
        rcases Nat.lt_succ_iff_lt_or_eq.1 hlt with hlt | heq
        · exact Or.inr ⟨ha, hlt⟩
        · exact Or.inl ⟨ha, heq⟩
      · rintro (⟨ha, heq⟩ | ⟨ha, hlt⟩)
        · exact ⟨ha, by omega⟩
        · exact ⟨ha, by omega⟩)
    refine ⟨x₂, ?_, h₂⟩
    unfold expandBuckets bucketAt
    rw [List.getElem?_eq_getElem hi, Option.elim_some, ok_bind, hl.head, hx₁, ok_bind, hx₂]

end GoodbyeDpi
