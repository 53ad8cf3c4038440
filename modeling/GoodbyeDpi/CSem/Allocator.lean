import GoodbyeDpi.CSem.Memory
import GoodbyeDpi.CSem.Protocol
import Mathlib.Algebra.Group.Nat.Defs
import Mathlib.Data.List.Nodup
import Mathlib.Logic.Function.Basic

/-!
# `malloc` and `free`

The protocol of the heap: `free`, reads and writes go to blocks that are allocated, and `malloc` gives a new block with
any content, or a null pointer.  `Owns` says which places of a program hold the allocated blocks: every pointer that is
not null is one, no two places hold the same, and, as long as no pointer has been overwritten, there is no other block.
-/

namespace CSem

/-- The allocated blocks: address and content. -/
abbrev Blocks := List (Nat × List UInt8)

inductive MemCall where
  | malloc (n : Nat)
  | free (p : Nat)
  /-- The first `n` bytes of a block. -/
  | read (p n : Nat)
  /-- Bytes put into a block at an offset. -/
  | write (p off : Nat) (bytes : List UInt8)
deriving DecidableEq, Repr

/-- `malloc` answers with an address, 0 for none, and with what the block holds. -/
@[reducible] def MemCall.Answer : MemCall → Type
  | malloc _ => Nat × List UInt8
  | read _ _ => List UInt8
  | free _ | write _ _ _ => Unit

abbrev MemProc := Proc MemCall MemCall.Answer

/-- The heap; no block is larger than `PTRDIFF_MAX`. -/
def allocator : Protocol MemCall MemCall.Answer Blocks where
  ok := fun h c => match c with
    | .malloc _ => True
    | .free p => p ∈ h.map Prod.fst
    | .read p n => ∃ b, (p, b) ∈ h ∧ n ≤ b.length
    | .write p off bytes => ∃ b, (p, b) ∈ h ∧ off + bytes.length ≤ b.length
  may := fun h c => match c with
    | .malloc n => fun r => r.1 ≠ 0 → r.1 ∉ h.map Prod.fst ∧ r.2.length = n ∧ n < 2 ^ 63
    | .read p n => fun r => ∀ b, (p, b) ∈ h → r = b.take n
    | .free _ | .write _ _ _ => fun _ => True
  next := fun h c => match c with
    | .malloc _ => fun r => if r.1 = 0 then h else r :: h
    | .free p => fun _ => h.filter (·.1 ≠ p)
    | .read _ _ => fun _ => h
    | .write p off bytes => fun _ => h.map fun b => if b.1 = p then (p, overwrite b.2 off bytes) else b

/-- `p = malloc(n); if (p) memcpy(p, src, n);` for a source with these bytes. -/
def mallocCopy (n : Nat) (bytes : List UInt8) : MemProc Nat := do
  let r ← Proc.ask (MemCall.malloc n)
  if r.1 = 0 then pure 0
  else
    let _ ← Proc.ask (MemCall.write r.1 0 bytes)
    pure r.1

/-- The same for a source that is a block. -/
def mallocDup (n src : Nat) : MemProc Nat := do
  let r ← Proc.ask (MemCall.malloc n)
  if r.1 = 0 then pure 0
  else
    let bytes ← Proc.ask (MemCall.read src n)
    let _ ← Proc.ask (MemCall.write r.1 0 bytes)
    pure r.1

variable {h : Blocks} {n p : Nat} {b bytes : List UInt8}

/-- A null pointer and nothing changed, or a new block. -/
def NewBlock (h : Blocks) (n : Nat) (b : List UInt8) (p : Nat) (h' : Blocks) : Prop :=
  p = 0 ∧ h' = h ∨ p ≠ 0 ∧ p ∉ h.map Prod.fst ∧ n < 2 ^ 63 ∧ h' = (p, b) :: h

theorem NewBlock.subset {h' : Blocks} (hnew : NewBlock h n b p h') : h ⊆ h' := by
  rcases hnew with ⟨-, rfl⟩ | ⟨-, -, -, rfl⟩
  · exact List.Subset.refl _
  · exact List.subset_cons_self _ _

/-- A write into the block that is new. -/
theorem next_write_new (hp : p ∉ h.map Prod.fst) (off : Nat) (bytes : List UInt8) :
    allocator.next ((p, b) :: h) (.write p off bytes) () = (p, overwrite b off bytes) :: h := by
  have hother : h.map (fun b => if b.1 = p then (p, overwrite b.2 off bytes) else b) = h := by
    have hid : ∀ c ∈ h, (if c.1 = p then (p, overwrite c.2 off bytes) else c) = id c := by
      intro c hc
      refine if_neg fun heq => hp ?_
      rw [← heq]
      exact List.mem_map_of_mem hc
    rw [List.map_congr_left hid, List.map_id]
  change ((p, b) :: h).map (fun b => if b.1 = p then (p, overwrite b.2 off bytes) else b) = _
  rw [List.map_cons, if_pos rfl, hother]

/-- A write that fills the block. -/
theorem overwrite_all (hlen : bytes.length = b.length) : overwrite b 0 bytes = bytes := by
  rw [overwrite, List.take_zero, List.nil_append, Nat.zero_add, List.drop_eq_nil_of_le (Nat.le_of_eq hlen.symm),
    List.append_nil]

/-- The answer of `malloc`, for a log. -/
def MemCall.granted : (c : MemCall) → c.Answer → List Bool
  | .malloc _, r => [decide (r.1 ≠ 0)]
  | _, _ => []

/-- A new block if `malloc` grants it, and the answer in the log. -/
theorem mallocCopy_logged (hn : bytes.length = n) (l : List Bool) :
    Meets (allocator.logged MemCall.granted) (mallocCopy n bytes) (h, l) fun p x =>
      NewBlock h n bytes p x.1 ∧ x.2 = l ++ [decide (p ≠ 0)] := by
  refine meets_ask_bind.2 ⟨trivial, fun r hr => meets_ite.2 ⟨fun h0 => ?_, fun h0 => ?_⟩⟩
  · have hlog : l ++ [decide (r.1 ≠ 0)] = l ++ [decide (0 ≠ 0)] := by rw [h0]
    exact ⟨Or.inl ⟨rfl, if_pos h0⟩, hlog⟩
  · obtain ⟨hfresh, hlen, hsmall⟩ := hr h0
    have hnext : allocator.next h (.malloc n) r = r :: h := if_neg h0
    refine meets_ask_bind.2 ⟨⟨r.2, ?_, by omega⟩, fun _ _ => ⟨Or.inr ⟨h0, hfresh, hsmall, ?_⟩, List.append_nil _⟩⟩
    · change r ∈ allocator.next h (.malloc n) r
      rw [hnext]
      exact List.mem_cons_self
    · change allocator.next (allocator.next h (.malloc n) r) (.write r.1 0 bytes) () = _
      rw [hnext, next_write_new hfresh, overwrite_all (hn.trans hlen.symm)]

theorem meets_mallocCopy (hn : bytes.length = n) : Meets allocator (mallocCopy n bytes) h (NewBlock h n bytes) :=
  Meets.of_logged ((mallocCopy_logged hn []).imp fun _ _ hnew => hnew.1)

theorem mallocDup_logged {src : Nat} (hsrc : (src, b) ∈ h) (hn : b.length = n) (l : List Bool) :
    Meets (allocator.logged MemCall.granted) (mallocDup n src) (h, l) fun p x =>
      NewBlock h n b p x.1 ∧ x.2 = l ++ [decide (p ≠ 0)] := by
  refine meets_ask_bind.2 ⟨trivial, fun r hr => meets_ite.2 ⟨fun h0 => ?_, fun h0 => ?_⟩⟩
  · have hlog : l ++ [decide (r.1 ≠ 0)] = l ++ [decide (0 ≠ 0)] := by rw [h0]
    exact ⟨Or.inl ⟨rfl, if_pos h0⟩, hlog⟩
  · obtain ⟨hfresh, hlen, hsmall⟩ := hr h0
    have hnext : allocator.next h (.malloc n) r = r :: h := if_neg h0
    have hmem : (src, b) ∈ r :: h := List.mem_cons_of_mem _ hsrc
    have hlog : l ++ [decide (r.1 ≠ 0)] ++ [] ++ [] = l ++ [decide (r.1 ≠ 0)] := by
      rw [List.append_nil, List.append_nil]
    change Meets _ _ (allocator.next h (.malloc n) r, l ++ [decide (r.1 ≠ 0)]) _
    rw [hnext]
    refine meets_ask_bind.2 ⟨⟨b, hmem, Nat.le_of_eq hn.symm⟩, fun bytes hbytes => ?_⟩
    obtain rfl : bytes = b := (hbytes b hmem).trans (List.take_of_length_le (Nat.le_of_eq hn))
    refine meets_ask_bind.2 ⟨⟨r.2, List.mem_cons_self, by omega⟩, fun _ _ => ⟨Or.inr ⟨h0, hfresh, hsmall, ?_⟩, hlog⟩⟩
    change allocator.next (r :: h) (.write r.1 0 bytes) () = _
    rw [next_write_new hfresh, overwrite_all (hn.trans hlen.symm)]

theorem meets_mallocDup {src : Nat} (hsrc : (src, b) ∈ h) (hn : b.length = n) :
    Meets allocator (mallocDup n src) h (NewBlock h n b) :=
  Meets.of_logged ((mallocDup_logged hsrc hn []).imp fun _ _ hnew => hnew.1)

/-! ### Owners -/

/-- The places `i` hold the pointers `ptr i` to blocks of `size i` bytes; they hold all blocks if `n = 0`. -/
structure Owns {ι : Type} (ptr size : ι → Nat) (n : Nat) (h : Blocks) : Prop where
  nodup : (h.map Prod.fst).Nodup
  nonzero : ∀ b ∈ h, b.1 ≠ 0
  live : ∀ i, ptr i ≠ 0 → ∃ b, (ptr i, b) ∈ h ∧ b.length = size i
  apart : ∀ i j, ptr i ≠ 0 → ptr i = ptr j → i = j
  all : n = 0 → ∀ b ∈ h, ∃ i, ptr i = b.1

section

variable {ι : Type} {ptr size ptr' size' : ι → Nat} {m : Nat} {i : ι}

theorem Owns.live_mem (ho : Owns ptr size n h) (hi : ptr i ≠ 0) : ptr i ∈ h.map Prod.fst := by
  obtain ⟨b, hb, -⟩ := ho.live i hi
  exact List.mem_map_of_mem hb

/-- The sizes matter where there is a pointer. -/
theorem Owns.congr (ho : Owns ptr size n h) (hptr : ∀ j, ptr' j = ptr j) (hsize : ∀ j, ptr j ≠ 0 → size' j = size j)
    (hm : m = 0 → n = 0) : Owns ptr' size' m h where
  nodup := ho.nodup
  nonzero := ho.nonzero
  live j hj := by
    rw [hptr] at hj ⊢
    obtain ⟨b, hb, hlen⟩ := ho.live j hj
    exact ⟨b, hb, hlen.trans (hsize j hj).symm⟩
  apart j k hj hjk := by
    rw [hptr] at hj
    rw [hptr, hptr] at hjk
    exact ho.apart j k hj hjk
  all h0 b hb := by
    obtain ⟨j, hj⟩ := ho.all (hm h0) b hb
    exact ⟨j, (hptr j).trans hj⟩

variable [DecidableEq ι]

/-- A place whose pointer is overwritten by null. -/
theorem Owns.forget (ho : Owns ptr size n h) (i : ι) (hm : m = 0 → n = 0 ∧ ptr i = 0) :
    Owns (Function.update ptr i 0) size m h where
  nodup := ho.nodup
  nonzero := ho.nonzero
  live j hj := by
    have hji : j ≠ i := by
      rintro rfl
      exact hj (Function.update_self ..)
    rw [Function.update_of_ne hji] at hj ⊢
    exact ho.live j hj
  apart j k hj hjk := by
    have hji : j ≠ i := by
      rintro rfl
      exact hj (Function.update_self ..)
    have hki : k ≠ i := by
      rintro rfl
      rw [hjk] at hj
      exact hj (Function.update_self ..)
    rw [Function.update_of_ne hji] at hj
    rw [Function.update_of_ne hji, Function.update_of_ne hki] at hjk
    exact ho.apart j k hj hjk
  all h0 b hb := by
    obtain ⟨hn, hi⟩ := hm h0
    obtain ⟨j, hj⟩ := ho.all hn b hb
    have hji : j ≠ i := by
      rintro rfl
      exact ho.nonzero b hb (hj.symm.trans hi)
    exact ⟨j, (Function.update_of_ne hji ..).trans hj⟩

/-- A place that gets a new block. -/
theorem Owns.alloc (ho : Owns ptr size n h) (i : ι) (hm : m = 0 → n = 0 ∧ ptr i = 0) (hp : p ≠ 0)
    (hfresh : p ∉ h.map Prod.fst) (hb : b.length = size' i) (hsize : ∀ j, j ≠ i → size' j = size j) :
    Owns (Function.update ptr i p) size' m ((p, b) :: h) where
  nodup := List.nodup_cons.2 ⟨hfresh, ho.nodup⟩
  nonzero c hc := by
    rcases List.mem_cons.1 hc with rfl | hc
    · exact hp
    · exact ho.nonzero c hc
  live j hj := by
    by_cases hji : j = i
    · subst hji
      rw [Function.update_self]
      exact ⟨b, List.mem_cons_self, hb⟩
    · rw [Function.update_of_ne hji] at hj ⊢
      obtain ⟨c, hc, hlen⟩ := ho.live j hj
      exact ⟨c, List.mem_cons_of_mem _ hc, hlen.trans (hsize j hji).symm⟩
  apart j k hj hjk := by
    have hne {j : ι} (hj : ptr j ≠ 0) : ptr j ≠ p := fun heq => hfresh (heq ▸ ho.live_mem hj)
    by_cases hji : j = i <;> by_cases hki : k = i
    · rw [hji, hki]
    · rw [hji, Function.update_self, Function.update_of_ne hki] at hjk
      exact absurd hjk.symm (hne (hjk ▸ hp))
    · rw [Function.update_of_ne hji] at hj
      rw [hki, Function.update_self, Function.update_of_ne hji] at hjk
      exact absurd hjk (hne hj)
    · rw [Function.update_of_ne hji] at hj
      rw [Function.update_of_ne hji, Function.update_of_ne hki] at hjk
      exact ho.apart j k hj hjk
  all h0 c hc := by
    rcases List.mem_cons.1 hc with rfl | hc
    · exact ⟨i, Function.update_self ..⟩
    · obtain ⟨hn, hi⟩ := hm h0
      obtain ⟨j, hj⟩ := ho.all hn c hc
      have hji : j ≠ i := by
        rintro rfl
        exact ho.nonzero c hc (hj.symm.trans hi)
      exact ⟨j, (Function.update_of_ne hji ..).trans hj⟩

/-- A place whose block is freed. -/
theorem Owns.free (ho : Owns ptr size n h) (i : ι) (hi : ptr i ≠ 0) :
    Owns (Function.update ptr i 0) size n (allocator.next h (.free (ptr i)) ()) where
  nodup := ho.nodup.sublist (List.filter_sublist.map Prod.fst)
  nonzero c hc := ho.nonzero c (List.mem_of_mem_filter hc)
  live j hj := by
    have hji : j ≠ i := by
      rintro rfl
      exact hj (Function.update_self ..)
    rw [Function.update_of_ne hji] at hj ⊢
    obtain ⟨c, hc, hlen⟩ := ho.live j hj
    refine ⟨c, List.mem_filter.2 ⟨hc, ?_⟩, hlen⟩
    simpa using fun heq => hji (ho.apart j i hj heq)
  apart j k hj hjk := (ho.forget i (m := n + 1) (fun h0 => absurd h0 (Nat.succ_ne_zero n))).apart j k hj hjk
  all h0 c hc := by
    obtain ⟨hmem, hne⟩ := List.mem_filter.1 hc
    obtain ⟨j, hj⟩ := ho.all h0 c hmem
    have hji : j ≠ i := by
      rintro rfl
      simp [hj] at hne
    exact ⟨j, (Function.update_of_ne hji ..).trans hj⟩

end

end CSem
