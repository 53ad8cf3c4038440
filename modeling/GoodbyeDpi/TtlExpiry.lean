import GoodbyeDpi.TtlInvariant
import GoodbyeDpi.CSem.Memory
import GoodbyeDpi.CSem.WhileLoop

/-!
# Expiry in the TTL table

The loop of `ttl_tracker_cleanup_expired` as the source runs it: the guard compares the index with a size that shrinks
while the loop runs, and an expired entry is removed by a `memmove` of all later ones.  Every slot that is touched is
logged.  The loop ends, keeps to the array, and what is left is the old table without its expired entries.
-/

namespace GoodbyeDpi

open CSem FilledArray

/-- The array that `ttl_tracker_cleanup_expired` works on. -/
inductive TtlMemory
  | ttlTable
deriving DecidableEq, Repr

/-- The variables of the loop, and the slots touched so far. -/
structure CleanupState where
  i : Nat
  removed : Nat
  table : TtlTable
  accesses : List (Access TtlMemory)

/-- `memmove(&ttl_table[i], &ttl_table[i + 1], (ttl_table_size - i - 1) * …)` in slots. -/
def shiftAccesses (size i : Nat) : List (Access TtlMemory) :=
  [.sub size i, .sub (size - i) 1,
    .read .ttlTable (i + 1) (size - i - 1) maxTtlEntries, .write .ttlTable i (size - i - 1) maxTtlEntries]

/-- One turn of the loop. -/
def cleanupStep (now : Int) (s : CleanupState) : Option CleanupState :=
  if s.i < s.table.size then
    let looked := s.accesses ++ [.read .ttlTable s.i 1 maxTtlEntries]
    if ttlExpired now (s.table.slots.getD s.i TtlEntry.zero) then
      some
        { i := s.i
          removed := s.removed + 1
          table := s.table.removeAt s.i
          accesses := looked ++ shiftAccesses s.table.size s.i }
    else some { s with i := s.i + 1, accesses := looked }
  else none

def cleanupStart (t : TtlTable) : CleanupState := ⟨0, 0, t, []⟩

/-! ### One turn -/

/-- A turn drops the entry at the index or moves on to the next. -/
theorem cleanupStep_cases {now : Int} {s s' : CleanupState} (h : cleanupStep now s = some s') :
    s.i < s.table.size ∧
    (ttlExpired now (s.table.slots.getD s.i TtlEntry.zero) ∧ s'.i = s.i ∧ s'.removed = s.removed + 1 ∧
        s'.table = s.table.removeAt s.i ∧
        s'.accesses = s.accesses ++ [.read .ttlTable s.i 1 maxTtlEntries] ++ shiftAccesses s.table.size s.i ∨
      ¬ ttlExpired now (s.table.slots.getD s.i TtlEntry.zero) ∧ s'.i = s.i + 1 ∧ s'.removed = s.removed ∧
        s'.table = s.table ∧ s'.accesses = s.accesses ++ [.read .ttlTable s.i 1 maxTtlEntries]) := by
  unfold cleanupStep at h
  split at h
  · rename_i hi
    simp only at h
    split at h
    · rename_i hexp
      cases h
      exact ⟨hi, Or.inl ⟨hexp, rfl, rfl, rfl, rfl⟩⟩
    · rename_i hexp
      cases h
      exact ⟨hi, Or.inr ⟨hexp, rfl, rfl, rfl, rfl⟩⟩
  · cases h

theorem cleanupStep_eq_none_iff {now : Int} {s : CleanupState} : cleanupStep now s = none ↔ s.table.size ≤ s.i := by
  unfold cleanupStep
  by_cases hi : s.i < s.table.size
  · rw [if_pos hi]
    simp only
    split <;> simp [hi]
  · rw [if_neg hi]
    simp only [true_iff]
    omega

/-- The entries to come and the index, in `cleanupLoop`. -/
def CleanupState.rest (now : Int) (s : CleanupState) : Nat × TtlTable :=
  cleanupLoop now (s.table.size - s.i) s.i s.removed s.table

theorem rest_cleanupStep {now : Int} {s s' : CleanupState} (h : cleanupStep now s = some s') :
    s'.rest now = s.rest now := by
  obtain ⟨hi, ⟨hexp, h1, h2, h3, -⟩ | ⟨hexp, h1, h2, h3, -⟩⟩ := cleanupStep_cases h
  · have hsize : s.table.size - s.i = (s.table.removeAt s.i).size - s.i + 1 := by
      have : (s.table.removeAt s.i).size = s.table.size - 1 := rfl
      omega
    unfold CleanupState.rest
    rw [h1, h2, h3, hsize, cleanupLoop, if_pos hexp]
  · have hsize : s.table.size - s.i = s.table.size - (s.i + 1) + 1 := by omega
    unfold CleanupState.rest
    rw [h1, h2, h3, hsize, cleanupLoop, if_neg hexp]

/-! ### The loop -/

/-- What holds at the guard, for a loop that began with `size` entries and will give `result`. -/
structure CleanupInv (now : Int) (size : Nat) (result : Nat × TtlTable) (s : CleanupState) : Prop where
  index_le : s.i ≤ s.table.size
  size_eq : s.removed + s.table.size = size
  size_le : size ≤ maxTtlEntries
  rest_eq : s.rest now = result
  ok : ∀ a ∈ s.accesses, a.Ok

private theorem shiftAccesses_ok {size i : Nat} (hi : i < size) (hsize : size ≤ maxTtlEntries) :
    ∀ a ∈ shiftAccesses size i, a.Ok := by
  intro a ha
  simp only [shiftAccesses, List.mem_cons, List.not_mem_nil, or_false] at ha
  rcases ha with rfl | rfl | rfl | rfl
  · exact Access.ok_sub.2 (by omega)
  · exact Access.ok_sub.2 (by omega)
  · exact Access.ok_read.2 (by omega)
  · exact Access.ok_write.2 (by omega)

theorem CleanupInv.step {now : Int} {size : Nat} {result : Nat × TtlTable} {s s' : CleanupState}
    (h : CleanupInv now size result s) (hs : cleanupStep now s = some s') :
    CleanupInv now size result s' ∧ s'.table.size - s'.i < s.table.size - s.i := by
  have hrest := (rest_cleanupStep hs).trans h.rest_eq
  have hsize := h.size_eq
  have hle := h.size_le
  obtain ⟨hi, hturn⟩ := cleanupStep_cases hs
  have hlook : ∀ a ∈ s.accesses ++ [.read .ttlTable s.i 1 maxTtlEntries], a.Ok := by
    intro a ha
    rcases List.mem_append.1 ha with ha | ha
    · exact h.ok a ha
    · rw [List.mem_singleton.1 ha]
      exact Access.ok_read.2 (by omega)
  rcases hturn with ⟨-, h1, h2, h3, h4⟩ | ⟨-, h1, h2, h3, h4⟩
  · have hshrunk : s'.table.size = s.table.size - 1 := by rw [h3]; rfl
    refine ⟨⟨by omega, by omega, hle, hrest, ?_⟩, by omega⟩
    rw [h4]
    intro a ha
    rcases List.mem_append.1 ha with ha | ha
    · exact hlook a ha
    · exact shiftAccesses_ok hi (by omega) a ha
  · have hsame : s'.table.size = s.table.size := by rw [h3]
    refine ⟨⟨by omega, by omega, hle, hrest, ?_⟩, by omega⟩
    rw [h4]
    exact hlook

theorem cleanupInv_start {t : TtlTable} (h : t.size ≤ maxTtlEntries) (now : Int) :
    CleanupInv now t.size (ttlTrackerCleanupExpired t now) (cleanupStart t) where
  index_le := Nat.zero_le _
  size_eq := Nat.zero_add _
  size_le := h
  rest_eq := rfl
  ok := by
    intro a ha
    cases ha

/-- The entry has been seen within the timeout that applies to it. -/
def StillFresh (now : Int) (e : TtlEntry) : Prop := now - e.lastSeen ≤ if e.isEstablished then 300 else 30

instance (now : Int) (e : TtlEntry) : Decidable (StillFresh now e) := inferInstanceAs (Decidable (_ ≤ _))

theorem decide_stillFresh (now : Int) (e : TtlEntry) : decide (StillFresh now e) = !ttlExpired now e := by
  unfold StillFresh ttlExpired ttlEstablishedTimeout ttlLearningTimeout
  rw [← decide_not]
  apply decide_eq_decide.2
  omega

/-- The clean-up of a table of any size ends; it keeps the fresh entries as they are and in their order, gives the
number of the others, and touches no slot outside the array. -/
theorem ttlTrackerCleanupExpired_filters (t : TtlTable) (now : Int) (h : t.size ≤ maxTtlEntries) :
    (∃ s, Ends (cleanupStep now) (cleanupStart t) s) ∧
    ∀ s, Ends (cleanupStep now) (cleanupStart t) s →
      (s.removed, s.table) = ttlTrackerCleanupExpired t now ∧
      s.table.live = t.live.filter (fun e => StillFresh now e) ∧
      s.removed = (t.live.filter fun e => ¬ StillFresh now e).length ∧
      s.removed = t.size - s.table.size ∧ s.table.size ≤ t.size ∧
      ∀ a ∈ s.accesses, a.Ok := by
  have hstart := cleanupInv_start h now
  refine ⟨exists_ends (fun _ _ hs hnext => hs.step hnext) hstart, fun s hs => ?_⟩
  obtain ⟨hinv, hend⟩ := hs.invariant (fun _ _ hs hnext => (hs.step hnext).1) hstart
  have hdone : s.table.size - s.i = 0 := by
    have := cleanupStep_eq_none_iff.1 hend
    omega
  have hresult : (s.removed, s.table) = ttlTrackerCleanupExpired t now := by
    rw [← hinv.rest_eq, CleanupState.rest, hdone, cleanupLoop]
  have hlive : s.table.live = t.live.filter (fun e => StillFresh now e) := by
    have hfilter := (live_cleanupExpired h now).1
    rw [← hresult] at hfilter
    rw [hfilter]
    apply List.filter_congr
    intro e _
    exact (decide_stillFresh now e).symm
  have hsize := hinv.size_eq
  refine ⟨hresult, hlive, ?_, by omega, by omega, hinv.ok⟩
  have hold := length_live h
  have hnew := length_live (a := s.table) (by omega)
  have hsplit := List.length_eq_length_filter_add (l := t.live) fun e => decide (StillFresh now e)
  rw [hlive] at hnew
  simp only [decide_not]
  omega

/-- Entries last seen at the times 0, 0, 50 and 0, where the third is established. -/
def staleTable : TtlTable where
  slots := [TtlEntry.zero, TtlEntry.zero, { TtlEntry.zero with lastSeen := 50, isEstablished := true }] ++
    List.replicate 1021 TtlEntry.zero
  size := 4
  length_slots := by rw [List.length_append, List.length_replicate]; rfl

theorem ttlTrackerCleanupExpired_filters_stale :
    ∃ s, Ends (cleanupStep 60) (cleanupStart staleTable) s ∧ s.removed = 3 ∧
      s.table.live = [{ TtlEntry.zero with lastSeen := 50, isEstablished := true }] := by
  obtain ⟨⟨s, hs⟩, hall⟩ := ttlTrackerCleanupExpired_filters staleTable 60 (by decide)
  obtain ⟨-, hlive, hremoved, -⟩ := hall s hs
  exact ⟨s, hs, by rw [hremoved]; decide, by rw [hlive]; decide⟩

end GoodbyeDpi
