import Mathlib.Data.List.Basic

/-!
# Arrays with a fill count

A C array of `cap` slots together with the number of slots in use.  The slots in use, `live`, are a list, and
writing a slot, adding one and removing one by moving the later slots down are the operations `set`, `++` and
`eraseIdx` on that list.
-/

namespace CSem

/-- An array of `cap` slots of which the first `size` are in use. -/
structure FilledArray (α : Type) (cap : Nat) where
  slots : List α
  size : Nat
  length_slots : slots.length = cap

namespace FilledArray

variable {α : Type} {cap : Nat}

/-- The slots in use. -/
def live (a : FilledArray α cap) : List α := a.slots.take a.size

/-- `a[i] = x`. -/
def setSlot (a : FilledArray α cap) (i : Nat) (x : α) : FilledArray α cap where
  slots := a.slots.set i x
  size := a.size
  length_slots := by rw [List.length_set, a.length_slots]

/-- `a[size++] = x`. -/
def push (a : FilledArray α cap) (x : α) : FilledArray α cap where
  slots := a.slots.set a.size x
  size := a.size + 1
  length_slots := by rw [List.length_set, a.length_slots]

/-- `memmove(&a[i], &a[i + 1], size - i - 1); size--`: slot `k` takes the place of slot `k - 1` for `i < k < size`. -/
def removeAt (a : FilledArray α cap) (i : Nat) : FilledArray α cap where
  slots := a.slots.mapIdx fun k x => if i ≤ k ∧ k + 1 < a.size then a.slots.getD (k + 1) x else x
  size := a.size - 1
  length_slots := by rw [List.length_mapIdx, a.length_slots]

theorem length_live {a : FilledArray α cap} (h : a.size ≤ cap) : a.live.length = a.size := by
  rw [live, List.length_take, a.length_slots]
  omega

theorem live_eq_slots {a : FilledArray α cap} (h : a.size = cap) : a.live = a.slots := by
  apply List.take_of_length_le
  have := a.length_slots
  omega

theorem getElem?_live {a : FilledArray α cap} {i : Nat} (h : i < a.size) : a.live[i]? = a.slots[i]? :=
  List.getElem?_take_of_lt h

theorem live_setSlot (a : FilledArray α cap) (i : Nat) (x : α) : (a.setSlot i x).live = a.live.set i x :=
  List.take_set

theorem live_push {a : FilledArray α cap} (h : a.size < cap) (x : α) : (a.push x).live = a.live ++ [x] := by
  have hlen : a.size < (a.slots.set a.size x).length := by
    rw [List.length_set, a.length_slots]
    exact h
  unfold live push
  rw [List.take_succ_eq_append_getElem hlen, List.getElem_set_self, List.take_set_of_le (Nat.le_refl _)]

theorem live_removeAt {a : FilledArray α cap} {i : Nat} (hi : i < a.size) (h : a.size ≤ cap) :
    (a.removeAt i).live = a.live.eraseIdx i := by
  have hlen := a.length_slots
  apply List.ext_getElem?
  intro k
  unfold live removeAt
  rw [List.getElem?_take, List.getElem?_eraseIdx, List.getElem?_mapIdx, List.getElem?_take, List.getElem?_take]
  by_cases hk : k < a.size - 1
  · have hklen : k < a.slots.length := by omega
    have hnext : k + 1 < a.slots.length := by omega
    rw [if_pos hk, if_pos (show k < a.size by omega), if_pos (show k + 1 < a.size by omega),
      List.getElem?_eq_getElem hklen, List.getElem?_eq_getElem hnext, Option.map_some]
    by_cases hik : k < i
    · rw [if_pos hik, if_neg (by omega)]
    · rw [if_neg hik, if_pos (by omega), List.getD_eq_getElem?_getD, List.getElem?_eq_getElem hnext, Option.getD_some]
  · rw [if_neg hk, if_neg (show ¬ k < i by omega), if_neg (show ¬ k + 1 < a.size by omega)]

end FilledArray

end CSem
