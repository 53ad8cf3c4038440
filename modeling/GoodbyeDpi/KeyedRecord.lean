import Mathlib.Data.List.Induction

/-!
# Records that are set key by key

A record with a field for every key, some data besides, and assignments that write one field.  Whatever the order of
the assignments, a field ends up with what the last assignment to its key makes of it.
-/

/-- A record type `R` whose fields are indexed by `K` and hold `S`; an assignment of a value `V` to a key changes the
field of that key only, and hides the assignments before it. -/
structure KeyedRecord (R K V S : Type) where
  set : R → K → V → R
  get : R → K → S
  write : K → V → S → S
  rest : R → R
  rebuild : R → (K → S) → R
  get_set : ∀ r k v, get (set r k v) k = write k v (get r k)
  get_set_ne : ∀ r k k' v, k' ≠ k → get (set r k v) k' = get r k'
  rest_set : ∀ r k v, rest (set r k v) = rest r
  write_write : ∀ k v u s, write k v (write k u s) = write k v s
  rebuild_get : ∀ r, rebuild (rest r) (get r) = r

namespace KeyedRecord

variable {R K V S : Type} [DecidableEq K] (X : KeyedRecord R K V S)

/-- The last value assigned to a key. -/
def lastValue (k : K) (l : List (K × V)) : Option V := l.foldl (fun v e => if e.1 = k then some e.2 else v) none

/-- The assignments, one after the other. -/
def assign (r : R) (l : List (K × V)) : R := l.foldl (fun r e => X.set r e.1 e.2) r

/-- What becomes of a field when `v` is the last value assigned to it, if any. -/
def written (k : K) (v : Option V) (s : S) : S := v.elim s fun v => X.write k v s

omit [DecidableEq K] in
theorem ext {r r' : R} (hrest : X.rest r = X.rest r') (hget : ∀ k, X.get r k = X.get r' k) : r = r' := by
  rw [← X.rebuild_get r, ← X.rebuild_get r', hrest, funext hget]

omit [DecidableEq K] in
theorem rest_assign (r : R) (l : List (K × V)) : X.rest (X.assign r l) = X.rest r := by
  induction l generalizing r with
  | nil => rfl
  | cons e l ih => exact (ih (X.set r e.1 e.2)).trans (X.rest_set r e.1 e.2)

/-- The last assignment decides. -/
theorem get_assign (r : R) (l : List (K × V)) (k : K) :
    X.get (X.assign r l) k = X.written k (lastValue k l) (X.get r k) := by
  induction l using List.reverseRecOn with
  | nil => rfl
  | append_singleton l e ih =>
    unfold assign lastValue at ih ⊢
    rw [List.foldl_append, List.foldl_append, List.foldl_cons, List.foldl_nil, List.foldl_cons, List.foldl_nil]
    by_cases hk : e.1 = k
    · -- an earlier assignment to the same key is hidden
      subst hk
      rw [X.get_set, ih, if_pos rfl]
      cases l.foldl (fun v e' => if e'.1 = e.1 then some e'.2 else v) none with
      | none => rfl
      | some u => exact X.write_write _ _ _ _
    · rw [X.get_set_ne _ _ _ _ (Ne.symm hk), ih, if_neg hk]

/-- Two sequences of assignments give the same record exactly when the last values of every key do. -/
theorem assign_eq_iff (r : R) (l l' : List (K × V)) :
    X.assign r l = X.assign r l' ↔
      ∀ k, X.written k (lastValue k l) (X.get r k) = X.written k (lastValue k l') (X.get r k) := by
  constructor
  · intro h k
    rw [← X.get_assign, ← X.get_assign, h]
  · intro h
    apply X.ext
    · rw [X.rest_assign, X.rest_assign]
    · intro k
      rw [X.get_assign, X.get_assign, h]

theorem lastValue_append (k : K) (l m : List (K × V)) : lastValue k (l ++ m) = (lastValue k m).or (lastValue k l) := by
  induction m using List.reverseRecOn with
  | nil =>
    rw [List.append_nil]
    rfl
  | append_singleton m e ih =>
    unfold lastValue at ih ⊢
    rw [← List.append_assoc, List.foldl_append, ih, List.foldl_append]
    by_cases hk : e.1 = k
    · simp [hk]
    · simp [hk]

theorem isSome_lastValue {k : K} {v : V} {l : List (K × V)} (h : (k, v) ∈ l) : (lastValue k l).isSome := by
  induction l using List.reverseRecOn with
  | nil => cases h
  | append_singleton l e ih =>
    rw [lastValue_append, Option.isSome_or, Bool.or_eq_true]
    rcases List.mem_append.1 h with h | h
    · exact Or.inr (ih h)
    · rw [← List.mem_singleton.1 h]
      exact Or.inl (by simp [lastValue])

/-- Only the assignments to the key count, and only their order. -/
theorem lastValue_filter (k : K) (l : List (K × V)) : lastValue k (l.filter fun e => e.1 = k) = lastValue k l := by
  induction l using List.reverseRecOn with
  | nil => rfl
  | append_singleton l e ih =>
    rw [List.filter_append, lastValue_append, ih, lastValue_append]
    by_cases hk : e.1 = k
    · simp [hk]
    · simp [hk, lastValue]

end KeyedRecord
