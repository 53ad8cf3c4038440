import Mathlib.Order.Lattice
import Mathlib.Data.List.Basic

/-!
# The running minimum

A loop over a list that looks for an element with a least key among the elements of a kind.  It starts with a bound
instead of an element, and an element takes the place of the one found so far only when its key is strictly smaller:
so the loop finds the first of the elements with the least key, or nothing where no key is below the bound.
-/

namespace RunningMin

variable {α κ : Type} [LinearOrder κ] (key : α → κ) (kind : α → Bool)

/-- The loop at index `n`: `best` is the least key so far, and `found` the index of its element. -/
def search : List α → Nat → κ → Option Nat → Option Nat
  | [], _, _, found => found
  | x :: xs, n, best, found =>
    if kind x && decide (key x < best) then search xs (n + 1) (key x) (some n) else search xs (n + 1) best found

/-- Of the elements of the kind, `x` is the first one with the least key; it is at index `i`, and its key is below the
bound. -/
structure IsFirstMin (l : List α) (bound : κ) (i : Nat) (x : α) : Prop where
  get : l[i]? = some x
  of_kind : kind x
  lt : key x < bound
  least : ∀ y ∈ l, kind y → key x ≤ key y
  first : ∀ j y, j < i → l[j]? = some y → kind y → key x < key y

/-- What the loop knows after the elements `seen`. -/
def Knows (bound : κ) (seen : List α) (best : κ) : Option Nat → Prop
  | none => best = bound ∧ ∀ y ∈ seen, kind y → bound ≤ key y
  | some i => ∃ x, IsFirstMin key kind seen bound i x ∧ best = key x

section

variable {key kind} {bound best : κ} {seen : List α} {found : Option Nat} {x : α}

/-- No key seen is below the best one, and the best one is not above the bound. -/
private theorem Knows.le (h : Knows key kind bound seen best found) :
    best ≤ bound ∧ ∀ y ∈ seen, kind y → best ≤ key y := by
  cases found with
  | none => exact ⟨h.1.le, fun y hy hk => h.1.le.trans (h.2 y hy hk)⟩
  | some i =>
    obtain ⟨x, hx, rfl⟩ := h
    exact ⟨hx.lt.le, hx.least⟩

/-- An element that is better than all before it. -/
private theorem Knows.better (h : Knows key kind bound seen best found) (hk : kind x) (hlt : key x < best) :
    Knows key kind bound (seen ++ [x]) (key x) (some seen.length) := by
  obtain ⟨hbound, hbest⟩ := h.le
  refine ⟨x, ⟨by simp, hk, hlt.trans_le hbound, ?_, ?_⟩, rfl⟩
  · intro y hy hky
    rcases List.mem_append.1 hy with hy | hy
    · exact hlt.le.trans (hbest y hy hky)
    · rw [List.mem_singleton.1 hy]
  · intro j y hj hy hky
    rw [List.getElem?_append_left hj] at hy
    exact hlt.trans_le (hbest y (List.mem_of_getElem? hy) hky)

/-- An element that is passed over. -/
private theorem Knows.pass (h : Knows key kind bound seen best found) (hx : kind x → best ≤ key x) :
    Knows key kind bound (seen ++ [x]) best found := by
  cases found with
  | none =>
    refine ⟨h.1, fun y hy hky => ?_⟩
    rcases List.mem_append.1 hy with hy | hy
    · exact h.2 y hy hky
    · rw [List.mem_singleton.1 hy] at hky ⊢
      exact h.1 ▸ hx hky
  | some i =>
    obtain ⟨m, hm, rfl⟩ := h
    have hi : i < seen.length := (List.getElem?_eq_some_iff.1 hm.get).1
    refine ⟨m, ⟨?_, hm.of_kind, hm.lt, ?_, ?_⟩, rfl⟩
    · rw [List.getElem?_append_left hi]
      exact hm.get
    · intro y hy hky
      rcases List.mem_append.1 hy with hy | hy
      · exact hm.least y hy hky
      · rw [List.mem_singleton.1 hy] at hky ⊢
        exact hx hky
    · intro j y hj hy hky
      rw [List.getElem?_append_left (by omega)] at hy
      exact hm.first j y hj hy hky

private theorem knows_search (l : List α) (h : Knows key kind bound seen best found) :
    ∃ best', Knows key kind bound (seen ++ l) best' (search key kind l seen.length best found) := by
  induction l generalizing seen best found with
  | nil => exact ⟨best, by simpa [search] using h⟩
  | cons x l ih =>
    have hsplit : seen ++ x :: l = seen ++ [x] ++ l := by simp
    have hlen : seen.length + 1 = (seen ++ [x]).length := by simp
    rw [search, hsplit, hlen]
    split
    · rename_i hbetter
      rw [Bool.and_eq_true, decide_eq_true_eq] at hbetter
      exact ih (h.better hbetter.1 hbetter.2)
    · rename_i hworse
      rw [Bool.and_eq_true, decide_eq_true_eq] at hworse
      exact ih (h.pass fun hk => not_lt.1 fun hlt => hworse ⟨hk, hlt⟩)

end

private theorem exists_knows_search (l : List α) (bound : κ) :
    ∃ best, Knows key kind bound l best (search key kind l 0 bound none) := by
  have hnil : Knows key kind bound [] bound none := ⟨rfl, fun y hy => by cases hy⟩
  exact knows_search l hnil

variable {key kind} {l : List α} {bound : κ}

/-- What is found is the first minimum. -/
theorem isFirstMin_of_search {i : Nat} (h : search key kind l 0 bound none = some i) :
    ∃ x, IsFirstMin key kind l bound i x := by
  obtain ⟨best, hknows⟩ := exists_knows_search key kind l bound
  rw [h] at hknows
  obtain ⟨x, hx, -⟩ := hknows
  exact ⟨x, hx⟩

/-- Nothing is found only where no key is below the bound. -/
theorem search_eq_none_iff : search key kind l 0 bound none = none ↔ ∀ y ∈ l, kind y → bound ≤ key y := by
  obtain ⟨best, hknows⟩ := exists_knows_search key kind l bound
  cases hs : search key kind l 0 bound none with
  | none =>
    rw [hs] at hknows
    exact iff_of_true rfl hknows.2
  | some i =>
    obtain ⟨x, hx⟩ := isFirstMin_of_search hs
    refine iff_of_false (by simp) fun hall => ?_
    exact absurd (hall x (List.mem_of_getElem? hx.get) hx.of_kind) (not_le.2 hx.lt)

end RunningMin
