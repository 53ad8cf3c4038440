import Mathlib.Data.List.Basic

/-!
# Lists edited at the head

A list that is edited by putting an item at its head and by removing the first occurrence of an item.  How often an
item occurs after some edits depends only on how often it occurred before them, and the items that are never edited
keep their order.
-/

namespace EditedList

variable {α : Type} [DecidableEq α]

inductive Edit (α : Type) where
  | insert (a : α)
  | delete (a : α)
  | skip

/-- The item that an edit is about. -/
def Edit.About (a : α) : Edit α → Prop
  | insert b => b = a
  | delete b => b = a
  | skip => False

def apply (l : List α) : Edit α → List α
  | .insert a => a :: l
  | .delete a => l.erase a
  | .skip => l

def applyAll (l : List α) (es : List (Edit α)) : List α := es.foldl apply l

/-- How often `a` occurs after an edit, when it occurred `n` times before it. -/
def countAfter (a : α) (n : Nat) : Edit α → Nat
  | .insert b => if b = a then n + 1 else n
  | .delete b => if b = a then n - 1 else n
  | .skip => n

def countAfterAll (a : α) (n : Nat) (es : List (Edit α)) : Nat := es.foldl (countAfter a) n

variable {a b : α} {l : List α} {n m : Nat} {e : Edit α} {es es' : List (Edit α)}

theorem count_apply (e : Edit α) : (apply l e).count a = countAfter a (l.count a) e := by
  cases e with
  | insert b =>
    by_cases hb : b = a
    · simp [apply, countAfter, hb]
    · simp [apply, countAfter, hb]
  | delete b =>
    by_cases hb : b = a
    · subst hb
      simp [apply, countAfter]
    · have hne : a ≠ b := fun h => hb h.symm
      simp [apply, countAfter, hb, List.count_erase_of_ne hne]
  | skip => rfl

theorem count_applyAll (es : List (Edit α)) : (applyAll l es).count a = countAfterAll a (l.count a) es := by
  induction es generalizing l with
  | nil => rfl
  | cons e es ih =>
    have hstep := ih (l := apply l e)
    rw [count_apply] at hstep
    exact hstep

theorem countAfterAll_append (es es' : List (Edit α)) :
    countAfterAll a n (es ++ es') = countAfterAll a (countAfterAll a n es) es' :=
  List.foldl_append

private theorem filter_erase_of_neg {p : α → Bool} (hb : p b = false) : (l.erase b).filter p = l.filter p := by
  induction l with
  | nil => rfl
  | cons x l ih =>
    by_cases hx : x = b
    · subst hx
      simp [hb]
    · rw [List.erase_cons_tail (by simpa using hx), List.filter_cons, List.filter_cons, ih]

/-- Edits of other items leave the items of a kind as they are, in their order. -/
theorem filter_applyAll {p : α → Bool} (h : ∀ e ∈ es, ∀ a, e.About a → p a = false) :
    (applyAll l es).filter p = l.filter p := by
  induction es generalizing l with
  | nil => rfl
  | cons e es ih =>
    have he := h e List.mem_cons_self
    have hstep : (apply l e).filter p = l.filter p := by
      cases e with
      | insert b => simp [apply, he b rfl]
      | delete b => exact filter_erase_of_neg (he b rfl)
      | skip => rfl
    have htail := ih (l := apply l e) fun d hd => h d (List.mem_cons_of_mem e hd)
    rw [hstep] at htail
    exact htail

/-! ### Counts along a sequence of edits -/

/-- At every moment of the edits `a` occurs at most once, when it occurs `n` times before them. -/
def AtMostOnce (a : α) (n : Nat) (es : List (Edit α)) : Prop :=
  ∀ pre suf, es = pre ++ suf → countAfterAll a n pre ≤ 1

theorem atMostOnce_nil (hn : n ≤ 1) : AtMostOnce a n [] := by
  intro pre suf h
  obtain ⟨rfl, -⟩ := List.append_eq_nil_iff.1 h.symm
  exact hn

theorem AtMostOnce.left (h : AtMostOnce a n (es ++ es')) : AtMostOnce a n es := by
  intro pre suf hes
  exact h pre (suf ++ es') (by rw [hes, List.append_assoc])

theorem AtMostOnce.append (h : AtMostOnce a n es) (h' : AtMostOnce a (countAfterAll a n es) es') :
    AtMostOnce a n (es ++ es') := by
  intro pre suf hsplit
  rcases List.append_eq_append_iff.1 hsplit with ⟨mid, rfl, hmid⟩ | ⟨mid, hmid, -⟩
  · rw [countAfterAll_append]
    exact h' mid suf hmid
  · exact h pre mid hmid

theorem AtMostOnce.last (h : AtMostOnce a n es) : countAfterAll a n es ≤ 1 := h es [] (by simp)

theorem atMostOnce_cons (hn : n ≤ 1) (h : AtMostOnce a (countAfter a n e) es) : AtMostOnce a n (e :: es) := by
  intro pre suf hsplit
  cases pre with
  | nil => exact hn
  | cons x pre =>
    cases hsplit
    exact h pre suf rfl

/-- Deleting items keeps every count at most one, and leaves none of what is deleted. -/
theorem deletes (bs : List α) (hn : n ≤ 1) :
    AtMostOnce a n (bs.map .delete) ∧ countAfterAll a n (bs.map .delete) = if a ∈ bs then 0 else n := by
  induction bs generalizing n with
  | nil => exact ⟨atMostOnce_nil hn, by simp [countAfterAll]⟩
  | cons b bs ih =>
    have hle : countAfter a n (.delete b) ≤ 1 := by
      simp only [countAfter]
      split <;> omega
    obtain ⟨honce, hcount⟩ := ih hle
    refine ⟨atMostOnce_cons hn honce, ?_⟩
    change countAfterAll a (countAfter a n (.delete b)) (bs.map .delete) = _
    rw [hcount]
    by_cases hb : b = a
    · subst hb
      simp only [countAfter, List.mem_cons, true_or, if_true, ite_eq_left_iff]
      omega
    · have hne : a ≠ b := fun h => hb h.symm
      simp [countAfter, hb, hne]

/-- Inserting different items, some of which may fail, into a list without them. -/
theorem inserts {bs : List α} (hnodup : bs.Nodup) (done : α → Bool) (hn : n ≤ 1) (hfresh : a ∈ bs → n = 0) :
    AtMostOnce a n (bs.map fun b => if done b then .insert b else .skip) := by
  induction bs generalizing n with
  | nil => exact atMostOnce_nil hn
  | cons b bs ih =>
    rw [List.nodup_cons] at hnodup
    rw [List.map_cons]
    have hcount : countAfter a n (if done b then .insert b else .skip) ≤ 1 ∧
        (a ∈ bs → countAfter a n (if done b then .insert b else .skip) = 0) := by
      by_cases hb : b = a
      · subst hb
        have h0 := hfresh List.mem_cons_self
        refine ⟨?_, fun hmem => absurd hmem hnodup.1⟩
        cases done b with
        | false => exact hn
        | true => simp [countAfter, h0]
      · have hsame : countAfter a n (if done b then .insert b else .skip) = n := by
          split <;> simp [countAfter, hb]
        rw [hsame]
        exact ⟨hn, fun hmem => hfresh (List.mem_cons_of_mem b hmem)⟩
    exact atMostOnce_cons hn (ih hnodup.2 hcount.1 hcount.2)

end EditedList
