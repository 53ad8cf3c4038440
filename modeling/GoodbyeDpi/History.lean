import Mathlib.Data.List.Induction

/-!
# Histories

A history is the list of the calls made so far, the oldest first.  `Latest P cs pre c post` says that `c` is the
latest call of the kind `P` in the history `cs`, with `pre` before it and `post` after it.
-/

namespace History

variable {C : Type} {P R : C → Prop} {cs pre post : List C} {c d : C}

/-- The latest call of a kind, with the calls before it and the calls after it. -/
structure Latest (P : C → Prop) (cs pre : List C) (c : C) (post : List C) : Prop where
  split : cs = pre ++ c :: post
  kind : P c
  later : ∀ d ∈ post, ¬ P d

/-- A history without a call of the kind, or with a latest one. -/
theorem latest_or_none (P : C → Prop) (cs : List C) :
    (∀ c ∈ cs, ¬ P c) ∨ ∃ pre c post, Latest P cs pre c post := by
  induction cs with
  | nil => exact Or.inl (by simp)
  | cons c cs ih =>
    rcases ih with hnone | ⟨pre, d, post, hsplit, hkind, hlater⟩
    · by_cases hc : P c
      · exact Or.inr ⟨[], c, cs, rfl, hc, hnone⟩
      · exact Or.inl (by simpa [hc] using hnone)
    · exact Or.inr ⟨c :: pre, d, post, by rw [hsplit, List.cons_append], hkind, hlater⟩

private theorem unique_of_append {pre' post' mid : List C} {c' : C} (hc' : P c') (hlater : ∀ d ∈ post, ¬ P d)
    (hpre : pre' = pre ++ mid) (hpost : c :: post = mid ++ c' :: post') : pre = pre' ∧ c = c' ∧ post = post' := by
  cases mid with
  | nil =>
    cases hpost
    exact ⟨by simpa using hpre.symm, rfl, rfl⟩
  | cons x mid =>
    cases hpost
    exact absurd hc' (hlater c' (by simp))

theorem Latest.unique {pre' post' : List C} {c' : C} (h : Latest P cs pre c post) (h' : Latest P cs pre' c' post') :
    pre = pre' ∧ c = c' ∧ post = post' := by
  have hsplit : pre ++ c :: post = pre' ++ c' :: post' := h.split.symm.trans h'.split
  rcases List.append_eq_append_iff.1 hsplit with ⟨mid, hpre, hpost⟩ | ⟨mid, hpre, hpost⟩
  · exact unique_of_append h'.kind h.later hpre hpost
  · obtain ⟨h₁, h₂, h₃⟩ := unique_of_append h.kind h'.later hpre hpost
    exact ⟨h₁.symm, h₂.symm, h₃.symm⟩

theorem Latest.append_singleton (h : Latest P cs pre c post) (hd : ¬ P d) :
    Latest P (cs ++ [d]) pre c (post ++ [d]) where
  split := by simp [h.split]
  kind := h.kind
  later x hx := by
    rcases List.mem_append.1 hx with hx | hx
    · exact h.later x hx
    · rw [List.mem_singleton.1 hx]
      exact hd

theorem latest_of_last (hc : P c) : Latest P (cs ++ [c]) cs c [] where
  split := rfl
  kind := hc
  later x hx := by cases hx

/-- There is a latest call of the kind `P`, and it satisfies `R`. -/
def LatestMeets (P R : C → Prop) (cs : List C) : Prop := ∃ pre c post, Latest P cs pre c post ∧ R c

theorem not_latestMeets_nil : ¬ LatestMeets P R [] := by
  rintro ⟨pre, c, post, h, hc⟩
  simpa using h.split

theorem latestMeets_append_of_kind (hd : P d) : LatestMeets P R (cs ++ [d]) ↔ R d := by
  constructor
  · rintro ⟨pre, c, post, h, hc⟩
    obtain ⟨-, rfl, -⟩ := h.unique (latest_of_last hd)
    exact hc
  · intro hR
    exact ⟨cs, d, [], latest_of_last hd, hR⟩

theorem latestMeets_append_of_not_kind (hd : ¬ P d) : LatestMeets P R (cs ++ [d]) ↔ LatestMeets P R cs := by
  constructor
  · rintro ⟨pre, c, post, h, hc⟩
    rcases latest_or_none P cs with hnone | ⟨pre', c', post', h'⟩
    · have hmem : c ∈ cs ++ [d] := by simp [h.split]
      rcases List.mem_append.1 hmem with hmem | hmem
      · exact absurd h.kind (hnone c hmem)
      · rw [List.mem_singleton.1 hmem] at h
        exact absurd h.kind hd
    · obtain ⟨-, rfl, -⟩ := h.unique (h'.append_singleton hd)
      exact ⟨pre', c, post', h', hc⟩
  · rintro ⟨pre, c, post, h, hc⟩
    exact ⟨pre, c, post ++ [d], h.append_singleton hd, hc⟩

end History
