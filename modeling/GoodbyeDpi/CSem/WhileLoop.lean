/-!
# Loops with a guard

A loop is its body as a step on the state, which gives no state where the guard fails.  `Ends` relates a start to the
state in which the loop stops, so that a loop that runs for ever ends nowhere.  A variant shows that a loop ends, an
invariant what holds where it does.
-/

namespace CSem

variable {σ : Type} {step : σ → Option σ}

/-- The loop, started in the first state, stops in the second. -/
inductive Ends (step : σ → Option σ) : σ → σ → Prop
  | stop {s : σ} (h : step s = none) : Ends step s s
  | turn {s s' r : σ} (h : step s = some s') (hr : Ends step s' r) : Ends step s r

/-- A loop with a variant that its invariant bounds ends. -/
theorem exists_ends {Inv : σ → Prop} {variant : σ → Nat}
    (hstep : ∀ s s', Inv s → step s = some s' → Inv s' ∧ variant s' < variant s) {s : σ} (hs : Inv s) :
    ∃ r, Ends step s r := by
  induction hn : variant s using Nat.strongRecOn generalizing s with
  | ind n ih =>
    cases hnext : step s with
    | none => exact ⟨s, .stop hnext⟩
    | some s' =>
      obtain ⟨hinv, hlt⟩ := hstep s s' hs hnext
      obtain ⟨r, hr⟩ := ih (variant s') (by omega) hinv rfl
      exact ⟨r, .turn hnext hr⟩

/-- What every turn keeps holds at the end, where the guard has failed. -/
theorem Ends.invariant {Inv : σ → Prop} (hstep : ∀ s s', Inv s → step s = some s' → Inv s') {s r : σ}
    (h : Ends step s r) (hs : Inv s) : Inv r ∧ step r = none := by
  induction h with
  | stop hnone => exact ⟨hs, hnone⟩
  | turn hnext hr ih => exact ih (hstep _ _ hs hnext)

end CSem
