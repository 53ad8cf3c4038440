import GoodbyeDpi.History

/-!
# Cells that are overwritten, refreshed and swept

One cell of a direct-mapped table.  A write replaces what the cell holds, a probe that hits refreshes the time of its
last use, and a sweep empties the cell when its last use has become stale.  `foldl_eq_some_iff` says what the cell
holds after any sequence of calls in terms of the calls alone: the value of the latest write, unless a sweep since
then found it stale.
-/

/-- The value in the cell and the time of its last use. -/
abbrev SweptCell (V T : Type) := Option (V × T)

namespace SweptCell

open History

/-- What a call does to the cell. -/
inductive Event (V K T : Type) where
  | write (v : V) (now : T)
  | probe (k : K) (now : T)
  | sweep (now : T)
  | skip

variable {V K T C : Type} (stale : T → T → Bool) (hit : K → V → Bool) (event : C → Event V K T)

def Event.IsWrite : Event V K T → Prop
  | .write _ _ => True
  | _ => False

/-- `stale t now`: what was last used at `t` is dropped by a sweep at `now`; `hit k v`: a probe for `k` hits `v`. -/
def step (x : SweptCell V T) : Event V K T → SweptCell V T
  | .write v now => some (v, now)
  | .probe k now => x.map fun y => if hit k y.1 then (y.1, now) else y
  | .sweep now => x.filter fun y => !stale y.2 now
  | .skip => x

/-- The time of the last use after an event, when it was `t` before. -/
def useTime (x : SweptCell V T) (t : T) : Event V K T → T
  | .probe k now => if x.any fun y => hit k y.1 then now else t
  | _ => t

/-- The time of the last use after the calls, from a cell whose last use was at `t`. -/
def lastUse : SweptCell V T → T → List C → T
  | _, t, [] => t
  | x, t, c :: cs => lastUse (step stale hit x (event c)) (useTime hit x t (event c)) cs

/-- No sweep among the calls finds the last use before it stale. -/
def NeverStale (x : SweptCell V T) (t : T) (cs : List C) : Prop :=
  ∀ mid d rest, cs = mid ++ d :: rest → ∀ now, event d = .sweep now →
    stale (lastUse stale hit event x t mid) now = false

/-- The cell after the calls. -/
def run (x : SweptCell V T) (cs : List C) : SweptCell V T := cs.foldl (fun x c => step stale hit x (event c)) x

variable {stale hit event} {x : SweptCell V T} {v w : V} {t u : T} {cs : List C} {c : C}

theorem isWrite_iff {e : Event V K T} : e.IsWrite ↔ ∃ v now, e = .write v now := by
  cases e with
  | write v now => simp [Event.IsWrite]
  | probe k now => simp [Event.IsWrite]
  | sweep now => simp [Event.IsWrite]
  | skip => simp [Event.IsWrite]

@[simp] theorem run_nil : run stale hit event x [] = x := rfl

@[simp] theorem run_cons : run stale hit event x (c :: cs) = run stale hit event (step stale hit x (event c)) cs := rfl

theorem run_append (cs cs' : List C) :
    run stale hit event x (cs ++ cs') = run stale hit event (run stale hit event x cs) cs' :=
  List.foldl_append

/-- An empty cell stays empty until the next write. -/
theorem run_none (h : ∀ c ∈ cs, ¬ (event c).IsWrite) : run stale hit event none cs = none := by
  induction cs with
  | nil => rfl
  | cons c cs ih =>
    have hc := h c List.mem_cons_self
    have hstep : step stale hit none (event c) = none := by
      cases he : event c with
      | write v now => simp [he, Event.IsWrite] at hc
      | probe k now => rfl
      | sweep now => rfl
      | skip => rfl
    rw [run_cons, hstep]
    exact ih fun d hd => h d (List.mem_cons_of_mem c hd)

/-- The first call and the others: no sweep finds the cell stale. -/
theorem neverStale_cons_iff : NeverStale stale hit event x t (c :: cs) ↔
    (∀ now, event c = .sweep now → stale t now = false) ∧
      NeverStale stale hit event (step stale hit x (event c)) (useTime hit x t (event c)) cs := by
  constructor
  · intro h
    refine ⟨h [] c cs rfl, ?_⟩
    intro mid d rest hcs
    exact h (c :: mid) d rest (by rw [hcs, List.cons_append])
  · rintro ⟨hc, hcs⟩ mid d rest hsplit
    cases mid with
    | nil =>
      cases hsplit
      exact hc
    | cons a mid =>
      cases hsplit
      exact hcs mid d rest rfl

/-- What one call other than a write does to a cell that holds `v`. -/
theorem step_some (h : ¬ (event c).IsWrite) (hfresh : ∀ now, event c = .sweep now → stale t now = false) :
    step stale hit (some (v, t)) (event c) = some (v, useTime hit (some (v, t)) t (event c)) := by
  cases he : event c with
  | write w now => simp [he, Event.IsWrite] at h
  | probe k now =>
    by_cases hk : hit k v
    · simp [step, useTime, hk]
    · simp [step, useTime, hk]
  | sweep now => simp [step, useTime, Option.filter, hfresh now he]
  | skip => rfl

/-- A cell that holds `v` keeps it through calls without a write exactly when no sweep finds it stale. -/
theorem run_some_iff (h : ∀ c ∈ cs, ¬ (event c).IsWrite) : run stale hit event (some (v, t)) cs = some (w, u) ↔
    w = v ∧ u = lastUse stale hit event (some (v, t)) t cs ∧ NeverStale stale hit event (some (v, t)) t cs := by
  induction cs generalizing t with
  | nil =>
    have hnil : NeverStale stale hit event (some (v, t)) t [] := by
      intro mid d rest hsplit
      simp at hsplit
    rw [run_nil, lastUse, Option.some.injEq, Prod.mk.injEq]
    constructor
    · rintro ⟨rfl, rfl⟩
      exact ⟨rfl, rfl, hnil⟩
    · rintro ⟨rfl, rfl, -⟩
      exact ⟨rfl, rfl⟩
  | cons c cs ih =>
    have hc := h c List.mem_cons_self
    rw [run_cons, neverStale_cons_iff, lastUse]
    by_cases hfresh : ∀ now, event c = .sweep now → stale t now = false
    · rw [step_some hc hfresh, ih fun d hd => h d (List.mem_cons_of_mem c hd), and_iff_right hfresh]
    · -- the sweep empties the cell, and it stays empty
      obtain ⟨now, he, hstale⟩ : ∃ now, event c = .sweep now ∧ stale t now = true := by simpa using hfresh
      have hempty : step stale hit (some (v, t)) (event c) = none := by simp [he, step, Option.filter, hstale]
      rw [hempty, run_none fun d hd => h d (List.mem_cons_of_mem c hd)]
      simp [hfresh]

/-- After any sequence of calls the cell holds a value exactly when the latest write was of that value and no sweep
since then found the last use before it stale. -/
theorem run_eq_some_iff : run stale hit event none cs = some (v, u) ↔
    ∃ pre c post now, Latest (fun c => (event c).IsWrite) cs pre c post ∧ event c = .write v now ∧
      u = lastUse stale hit event (some (v, now)) now post ∧ NeverStale stale hit event (some (v, now)) now post := by
  have hwritten : ∀ {pre c post w now}, event c = .write w now →
      run stale hit event none (pre ++ c :: post) = run stale hit event (some (w, now)) post := by
    intro pre c post w now he
    rw [run_append, run_cons, he, step]
  constructor
  · intro h
    rcases latest_or_none (fun c => (event c).IsWrite) cs with hnone | ⟨pre, c, post, hlast⟩
    · rw [run_none hnone] at h
      cases h
    · obtain ⟨w, now, he⟩ := isWrite_iff.1 hlast.kind
      rw [hlast.split, hwritten he, run_some_iff hlast.later] at h
      obtain ⟨rfl, hu, hfresh⟩ := h
      exact ⟨pre, c, post, now, hlast, he, hu, hfresh⟩
  · rintro ⟨pre, c, post, now, hlast, he, hu, hfresh⟩
    rw [hlast.split, hwritten he, run_some_iff hlast.later]
    exact ⟨rfl, hu, hfresh⟩

end SweptCell
