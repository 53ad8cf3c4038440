import Mathlib.Data.List.Basic

/-!
# Runs that log events

`Traced ok α` is a run that logs events and ends with a value, or stops without one.  A run can only stop on an
event that is not `ok`, and the structure carries that fact, so a run all of whose events are `ok` has a value
(`Traced.exists_val`).

`Obeys P x Q` says that every logged event satisfies `P` and that the value, if there is one, satisfies `Q`.  It
distributes over `pure`, `bind` and conditionals as an equivalence, so the contract of a composed run is computed
from those of its parts; when `P` implies `ok` it also gives the value (`Traced.obeys_iff_of_imp`).
-/

namespace CSem

/-- A run with its log and its value; it stops (`val = none`) only after an event that is not `ok`. -/
structure Traced {ε : Type} (ok : ε → Prop) (α : Type) where
  log : List ε
  val : Option α
  stop : val = none → ∃ e ∈ log, ¬ ok e

namespace Traced

variable {ε α β : Type} {ok : ε → Prop}

instance : Monad (Traced ok) where
  pure a := ⟨[], some a, fun h => by cases h⟩
  bind x f :=
    { log := x.log ++ x.val.elim [] fun a => (f a).log
      val := x.val.bind fun a => (f a).val
      stop := by
        intro h
        cases hx : x.val with
        | none =>
          obtain ⟨e, he, hbad⟩ := x.stop hx
          exact ⟨e, List.mem_append_left _ he, hbad⟩
        | some a =>
          rw [hx] at h
          obtain ⟨e, he, hbad⟩ := (f a).stop h
          exact ⟨e, List.mem_append_right _ he, hbad⟩ }

@[simp] theorem pure_log (a : α) : (pure a : Traced ok α).log = [] := rfl

@[simp] theorem pure_val (a : α) : (pure a : Traced ok α).val = some a := rfl

@[simp] theorem bind_val (x : Traced ok α) (f : α → Traced ok β) :
    (x >>= f).val = x.val.bind fun a => (f a).val := rfl

@[simp] theorem bind_log (x : Traced ok α) (f : α → Traced ok β) :
    (x >>= f).log = x.log ++ x.val.elim [] fun a => (f a).log := rfl

/-- A sequence that ends with a value: so does its first part, and the second part ends with that value. -/
theorem val_of_bind {x : Traced ok α} {f : α → Traced ok β} {b : β} (h : (x >>= f).val = some b) :
    ∃ a, x.val = some a ∧ (f a).val = some b :=
  Option.bind_eq_some_iff.1 h

/-- Goes on with the result of `x`, or returns `r` when `x` gave none (an error branch of the C code). -/
def orReturn (x : Traced ok (Option α)) (r : β) (k : α → Traced ok β) : Traced ok β :=
  x >>= fun o => o.elim (pure r) k

/-- Every event of the run satisfies `P`. -/
def All (P : ε → Prop) (x : Traced ok α) : Prop := ∀ e ∈ x.log, P e

/-- Every event satisfies `P`, and the value, if the run has one, satisfies `Q`. -/
def Obeys (P : ε → Prop) (x : Traced ok α) (Q : α → Prop) : Prop :=
  (∀ e ∈ x.log, P e) ∧ ∀ a, x.val = some a → Q a

variable {P : ε → Prop}

@[simp] theorem obeys_pure {a : α} {Q : α → Prop} : Obeys P (pure a : Traced ok α) Q ↔ Q a := by
  simp [Obeys]

/-- The rule for sequencing. -/
@[simp] theorem obeys_bind {x : Traced ok α} {f : α → Traced ok β} {Q : β → Prop} :
    Obeys P (x >>= f) Q ↔ Obeys P x fun a => Obeys P (f a) Q := by
  unfold Obeys
  rw [bind_log, bind_val]
  cases x.val with
  | none => simp
  | some a => simp [or_imp, forall_and, and_assoc]

@[simp] theorem obeys_ite {c : Prop} [Decidable c] {x y : Traced ok α} {Q : α → Prop} :
    Obeys P (if c then x else y) Q ↔ (c → Obeys P x Q) ∧ (¬ c → Obeys P y Q) := by
  split <;> simp_all

@[simp] theorem obeys_orReturn {x : Traced ok (Option α)} {r : β} {k : α → Traced ok β} {Q : β → Prop} :
    Obeys P (orReturn x r k) Q ↔ Obeys P x fun o => o.elim (Q r) fun a => Obeys P (k a) Q := by
  unfold orReturn
  rw [obeys_bind]
  refine iff_of_eq (congrArg _ (funext fun o => ?_))
  cases o <;> simp

theorem Obeys.mono {x : Traced ok α} {Q R : α → Prop} (h : Obeys P x Q) (hQR : ∀ a, Q a → R a) :
    Obeys P x R :=
  ⟨h.1, fun a ha => hQR a (h.2 a ha)⟩

theorem all_iff_obeys {x : Traced ok α} : x.All P ↔ Obeys P x fun _ => True := by
  simp [All, Obeys]

theorem All.bind {x : Traced ok α} {f : α → Traced ok β} (hx : x.All P) (hf : ∀ a, (f a).All P) :
    (x >>= f).All P := by
  rw [all_iff_obeys, obeys_bind]
  exact ⟨hx, fun a _ => all_iff_obeys.1 (hf a)⟩

/-- A run without a bad event has a value. -/
theorem exists_val {x : Traced ok α} (h : x.All ok) : ∃ a, x.val = some a := by
  cases hx : x.val with
  | some a => exact ⟨a, rfl⟩
  | none =>
    obtain ⟨e, he, hbad⟩ := x.stop hx
    exact absurd (h e he) hbad

/-- When `P` implies `ok`, the contract says that every event satisfies `P` and the run has a value satisfying
`Q`. -/
theorem obeys_iff_of_imp (hP : ∀ e, P e → ok e) {x : Traced ok α} {Q : α → Prop} :
    Obeys P x Q ↔ x.All P ∧ ∃ a, x.val = some a ∧ Q a := by
  constructor
  · intro h
    obtain ⟨a, ha⟩ := exists_val fun e he => hP e (h.1 e he)
    exact ⟨h.1, a, ha, h.2 a ha⟩
  · rintro ⟨hs, a, ha, hQ⟩
    refine ⟨hs, fun b hb => ?_⟩
    rw [ha] at hb
    cases hb
    exact hQ

theorem val_of_obeys_eq (hP : ∀ e, P e → ok e) {x : Traced ok α} {a : α} (h : Obeys P x fun r => r = a) :
    x.val = some a := by
  obtain ⟨-, b, hb, rfl⟩ := (obeys_iff_of_imp hP).1 h
  exact hb

end Traced

end CSem
