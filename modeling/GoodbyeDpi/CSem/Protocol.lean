import Mathlib.Logic.Basic

/-!
# Programs that call their environment

`Proc C R α` is a program that makes calls `c : C` and goes on with the answer `R c`, until it ends with a value.  A
protocol says which calls are allowed in a state, which answers the environment may give and how the state changes.
`Meets` is the weakest precondition: whatever the environment answers, every call is allowed, and the value and the
state at the end have the property.  It distributes over `pure`, `bind` and conditionals.  A property that the calls of
a program keep holds at each of its calls (`Meets.frame`).  A protocol may keep a log of calls and answers beside the
state, which does not change what a program meets (`Meets.logged`).
-/

namespace CSem

/-- A program that ends with a value, or makes a call and goes on with the answer. -/
inductive Proc (C : Type) (R : C → Type) (α : Type) where
  | ret (a : α)
  | call (c : C) (k : R c → Proc C R α)

variable {C : Type} {R : C → Type} {σ α β : Type}

namespace Proc

/-- The second program runs with the value of the first. -/
def bind : Proc C R α → (α → Proc C R β) → Proc C R β
  | ret a, f => f a
  | call c k, f => call c fun r => (k r).bind f

instance : Monad (Proc C R) where
  pure := ret
  bind := bind

/-- The call, with its answer as the value. -/
def ask (c : C) : Proc C R (R c) := call c ret

end Proc

/-- What calls do: whether one is allowed, the answers that may come, and the state behind it. -/
structure Protocol (C : Type) (R : C → Type) (σ : Type) where
  ok : σ → C → Prop
  may : σ → (c : C) → R c → Prop
  next : σ → (c : C) → R c → σ

/-- Every call is allowed, and the program ends only with values and states that satisfy `Q`. -/
def Meets (P : Protocol C R σ) : Proc C R α → σ → (α → σ → Prop) → Prop
  | .ret a, s, Q => Q a s
  | .call c k, s, Q => P.ok s c ∧ ∀ r, P.may s c r → Meets P (k r) (P.next s c r) Q

variable {P : Protocol C R σ} {p : Proc C R α} {f : α → Proc C R β} {s : σ}

@[simp] theorem meets_pure {a : α} {Q : α → σ → Prop} : Meets P (pure a) s Q ↔ Q a s := Iff.rfl

@[simp] theorem meets_ask {c : C} {Q : R c → σ → Prop} :
    Meets P (.ask c) s Q ↔ P.ok s c ∧ ∀ r, P.may s c r → Q r (P.next s c r) := Iff.rfl

@[simp] theorem meets_bind {Q : β → σ → Prop} :
    Meets P (p >>= f) s Q ↔ Meets P p s fun a s' => Meets P (f a) s' Q := by
  induction p generalizing s with
  | ret a => exact Iff.rfl
  | call c k ih => exact and_congr_right fun _ => forall_congr' fun r => imp_congr_right fun _ => ih r

@[simp] theorem meets_ite {b : Prop} [Decidable b] {q : Proc C R α} {Q : α → σ → Prop} :
    Meets P (if b then p else q) s Q ↔ (b → Meets P p s Q) ∧ (¬ b → Meets P q s Q) := by
  split <;> simp [*]

/-- The call is allowed, and the rest meets what is asked behind every answer. -/
theorem meets_ask_bind {c : C} {g : R c → Proc C R β} {Q : β → σ → Prop} :
    Meets P (.ask c >>= g) s Q ↔ P.ok s c ∧ ∀ r, P.may s c r → Meets P (g r) (P.next s c r) Q := Iff.rfl

theorem Meets.imp {Q Q' : α → σ → Prop} (h : Meets P p s Q) (hQ : ∀ a s', Q a s' → Q' a s') : Meets P p s Q' := by
  induction p generalizing s with
  | ret a => exact hQ a s h
  | call c k ih => exact ⟨h.1, fun r hr => ih r (h.2 r hr)⟩

theorem Meets.and {Q Q' : α → σ → Prop} (h : Meets P p s Q) (h' : Meets P p s Q') :
    Meets P p s fun a s' => Q a s' ∧ Q' a s' := by
  induction p generalizing s with
  | ret a => exact ⟨h, h'⟩
  | call c k ih => exact ⟨h.1, fun r hr => ih r (h.2 r hr) (h'.2 r hr)⟩

/-- The calls that the program can make are of the kind `A`. -/
def Makes (A : C → Prop) : Proc C R α → Prop
  | .ret _ => True
  | .call c k => A c ∧ ∀ r, Makes A (k r)

variable {A : C → Prop}

@[simp] theorem makes_pure {a : α} : Makes A (pure a : Proc C R α) := trivial

theorem Makes.bind (h : Makes A p) (hf : ∀ a, Makes A (f a)) : Makes A (p >>= f) := by
  induction p with
  | ret a => exact hf a
  | call c k ih => exact ⟨h.1, fun r => ih r (h.2 r)⟩

theorem makes_ite {b : Prop} [Decidable b] {q : Proc C R α} :
    Makes A (if b then p else q) ↔ (b → Makes A p) ∧ (¬ b → Makes A q) := by
  split <;> simp [*]

/-- The protocol whose calls are made only where `I` holds. -/
def Protocol.guard (P : Protocol C R σ) (I : σ → Prop) : Protocol C R σ where
  ok := fun s c => P.ok s c ∧ I s
  may := P.may
  next := P.next

/-- What all calls of the program keep holds at each of them and at the end. -/
theorem Meets.frame {Q : α → σ → Prop} {I : σ → Prop} (h : Meets P p s Q) (hA : Makes A p)
    (hstep : ∀ s c r, A c → I s → I (P.next s c r)) (hI : I s) :
    Meets (P.guard I) p s fun a s' => Q a s' ∧ I s' := by
  induction p generalizing s with
  | ret a => exact ⟨h, hI⟩
  | call c k ih => exact ⟨⟨h.1, hI⟩, fun r hr => ih r (h.2 r hr) (hA.2 r) (hstep s c r hA.1 hI)⟩

theorem makes_true (p : Proc C R α) : Makes (fun _ => True) p := by
  induction p with
  | ret a => trivial
  | call c k ih => exact ⟨trivial, ih⟩

/-! ### Logs -/

variable {ν : Type} {note : (c : C) → R c → List ν} {l : List ν}

/-- The protocol with a log beside the state, to which `note` adds what it takes from a call and its answer. -/
def Protocol.logged (P : Protocol C R σ) (note : (c : C) → R c → List ν) : Protocol C R (σ × List ν) where
  ok := fun x c => P.ok x.1 c
  may := fun x c r => P.may x.1 c r
  next := fun x c r => (P.next x.1 c r, x.2 ++ note c r)

theorem Meets.logged {Q : α → σ → Prop} (h : Meets P p s Q) (note : (c : C) → R c → List ν) (l : List ν) :
    Meets (P.logged note) p (s, l) fun a x => Q a x.1 := by
  induction p generalizing s l with
  | ret a => exact h
  | call c k ih => exact ⟨h.1, fun r hr => ih r (h.2 r hr) _⟩

theorem Meets.of_logged {Q : α → σ → Prop} (h : Meets (P.logged note) p (s, l) fun a x => Q a x.1) : Meets P p s Q := by
  induction p generalizing s l with
  | ret a => exact h
  | call c k ih => exact ⟨h.1, fun r hr => ih r (h.2 r hr)⟩

/-- What all calls keep of state and log holds at the end. -/
theorem Meets.logged_frame {Q : α → σ → Prop} {I : σ → List ν → Prop} (h : Meets P p s Q) (hA : Makes A p)
    (hstep : ∀ s l c r, A c → I s l → I (P.next s c r) (l ++ note c r)) (hI : I s l) :
    Meets (P.logged note) p (s, l) fun a x => Q a x.1 ∧ I x.1 x.2 := by
  induction p generalizing s l with
  | ret a => exact ⟨h, hI⟩
  | call c k ih => exact ⟨h.1, fun r hr => ih r (h.2 r hr) (hA.2 r) (hstep s l c r hA.1 hI)⟩

end CSem
