import Mathlib.Logic.Function.Basic
import Mathlib.Data.List.Basic

/-!
# Doubly linked lists

The pointers of all nodes are one function, so that the same nodes can be in several lists, one for each pair of
pointer fields.  `Linked lnk b l a` says that the nodes of `l` are linked in this order, with `b` before the first of
them and `a` behind the last.  The operations are the usual ones: a node is put in front of a list or behind it, or
taken out of it.
-/

namespace CSem

/-- The two pointers of a node. -/
structure Links (α : Type) where
  prev : Option α
  next : Option α
deriving DecidableEq, Repr

section

variable {α : Type}

/-- The nodes of the list are linked in this order, between `b` and `a`. -/
def Linked (lnk : α → Links α) : Option α → List α → Option α → Prop
  | _, [], _ => True
  | b, x :: l, a => (lnk x).prev = b ∧ (lnk x).next = l.head?.or a ∧ Linked lnk (some x) l a

variable {lnk lnk' : α → Links α} {a b : Option α} {l l₁ l₂ : List α} {x : α}

@[simp] theorem linked_nil : Linked lnk b [] a := trivial

@[simp] theorem linked_cons :
    Linked lnk b (x :: l) a ↔ (lnk x).prev = b ∧ (lnk x).next = l.head?.or a ∧ Linked lnk (some x) l a := Iff.rfl

/-- Only the pointers of the nodes themselves matter. -/
theorem Linked.congr (h : Linked lnk b l a) (heq : ∀ y ∈ l, lnk' y = lnk y) : Linked lnk' b l a := by
  induction l generalizing b with
  | nil => trivial
  | cons x l ih =>
    obtain ⟨hprev, hnext, hl⟩ := h
    have hx := heq x List.mem_cons_self
    refine ⟨by rw [hx, hprev], by rw [hx, hnext], ih hl fun y hy => heq y (List.mem_cons_of_mem _ hy)⟩

theorem linked_append :
    Linked lnk b (l₁ ++ l₂) a ↔ Linked lnk b l₁ (l₂.head?.or a) ∧ Linked lnk (l₁.getLast?.or b) l₂ a := by
  induction l₁ generalizing b with
  | nil => simp
  | cons x l ih =>
    have hlast : (x :: l).getLast?.or b = l.getLast?.or (some x) := by
      cases l with
      | nil => rfl
      | cons y l => simp [List.getLast?_cons]
    rw [List.cons_append, linked_cons, ih, linked_cons, List.head?_append, hlast, Option.or_assoc, and_assoc, and_assoc]

/-- The neighbours of a node. -/
theorem Linked.neighbours (h : Linked lnk b (l₁ ++ x :: l₂) a) :
    (lnk x).prev = l₁.getLast?.or b ∧ (lnk x).next = l₂.head?.or a := by
  obtain ⟨-, hprev, hnext, -⟩ := linked_append.1 h
  exact ⟨hprev, hnext⟩

end

section

variable {α : Type} [DecidableEq α]

/-- `x->prev = p`. -/
def setPrev (lnk : α → Links α) (x : α) (p : Option α) : α → Links α :=
  Function.update lnk x { prev := p, next := (lnk x).next }

/-- `x->next = n`. -/
def setNext (lnk : α → Links α) (x : α) (n : Option α) : α → Links α :=
  Function.update lnk x { prev := (lnk x).prev, next := n }

/-- `if (o) o->prev = p`. -/
def setPrevOf (lnk : α → Links α) (o p : Option α) : α → Links α := o.elim lnk fun x => setPrev lnk x p

/-- `if (o) o->next = n`. -/
def setNextOf (lnk : α → Links α) (o n : Option α) : α → Links α := o.elim lnk fun x => setNext lnk x n

/-- The node becomes the first one of the list that starts at `head`. -/
def linkFirst (lnk : α → Links α) (head : Option α) (x : α) : α → Links α :=
  setPrevOf (setPrev (setNext lnk x head) x none) head (some x)

/-- The node becomes the last one of the list that ends at `tail`. -/
def linkLast (lnk : α → Links α) (tail x : α) : α → Links α :=
  setNext (setPrev (setNext lnk x none) x (some tail)) tail (some x)

/-- The neighbours of the node are linked with each other. -/
def unlink (lnk : α → Links α) (x : α) : α → Links α :=
  setPrevOf (setNextOf lnk (lnk x).prev (lnk x).next) (lnk x).next (lnk x).prev

variable {lnk : α → Links α} {a b : Option α} {l l₁ l₂ : List α} {x y : α}

/-! ### Writes -/

@[simp] theorem setPrev_self (p : Option α) : setPrev lnk x p x = ⟨p, (lnk x).next⟩ := Function.update_self ..

@[simp] theorem setNext_self (n : Option α) : setNext lnk x n x = ⟨(lnk x).prev, n⟩ := Function.update_self ..

theorem setPrev_of_ne (h : y ≠ x) (p : Option α) : setPrev lnk x p y = lnk y := Function.update_of_ne h ..

theorem setNext_of_ne (h : y ≠ x) (n : Option α) : setNext lnk x n y = lnk y := Function.update_of_ne h ..

theorem setPrevOf_of_ne {o : Option α} (h : o ≠ some y) (p : Option α) : setPrevOf lnk o p y = lnk y := by
  cases o with
  | none => rfl
  | some x => exact setPrev_of_ne (fun hyx => h (by rw [hyx])) p

theorem setNextOf_of_ne {o : Option α} (h : o ≠ some y) (n : Option α) : setNextOf lnk o n y = lnk y := by
  cases o with
  | none => rfl
  | some x => exact setNext_of_ne (fun hyx => h (by rw [hyx])) n

/-! ### The ends of a list -/

/-- The node behind the list may change: the last node is told. -/
theorem Linked.setNextOf_getLast (h : Linked lnk b l a) (hl : l.Nodup) (n : Option α) :
    Linked (setNextOf lnk l.getLast? n) b l n := by
  rcases List.eq_nil_or_concat l with rfl | ⟨l, x, rfl⟩
  · trivial
  · rw [List.concat_eq_append] at h hl ⊢
    obtain ⟨hl', hprev, -, -⟩ := linked_append.1 h
    have hx : x ∉ l := fun hx => (List.nodup_append.1 hl).2.2 x hx x List.mem_cons_self rfl
    rw [List.getLast?_append_of_ne_nil _ (List.cons_ne_nil x [])]
    refine linked_append.2 ⟨hl'.congr fun y hy => ?_, ?_⟩
    · have hyx : y ≠ x := fun hyx => hx (hyx ▸ hy)
      exact setNext_of_ne hyx n
    · simpa [setNextOf] using hprev

/-- The node before the list may change: the first node is told. -/
theorem Linked.setPrevOf_head (h : Linked lnk b l a) (hl : l.Nodup) (p : Option α) :
    Linked (setPrevOf lnk l.head? p) p l a := by
  cases l with
  | nil => trivial
  | cons x l =>
    obtain ⟨-, hnext, hl'⟩ := h
    refine ⟨by simp [setPrevOf], by simpa [setPrevOf] using hnext, hl'.congr fun y hy => ?_⟩
    have hyx : y ≠ x := fun hyx => (List.nodup_cons.1 hl).1 (hyx ▸ hy)
    exact setPrev_of_ne hyx p

/-! ### Putting a node in front -/

theorem linkFirst_of_ne {head : Option α} (hx : y ≠ x) (hhead : head ≠ some y) : linkFirst lnk head x y = lnk y := by
  unfold linkFirst
  rw [setPrevOf_of_ne hhead, setPrev_of_ne hx, setNext_of_ne hx]

theorem Linked.linkFirst (h : Linked lnk b l none) (hl : (x :: l).Nodup) :
    Linked (linkFirst lnk l.head? x) none (x :: l) none := by
  obtain ⟨hx, hnodup⟩ := List.nodup_cons.1 hl
  have hhead : l.head? ≠ some x := fun hx' => hx (List.mem_of_head? hx')
  have hself : CSem.linkFirst lnk l.head? x x = ⟨none, l.head?⟩ := by
    unfold CSem.linkFirst
    rw [setPrevOf_of_ne hhead]
    simp
  refine ⟨by rw [hself], by rw [hself]; simp, ?_⟩
  have hkept : Linked (setPrev (setNext lnk x l.head?) x none) b l none := by
    refine h.congr fun y hy => ?_
    have hyx : y ≠ x := fun hyx => hx (hyx ▸ hy)
    rw [setPrev_of_ne hyx, setNext_of_ne hyx]
  exact hkept.setPrevOf_head hnodup (some x)

/-! ### Putting a node behind -/

theorem Linked.linkLast (h : Linked lnk none l none) {tail : α} (htail : l.getLast? = some tail)
    (hl : (l ++ [x]).Nodup) : Linked (linkLast lnk tail x) none (l ++ [x]) none := by
  obtain ⟨hnodup, -, hdisj⟩ := List.nodup_append.1 hl
  have hx : x ∉ l := fun hx => hdisj x hx x List.mem_cons_self rfl
  have hne : x ≠ tail := fun hxt => hx (hxt ▸ List.mem_of_getLast? htail)
  have hkept : Linked (setPrev (setNext lnk x none) x (some tail)) none l none := by
    refine h.congr fun y hy => ?_
    have hyx : y ≠ x := fun hyx => hx (hyx ▸ hy)
    rw [setPrev_of_ne hyx, setNext_of_ne hyx]
  have hlast := hkept.setNextOf_getLast hnodup (some x)
  rw [htail] at hlast
  refine linked_append.2 ⟨hlast, ?_⟩
  unfold CSem.linkLast
  simp [setNext_of_ne hne, htail]

/-! ### Taking a node out -/

theorem Linked.unlink (h : Linked lnk none (l₁ ++ x :: l₂) none) (hl : (l₁ ++ x :: l₂).Nodup) :
    Linked (unlink lnk x) none (l₁ ++ l₂) none := by
  obtain ⟨hprev, hnext⟩ := h.neighbours
  obtain ⟨hl₁, -, -, hl₂⟩ := linked_append.1 h
  obtain ⟨hnodup₁, hcons, hdisj⟩ := List.nodup_append.1 hl
  have hnodup₂ := (List.nodup_cons.1 hcons).2
  have hapart : ∀ y ∈ l₁, ∀ z ∈ l₂, y ≠ z := fun y hy z hz => hdisj y hy z (List.mem_cons_of_mem _ hz)
  rw [Option.or_none] at hprev hnext
  unfold CSem.unlink
  rw [hprev, hnext]
  refine linked_append.2 ⟨?_, ?_⟩
  · -- the left part ends at its last node, which the second write leaves alone
    rw [Option.or_none]
    refine (hl₁.setNextOf_getLast hnodup₁ l₂.head?).congr fun y hy => setPrevOf_of_ne (fun hy' => ?_) _
    exact hapart y hy y (List.mem_of_head? hy') rfl
  · rw [Option.or_none]
    refine Linked.setPrevOf_head (b := some x) (hl₂.congr fun y hy => setNextOf_of_ne (fun hy' => ?_) _) hnodup₂ _
    exact hapart y (List.mem_of_getLast? hy') y hy rfl

/-- Nodes of other lists stay as they are. -/
theorem Linked.unlink_of_notMem (h : Linked lnk none (l₁ ++ x :: l₂) none) (hy : y ∉ l₁ ++ x :: l₂) :
    CSem.unlink lnk x y = lnk y := by
  obtain ⟨hprev, hnext⟩ := h.neighbours
  rw [Option.or_none] at hprev hnext
  have h₁ : l₁.getLast? ≠ some y := fun h₁ => hy (List.mem_append_left _ (List.mem_of_getLast? h₁))
  have h₂ : l₂.head? ≠ some y :=
    fun h₂ => hy (List.mem_append_right _ (List.mem_cons_of_mem _ (List.mem_of_head? h₂)))
  unfold CSem.unlink
  rw [hprev, hnext, setPrevOf_of_ne h₂, setNextOf_of_ne h₁]

end

end CSem
