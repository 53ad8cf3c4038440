import Mathlib.Algebra.Order.Ring.Int
import GoodbyeDpi.CSem.Traced

/-!
# Checked accesses to counted buffers

A buffer is the list of its bytes.  Every access logs the buffer's tag, the range touched and the size of the
buffer; an access outside the buffer is undefined behaviour and stops the run.  A subtraction of `size_t` values
is logged as well: it does not stop the run but wraps modulo `2 ^ 64`.

A predicate `Watches` a tag when it holds of every good access and only of the good accesses to that buffer.  The
contracts below are stated for such predicates, so they serve both for "every access is good" and for "every
access to this one buffer is good".
-/

namespace CSem

/-- The number of values of `size_t`. -/
def sizeMod : Nat := 2 ^ 64

/-- An access to the bytes `off, …, off + n - 1` of a buffer of `cap` bytes, or the subtraction `a - b` of two
`size_t` values. -/
inductive Access (β : Type) where
  | read (buf : β) (off n cap : Nat)
  | write (buf : β) (off n cap : Nat)
  | sub (a b : Nat)
deriving DecidableEq, Repr

namespace Access

variable {β : Type}

/-- Every byte touched lies in the buffer. -/
def InRange : Access β → Prop
  | read _ off n cap => ∀ i, off ≤ i → i < off + n → i < cap
  | write _ off n cap => ∀ i, off ≤ i → i < off + n → i < cap
  | sub _ _ => True

/-- Every byte touched lies in the buffer; a subtraction does not wrap. -/
def Ok : Access β → Prop
  | sub a b => b ≤ a
  | e => e.InRange

private theorem range_in_iff {off n cap : Nat} :
    (∀ i, off ≤ i → i < off + n → i < cap) ↔ n = 0 ∨ off + n ≤ cap := by
  constructor
  · intro h
    rcases Nat.eq_zero_or_pos n with hn | hn
    · exact Or.inl hn
    · have := h (off + n - 1) (by omega) (by omega)
      omega
  · rintro h i h1 h2
    omega

theorem ok_read {t : β} {off n cap : Nat} : (read t off n cap).Ok ↔ n = 0 ∨ off + n ≤ cap :=
  range_in_iff

theorem ok_write {t : β} {off n cap : Nat} : (write t off n cap).Ok ↔ n = 0 ∨ off + n ≤ cap :=
  range_in_iff

theorem ok_sub {a b : Nat} : (sub a b : Access β).Ok ↔ b ≤ a := Iff.rfl

theorem inRange_of_ok (e : Access β) (h : e.Ok) : e.InRange :=
  match e with
  | read _ _ _ _ => h
  | write _ _ _ _ => h
  | sub _ _ => trivial

instance (e : Access β) : Decidable e.Ok :=
  match e with
  | read _ _ _ _ => decidable_of_iff _ ok_read.symm
  | write _ _ _ _ => decidable_of_iff _ ok_write.symm
  | sub a b => inferInstanceAs (Decidable (b ≤ a))

instance (e : Access β) : Decidable e.InRange :=
  match e with
  | read t off n cap => inferInstanceAs (Decidable (read t off n cap).Ok)
  | write t off n cap => inferInstanceAs (Decidable (write t off n cap).Ok)
  | sub _ _ => isTrue trivial

/-- The access touches the buffer `t`. -/
def Touches (t : β) : Access β → Prop
  | read buf _ _ _ => buf = t
  | write buf _ _ _ => buf = t
  | sub _ _ => False

instance [DecidableEq β] (t : β) (e : Access β) : Decidable (e.Touches t) :=
  match e with
  | read buf _ _ _ => inferInstanceAs (Decidable (buf = t))
  | write buf _ _ _ => inferInstanceAs (Decidable (buf = t))
  | sub _ _ => isFalse id

/-- `P` holds of every good access, and of an access to `t` only when it is good. -/
structure Watches (P : Access β → Prop) (t : β) : Prop where
  of_ok : ∀ e, e.Ok → P e
  ok_of : ∀ e, e.Touches t → P e → e.Ok

theorem Touches.ok_iff {t : β} {e : Access β} (h : e.Touches t) : e.Ok ↔ e.InRange :=
  match e with
  | read _ _ _ _ => Iff.rfl
  | write _ _ _ _ => Iff.rfl
  | sub _ _ => h.elim

theorem watches_ok (t : β) : Watches Ok t := ⟨fun _ h => h, fun _ _ h => h⟩

theorem watches_inRange (t : β) : Watches InRange t := ⟨inRange_of_ok, fun _ ht h => ht.ok_iff.2 h⟩

/-- Watching one buffer only. -/
theorem watches_touches (t : β) : Watches (fun e => e.Touches t → e.InRange) t :=
  ⟨fun e h _ => inRange_of_ok e h, fun _ ht h => ht.ok_iff.2 (h ht)⟩

theorem Watches.read_iff {P : Access β → Prop} {t : β} (hw : Watches P t) {off n cap : Nat} :
    P (read t off n cap) ↔ n = 0 ∨ off + n ≤ cap :=
  ⟨fun h => ok_read.1 (hw.ok_of _ rfl h), fun h => hw.of_ok _ (ok_read.2 h)⟩

theorem Watches.write_iff {P : Access β → Prop} {t : β} (hw : Watches P t) {off n cap : Nat} :
    P (write t off n cap) ↔ n = 0 ∨ off + n ≤ cap :=
  ⟨fun h => ok_write.1 (hw.ok_of _ rfl h), fun h => hw.of_ok _ (ok_write.2 h)⟩

/-- The access touches byte `i` of the buffer `t`. -/
def Covers (t : β) (i : Nat) : Access β → Prop
  | read buf off n _ => buf = t ∧ off ≤ i ∧ i < off + n
  | write buf off n _ => buf = t ∧ off ≤ i ∧ i < off + n
  | sub _ _ => False

/-- The access is good, and of the buffer `t` it touches only bytes between the offsets `lo` and `hi`. -/
def Within (t : β) (lo hi : Nat) (e : Access β) : Prop := e.Ok ∧ ∀ i, e.Covers t i → lo ≤ i ∧ i < hi

theorem within_read {t : β} {lo hi off n cap : Nat} (hlo : lo ≤ off) (hhi : off + n ≤ hi) (hcap : hi ≤ cap) :
    (read t off n cap).Within t lo hi := by
  refine ⟨ok_read.2 (Or.inr (by omega)), ?_⟩
  rintro i ⟨-, h1, h2⟩
  omega

theorem within_write {t u : β} {lo hi off n cap : Nat} (hu : u ≠ t) (h : off + n ≤ cap) :
    (write u off n cap).Within t lo hi :=
  ⟨ok_write.2 (Or.inr h), fun _ hi => absurd hi.1 hu⟩

theorem within_sub {t : β} {lo hi a b : Nat} (h : b ≤ a) : (sub a b).Within t lo hi := ⟨h, fun _ hi => hi.elim⟩

end Access

/-- A run of a C function over buffers with tags in `β`. -/
abbrev CRun (β : Type) := Traced (Access.InRange (β := β))

section

variable {β : Type}

/-- `b[i]`. -/
def load (t : β) (b : List UInt8) (i : Nat) : CRun β UInt8 where
  log := [.read t i 1 b.length]
  val := b[i]?
  stop := by
    intro h
    refine ⟨_, List.mem_singleton.2 rfl, fun hok => ?_⟩
    have := List.getElem?_eq_none_iff.1 h
    have := Access.ok_read.1 (show Access.Ok (.read t i 1 b.length) from hok)
    omega

/-- The source of a copy: the `n` bytes of `b` from `off`. -/
def slice (t : β) (b : List UInt8) (off n : Nat) : CRun β (List UInt8) where
  log := [.read t off n b.length]
  val := if n = 0 ∨ off + n ≤ b.length then some ((b.drop off).take n) else none
  stop := by
    intro h
    refine ⟨_, List.mem_singleton.2 rfl, fun hok => ?_⟩
    rw [if_pos (Access.ok_read.1 (show Access.Ok (.read t off n b.length) from hok))] at h
    cases h

/-- The buffer with `bytes` written over it from `off`. -/
def overwrite (b : List UInt8) (off : Nat) (bytes : List UInt8) : List UInt8 :=
  b.take off ++ bytes ++ b.drop (off + bytes.length)

/-- The destination of a copy: `bytes` are written to `b` from `off`. -/
def store (t : β) (b : List UInt8) (off : Nat) (bytes : List UInt8) : CRun β (List UInt8) where
  log := [.write t off bytes.length b.length]
  val := if bytes.length = 0 ∨ off + bytes.length ≤ b.length then some (overwrite b off bytes) else none
  stop := by
    intro h
    refine ⟨_, List.mem_singleton.2 rfl, fun hok => ?_⟩
    rw [if_pos (Access.ok_write.1 (show Access.Ok (.write t off bytes.length b.length) from hok))] at h
    cases h

/-- `a - b` in `size_t`. -/
def wrapSub (a b : Nat) : Nat := (a + sizeMod - b) % sizeMod

/-- The subtraction, logged. -/
def subSize (a b : Nat) : CRun β Nat where
  log := [.sub a b]
  val := some (wrapSub a b)
  stop := fun h => by cases h

theorem length_overwrite {b : List UInt8} {off : Nat} {bytes : List UInt8} (h : off + bytes.length ≤ b.length) :
    (overwrite b off bytes).length = b.length := by
  simp [overwrite]
  omega

/-- Two writes side by side, the second one first. -/
theorem overwrite_overwrite {b : List UInt8} {off : Nat} {u v : List UInt8} (h : off + u.length ≤ b.length) :
    overwrite (overwrite b (off + u.length) v) off u = overwrite b off (u ++ v) := by
  have hlen : (b.take (off + u.length)).length = off + u.length := List.length_take_of_le h
  have htake : ((b.take (off + u.length) ++ v) ++ b.drop (off + u.length + v.length)).take off = b.take off := by
    rw [List.append_assoc, List.take_append_of_le_length (by omega), List.take_take, Nat.min_eq_left (by omega)]
  have hdrop : ((b.take (off + u.length) ++ v) ++ b.drop (off + u.length + v.length)).drop (off + u.length) =
      v ++ b.drop (off + u.length + v.length) := by
    rw [List.append_assoc]
    exact List.drop_left' hlen
  unfold overwrite
  rw [htake, hdrop, List.length_append, ← Nat.add_assoc]
  simp only [List.append_assoc]

theorem overwrite_append (a r : List UInt8) (k : Nat) (bytes : List UInt8) :
    overwrite (a ++ r) (a.length + k) bytes = a ++ overwrite r k bytes := by
  unfold overwrite
  rw [List.take_length_add_append, Nat.add_assoc, List.drop_length_add_append]
  simp only [List.append_assoc]

end

open Traced Access

section

variable {β : Type} {P : Access β → Prop} {t : β}

theorem obeys_load (hw : Watches P t) {b : List UInt8} {i : Nat} {Q : UInt8 → Prop} :
    Obeys P (load t b i) Q ↔ ∃ h : i < b.length, Q b[i] := by
  simp only [Obeys, load, List.mem_singleton, forall_eq, hw.read_iff]
  constructor
  · rintro ⟨h, hQ⟩
    exact ⟨by omega, hQ _ (List.getElem?_eq_getElem (by omega))⟩
  · rintro ⟨h, hQ⟩
    refine ⟨by omega, fun a ha => ?_⟩
    rw [List.getElem?_eq_getElem h] at ha
    cases ha
    exact hQ

theorem obeys_slice (hw : Watches P t) {b : List UInt8} {off n : Nat} {Q : List UInt8 → Prop} :
    Obeys P (slice t b off n) Q ↔ (n = 0 ∨ off + n ≤ b.length) ∧ Q ((b.drop off).take n) := by
  simp only [Obeys, slice, List.mem_singleton, forall_eq, hw.read_iff]
  constructor
  · rintro ⟨h, hQ⟩
    exact ⟨h, hQ _ (if_pos h)⟩
  · rintro ⟨h, hQ⟩
    refine ⟨h, fun a ha => ?_⟩
    rw [if_pos h] at ha
    cases ha
    exact hQ

theorem obeys_store (hw : Watches P t) {b : List UInt8} {off : Nat} {bytes : List UInt8} {Q : List UInt8 → Prop} :
    Obeys P (store t b off bytes) Q ↔
      (bytes.length = 0 ∨ off + bytes.length ≤ b.length) ∧ Q (overwrite b off bytes) := by
  simp only [Obeys, store, List.mem_singleton, forall_eq, hw.write_iff]
  constructor
  · rintro ⟨h, hQ⟩
    exact ⟨h, hQ _ (if_pos h)⟩
  · rintro ⟨h, hQ⟩
    refine ⟨h, fun a ha => ?_⟩
    rw [if_pos h] at ha
    cases ha
    exact hQ

/-- The contract of a load that is known to be good. -/
theorem obeys_load_of {b : List UInt8} {i : Nat} {Q : UInt8 → Prop} (hi : i < b.length)
    (hP : P (.read t i 1 b.length)) : Obeys P (load t b i) Q ↔ Q b[i] := by
  simp [Obeys, load, hP, List.getElem?_eq_getElem hi]

theorem obeys_slice_of {b : List UInt8} {off n : Nat} {Q : List UInt8 → Prop} (h : off + n ≤ b.length)
    (hP : P (.read t off n b.length)) : Obeys P (slice t b off n) Q ↔ Q ((b.drop off).take n) := by
  simp [Obeys, slice, hP, h]

theorem obeys_store_of {b : List UInt8} {off : Nat} {bytes : List UInt8} {Q : List UInt8 → Prop}
    (h : off + bytes.length ≤ b.length) (hP : P (.write t off bytes.length b.length)) :
    Obeys P (store t b off bytes) Q ↔ Q (overwrite b off bytes) := by
  simp [Obeys, store, hP, h]

theorem obeys_subSize {a b : Nat} {Q : Nat → Prop} :
    Obeys P (subSize a b) Q ↔ P (.sub a b) ∧ Q (wrapSub a b) := by
  simp [Obeys, subSize]

theorem wrapSub_of_le {a b : Nat} (ha : a < sizeMod) (h : b ≤ a) : wrapSub a b = a - b := by
  rw [wrapSub, show a + sizeMod - b = a - b + sizeMod by omega, Nat.add_mod_right, Nat.mod_eq_of_lt (by omega)]

end

end CSem
