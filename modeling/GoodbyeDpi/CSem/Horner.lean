import Mathlib.Data.Nat.Digits.Defs
import Mathlib.Data.ZMod.Basic
import Mathlib.Tactic.Ring

/-!
# Digits folded by multiplication and addition

`horner a h ds` is the state after the digits `ds` when a digit `d` takes the state `h` to `h * a + d`.  When `a` is a
unit, the state can be cancelled, and so can what two lists of digits of one length have in common at their ends.
-/

namespace CSem

variable {R : Type} [CommRing R]

/-- The state `h` after the digits. -/
def horner (a h : R) (ds : List R) : R := ds.foldl (fun h d => h * a + d) h

variable {a h k : R} {ds es : List R}

@[simp] theorem horner_nil : horner a h [] = h := rfl

@[simp] theorem horner_cons (d : R) : horner a h (d :: ds) = horner a (h * a + d) ds := rfl

theorem horner_append : horner a h (ds ++ es) = horner a (horner a h ds) es := List.foldl_append

/-- The part of the state and the part of the digits. -/
theorem horner_eq_add (a h : R) (ds : List R) : horner a h ds = h * a ^ ds.length + horner a 0 ds := by
  induction ds generalizing h with
  | nil => simp
  | cons d ds ih =>
    rw [horner_cons, horner_cons, ih (h * a + d), ih (0 * a + d), List.length_cons, pow_succ]
    ring

/-- Equal digits keep different states apart. -/
theorem horner_left_inj (ha : IsUnit a) : horner a h ds = horner a k ds ↔ h = k := by
  rw [horner_eq_add a h, horner_eq_add a k, add_left_inj]
  exact (ha.pow ds.length).mul_left_inj

/-- Digits of one length behind equal states. -/
theorem horner_right_iff (hlen : ds.length = es.length) :
    horner a h ds = horner a h es ↔ horner a 0 ds = horner a 0 es := by
  rw [horner_eq_add a h ds, horner_eq_add a h es, hlen, add_right_inj]

/-- What two lists have in common before and behind parts of one length does not matter. -/
theorem horner_middle_iff (ha : IsUnit a) (pre post : List R) (hlen : ds.length = es.length) :
    horner a h (pre ++ ds ++ post) = horner a h (pre ++ es ++ post) ↔ horner a 0 ds = horner a 0 es := by
  have hsplit (ds : List R) : horner a h (pre ++ ds ++ post) = horner a (horner a (horner a h pre) ds) post := by
    rw [horner_append, horner_append]
  rw [hsplit, hsplit, horner_left_inj ha, horner_right_iff hlen]

/-- From the state 0 the digits are those of a number, the highest first. -/
theorem horner_natCast (b : Nat) (ds : List Nat) :
    horner (b : R) 0 (ds.map Nat.cast) = ((Nat.ofDigits b ds.reverse : Nat) : R) := by
  induction ds using List.reverseRecOn with
  | nil => simp
  | append_singleton ds d ih =>
    rw [List.map_append, horner_append, ih, List.reverse_append]
    simp only [List.map_cons, List.map_nil, horner_cons, horner_nil, List.reverse_cons, List.reverse_nil,
      List.nil_append, List.cons_append, Nat.ofDigits_cons]
    push_cast
    ring

/-- A number modulo a multiple of the modulus. -/
theorem natCast_mod_of_dvd {m n : Nat} (hmn : m ∣ n) (k : Nat) : ((k % n : Nat) : ZMod m) = k :=
  (ZMod.natCast_eq_natCast_iff _ _ _).2 ((Nat.mod_modEq k n).of_dvd hmn)

end CSem
