import GoodbyeDpi.UthashTable
import Mathlib.Data.List.Perm.Basic

/-!
# The integrity check of the hash table

`HASH_FSCK`, which a build with `HASH_DEBUG` runs after every operation: the pointers to previous elements and the
counts of the buckets and of the table.  It never finds a fault, whatever sequence of operations was run.
-/

namespace GoodbyeDpi

open CSem

variable {V : Type}

variable {hash : List UInt8 → UInt32} {m : HashMemory V} {t : HashTable} {s : Uthash V} {items : List ElemAddr}

/-- An operation of the program: a new element with its key, a search, and the deletion of one of the elements, by
its number. -/
inductive HashOp (V : Type) where
  | add (key : List UInt8) (v : V) (mal : Malloc V)
  | find (key : List UInt8)
  | delete (i : Nat)

/-- What the memory for the table has refused in an operation. -/
def HashOp.Refuses : HashOp V → HashFault → Prop
  | .add _ _ mal => mal.Refuses
  | .find _ | .delete _ => fun _ => False

/-- One operation; `items` are the elements of the table, in the order of `HASH_ITER`. -/
def hashStep (hash : List UInt8 → UInt32) (s : Uthash V) (items : List ElemAddr) :
    HashOp V → HashRun (Uthash V × List ElemAddr)
  | .add key v mal =>
    match mal.element s.mem with
    | none => .ok (s, items)
    | some a => do
      let s ← hashAddKeyptr mal { s with mem := s.mem.alloc a v } key (hash key) a
      .ok (s, items ++ [a])
  | .find key => do
    let _ ← hashFind s key (hash key)
    .ok (s, items)
  | .delete i =>
    match items[i]? with
    | none => .ok (s, items)
    | some a => do
      let s ← hashDelete s a
      let m ← s.mem.free a
      .ok ({ s with mem := m }, items.eraseIdx i)

/-- A sequence of operations. -/
def hashOps (hash : List UInt8 → UInt32) (s : Uthash V) (items : List ElemAddr) :
    List (HashOp V) → HashRun (Uthash V × List ElemAddr)
  | [] => .ok (s, items)
  | op :: ops => do
    let (s, items) ← hashStep hash s items op
    hashOps hash s items ops

theorem HoldsOnly.step (h : HoldsOnly hash s items) (op : HashOp V) :
    Returns op.Refuses (hashStep hash s items op) fun r => HoldsOnly hash r.1 r.2 := by
  cases op with
  | add key v mal =>
    simp only [hashStep]
    cases hmal : mal.element s.mem with
    | none => exact returns_ok h
    | some a => exact (h.insert hmal key v).bind fun s' hs' => returns_ok hs'.1
  | find key =>
    obtain ⟨o, ho, -⟩ := hashFind_eq h.1 key
    simp only [hashStep]
    rw [ho, ok_bind]
    exact returns_ok h
  | delete i =>
    simp only [hashStep]
    cases hi : items[i]? with
    | none => exact returns_ok h
    | some a =>
      obtain ⟨hlt, hget⟩ := List.getElem?_eq_some_iff.1 hi
      have hsplit : items = items.take i ++ a :: items.drop (i + 1) := by
        rw [← hget, List.getElem_cons_drop, List.take_append_drop]
      rw [hsplit] at h
      obtain ⟨s', m, hs', hm, hholds, -⟩ := h.delete
      dsimp only
      rw [hs', ok_bind, hm, ok_bind, List.eraseIdx_eq_take_drop_succ]
      exact returns_ok hholds

theorem HoldsOnly.run (h : HoldsOnly hash s items) (ops : List (HashOp V)) :
    Returns (EndsIn (fun x op => hashStep hash x.1 x.2 op) id HashOp.Refuses (s, items) ops) (hashOps hash s items ops)
      fun r => HoldsOnly hash r.1 r.2 := by
  induction ops generalizing s items with
  | nil => exact returns_ok h
  | cons op ops ih =>
    refine Returns.cons (h.step op) ?_
    exact fun r _ hr => ih hr

end GoodbyeDpi
