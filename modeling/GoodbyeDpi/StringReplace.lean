import GoodbyeDpi.Packet
import GoodbyeDpi.CSem.Occurrences

/-!
# Replacing text (`string_replace_all`, `string_count_occurrences`)

`string_replace_all` edits the buffer it scans: the rest of the string is moved to make room, the replacement is copied
over the occurrence, and the search goes on behind the replacement.  The array `str` is modelled by its `str_size`
bytes, so an access at `str_size` or above is out of range.  The three strings are distinct arrays in one address space
of `2 ^ 64` bytes, and pointers into `str` are offsets.  Lengths are `size_t` values and wrap; the counter is an `int`.
-/

namespace GoodbyeDpi

open CSem Traced Access

/-- The strings of the two functions. -/
inductive ReplaceBuf where
  | str
  | find
  | replace
deriving DecidableEq, Repr

/-! ### The code -/

/-- An `int` that is counted up to `n`; an overflow is taken to wrap. -/
def toInt (n : Int) : Int := Int.bmod n (2 ^ 32)

/-- `a + b` in `size_t`. -/
def wrapAdd (a b : Nat) : Nat := (a + b) % sizeMod

/-- The rest of the string, moved behind the replacement; `none` where the string would not fit. -/
def makeRoom (str : List UInt8) (pos findLen replaceLen : Nat) : CRun ReplaceBuf (Option (List UInt8)) := do
  let n ← strlen .str str pos
  let tail ← subSize n findLen
  let remaining := wrapAdd tail 1
  let len ← strlen .str str 0
  let newLen ← subSize (wrapAdd len replaceLen) findLen
  if str.length ≤ newLen then pure none
  else
    let str ← memmove .str str (pos + replaceLen) (pos + findLen) remaining
    pure (some str)

/-- The replacement, copied over the occurrence, and the search behind it. -/
def copyReplacement (find replace : List UInt8) (replaceLen : Nat) (str : List UInt8) (pos : Nat) :
    CRun ReplaceBuf (List UInt8 × Option Nat) := do
  let bytes ← slice .replace replace 0 replaceLen
  let str ← store .str str pos bytes
  let next ← strstr .str str (cstr find) (pos + replaceLen)
  pure (str, next)

/-- The body of the loop with its second guard: the buffer and the next occurrence; `none` where the loop is left. -/
def replaceTurn (find replace : List UInt8) (findLen replaceLen : Nat) (str : List UInt8) (pos : Nat) :
    CRun ReplaceBuf (Option (List UInt8 × Option Nat)) := do
  if pos + replaceLen < str.length then
    let room ← (if replaceLen ≠ findLen then makeRoom str pos findLen replaceLen else pure (some str) :
      CRun ReplaceBuf (Option (List UInt8)))
    match room with
    | none => pure none
    | some str =>
      let next ← copyReplacement find replace replaceLen str pos
      pure (some next)
  else pure none

/-- The loop, for `fuel` turns at most: the counter and the buffer at its end, `none` when it has not ended. -/
def replaceLoop (find replace : List UInt8) (findLen replaceLen : Nat) :
    Nat → List UInt8 → Option Nat → Int → CRun ReplaceBuf (Option (Int × List UInt8))
  | _, str, none, count => pure (some (count, str))
  | 0, _, some _, _ => pure none
  | fuel + 1, str, some pos, count => do
    let turn ← replaceTurn find replace findLen replaceLen str pos
    match turn with
    | none => pure (some (count, str))
    | some (str, next) => replaceLoop find replace findLen replaceLen fuel str next (toInt (count + 1))

/-- `string_replace_all(str, str_size, find, replace)`: the result and the buffer.  A pointer that is NULL is `none`. -/
def stringReplaceAll (fuel : Nat) (str find replace : Option (List UInt8)) :
    CRun ReplaceBuf (Option (Int × List UInt8)) :=
  match str, find, replace with
  | some str, some find, some replace => do
    if str.length = 0 then pure (some (-1, str))
    else
      let findLen ← strlen .find find 0
      let replaceLen ← strlen .replace replace 0
      if findLen = 0 then pure (some (0, str))
      else
        let pos ← strstr .str str (cstr find) 0
        replaceLoop find replace findLen replaceLen fuel str pos 0
  | str, _, _ => pure (some (-1, str.getD []))

/-- `while ((pos = strstr(pos, find)) != NULL)`; `fuel` is what is left of the buffer. -/
def countLoop (find : List UInt8) (findLen : Nat) (str : List UInt8) : Nat → Nat → Int → CRun ReplaceBuf Int
  | 0, pos, count => do
    let _ ← load .str str pos
    pure count
  | fuel + 1, pos, count => do
    match ← strstr .str str (cstr find) pos with
    | none => pure count
    | some pos => countLoop find findLen str fuel (pos + findLen) (toInt (count + 1))

/-- `string_count_occurrences`. -/
def stringCountOccurrences (str find : Option (List UInt8)) : CRun ReplaceBuf Int :=
  match str, find with
  | some str, some find => do
    let findLen ← strlen .find find 0
    if findLen = 0 then pure 0 else countLoop find findLen str str.length 0 0
  | _, _ => pure 0

/-! ### Contracts -/

theorem wrapAdd_of_lt {a b : Nat} (h : a + b < sizeMod) : wrapAdd a b = a + b := Nat.mod_eq_of_lt h

section

variable {pre r t str : List UInt8}

/-- A string that goes on behind `pre`. -/
private theorem cstr_drop_left (pre t : List UInt8) (hr : (0 : UInt8) ∉ r) :
    (0 : UInt8) ∈ (pre ++ (r ++ 0 :: t)).drop pre.length ∧ cstr ((pre ++ (r ++ 0 :: t)).drop pre.length) = r := by
  rw [List.drop_left, cstr_append_zero, cstr_of_notMem hr]
  exact ⟨by simp, rfl⟩

/-- The rest of the string is moved where there is room for the replacement. -/
private theorem obeys_makeRoom {f : List UInt8} {replaceLen : Nat} (hstr : str = pre ++ (f ++ (r ++ 0 :: t)))
    (hpre : (0 : UInt8) ∉ pre) (hf : (0 : UInt8) ∉ f) (hr : (0 : UInt8) ∉ r)
    (hspace : str.length + replaceLen < sizeMod) {Q : Option (List UInt8) → Prop} :
    Obeys Ok (makeRoom str pre.length f.length replaceLen) Q ↔
      if pre.length + replaceLen + r.length < str.length then
        Q (some (overwrite str (pre.length + replaceLen) (r ++ [0])))
      else Q none := by
  have hrest : (0 : UInt8) ∈ str.drop pre.length ∧ cstr (str.drop pre.length) = f ++ r := by
    rw [hstr, ← List.append_assoc f]
    exact cstr_drop_left pre t (by simp [hf, hr])
  have hwhole : (0 : UInt8) ∈ str.drop 0 ∧ cstr (str.drop 0) = pre ++ (f ++ r) := by
    rw [hstr, ← List.append_assoc f, ← List.append_assoc pre]
    exact cstr_drop_left [] t (by simp [hpre, hf, hr])
  have hsrc : (str.drop (pre.length + f.length)).take (r.length + 1) = r ++ [0] := by
    rw [hstr, ← List.drop_drop, List.drop_left, List.drop_left, List.take_length_add_append]
    rfl
  have hlen : str.length = pre.length + f.length + r.length + 1 + t.length := by
    rw [hstr]
    simp
    omega
  -- the two lengths do not wrap
  have htail : wrapSub (f ++ r).length f.length = r.length := by
    rw [List.length_append, wrapSub_of_le (by omega) (by omega)]
    omega
  have hsum : wrapAdd (pre ++ (f ++ r)).length replaceLen = pre.length + f.length + r.length + replaceLen := by
    simp only [List.length_append]
    rw [wrapAdd_of_lt (by omega)]
    omega
  have hnew : wrapSub (pre.length + f.length + r.length + replaceLen) f.length =
      pre.length + replaceLen + r.length := by
    rw [wrapSub_of_le (by omega) (by omega)]
    omega
  have hsub : f.length ≤ pre.length + f.length + r.length + replaceLen := by omega
  rw [makeRoom, obeys_bind, obeys_strlen (watches_ok _), and_iff_right hrest.1, hrest.2, obeys_bind, obeys_subSize,
    and_iff_right (ok_sub.2 (by simp)), htail, obeys_bind, obeys_strlen (watches_ok _), and_iff_right hwhole.1,
    hwhole.2, hsum, obeys_bind, obeys_subSize, and_iff_right (ok_sub.2 hsub), hnew, wrapAdd_of_lt (by omega)]
  by_cases hfits : pre.length + replaceLen + r.length < str.length
  · rw [if_pos hfits, if_neg (by omega), obeys_bind, obeys_memmove (watches_ok _) (by omega),
      and_iff_right (by omega), and_iff_right (by omega), hsrc, obeys_pure]
  · rw [if_neg hfits, if_pos (by omega), obeys_pure]

/-- The replacement is written where nothing was moved. -/
private theorem overwrite_same {v f : List UInt8} (hstr : str = pre ++ (f ++ (r ++ 0 :: t)))
    (hlen : v.length = f.length) :
    overwrite str pre.length v = (pre ++ v) ++ (r ++ 0 :: t) := by
  have hat := overwrite_append pre (f ++ (r ++ 0 :: t)) 0 v
  rw [Nat.add_zero, ← hstr] at hat
  rw [hat, overwrite, Nat.zero_add, hlen, List.drop_left, List.take_zero, List.nil_append, List.append_assoc]

/-- The string `r` was moved with its NUL, and `v` is written in front of it. -/
private theorem overwrite_moved {v rest : List UInt8} (hstr : str = pre ++ rest)
    (h : pre.length + v.length + r.length < str.length) :
    overwrite (overwrite str (pre.length + v.length) (r ++ [0])) pre.length v =
        (pre ++ v) ++ (r ++ 0 :: rest.drop (v ++ (r ++ [0])).length) ∧
      ((pre ++ v) ++ (r ++ 0 :: rest.drop (v ++ (r ++ [0])).length)).length = str.length := by
  have hat := overwrite_append pre rest 0 (v ++ (r ++ [0]))
  rw [Nat.add_zero, ← hstr] at hat
  constructor
  · rw [overwrite_overwrite (by omega), hat, overwrite, List.take_zero, List.nil_append, Nat.zero_add]
    simp only [List.append_assoc, List.singleton_append]
  · subst hstr
    simp at h ⊢
    omega

/-- The replacement at the end of `pre`, with `r` behind it. -/
private theorem obeys_copyReplacement {find replace : List UInt8} (hreplace : (0 : UInt8) ∈ replace)
    (hr : (0 : UInt8) ∉ r) (hroom : pre.length + (cstr replace).length ≤ str.length)
    (hstr : overwrite str pre.length (cstr replace) = (pre ++ cstr replace) ++ (r ++ 0 :: t))
    {Q : List UInt8 × Option Nat → Prop} :
    Obeys Ok (copyReplacement find replace (cstr replace).length str pre.length) Q ↔
      Q ((pre ++ cstr replace) ++ (r ++ 0 :: t),
        (firstOcc (cstr find) r).map ((pre ++ cstr replace).length + ·)) := by
  have hbytes : (replace.drop 0).take (cstr replace).length = cstr replace :=
    (List.prefix_iff_eq_take.1 (cstr_isPrefix replace)).symm
  have hin : 0 + (cstr replace).length ≤ replace.length := by
    have := (take_cstr_length_succ hreplace).2
    omega
  have hsearch := cstr_drop_left (pre ++ cstr replace) t hr
  rw [copyReplacement, obeys_bind, obeys_slice (watches_ok _), and_iff_right (Or.inr hin), hbytes, obeys_bind,
    obeys_store (watches_ok _), and_iff_right (Or.inr hroom), hstr, ← List.length_append, obeys_bind,
    obeys_strstr (watches_ok _), and_iff_right hsearch.1, hsearch.2, obeys_pure]

/-- One turn: the occurrence behind `pre` is replaced where the result fits, and the loop is left where it does not. -/
private theorem obeys_replaceTurn {find replace : List UInt8} (hreplace : (0 : UInt8) ∈ replace)
    (hstr : str = pre ++ (cstr find ++ (r ++ 0 :: t))) (hpre : (0 : UInt8) ∉ pre) (hr : (0 : UInt8) ∉ r)
    (hspace : str.length + replace.length ≤ sizeMod) :
    Obeys Ok (replaceTurn find replace (cstr find).length (cstr replace).length str pre.length) fun turn =>
      if pre.length + (cstr replace).length + r.length < str.length then
        ∃ t', turn = some ((pre ++ cstr replace) ++ (r ++ 0 :: t'),
            (firstOcc (cstr find) r).map ((pre ++ cstr replace).length + ·)) ∧
          ((pre ++ cstr replace) ++ (r ++ 0 :: t')).length = str.length
      else turn = none := by
  have hlen : str.length = pre.length + (cstr find).length + r.length + 1 + t.length := by
    rw [hstr]
    simp
    omega
  have hlong := (take_cstr_length_succ hreplace).2
  unfold replaceTurn
  by_cases hguard : pre.length + (cstr replace).length < str.length
  · rw [if_pos hguard, obeys_bind]
    by_cases heq : (cstr replace).length = (cstr find).length
    · rw [if_neg (by omega), obeys_pure]
      dsimp only
      rw [obeys_bind, obeys_copyReplacement hreplace hr (by omega) (overwrite_same hstr heq), obeys_pure,
        if_pos (by omega)]
      exact ⟨t, rfl, by simp; omega⟩
    · rw [if_pos heq, obeys_makeRoom hstr hpre (zero_notMem_cstr find) hr (by omega)]
      by_cases hfits : pre.length + (cstr replace).length + r.length < str.length
      · have hmoved : (overwrite str (pre.length + (cstr replace).length) (r ++ [0])).length = str.length :=
          length_overwrite (by simp; omega)
        obtain ⟨hafter, hsize⟩ := overwrite_moved hstr hfits
        rw [if_pos hfits]
        dsimp only
        rw [obeys_bind, obeys_copyReplacement hreplace hr (by omega) hafter, obeys_pure, if_pos hfits]
        exact ⟨_, rfl, hsize⟩
      · rw [if_neg hfits]
        dsimp only
        rw [obeys_pure, if_neg hfits]
  · rw [if_neg hguard, obeys_pure, if_neg (by omega)]

end

theorem toInt_succ (n : Nat) : toInt (toInt n + 1) = toInt ((n + 1 : Nat)) := by
  unfold toInt
  rw [Int.bmod_add_bmod, Int.natCast_succ]

/-- What is left of a buffer of `size` bytes that held `pre` and `s` behind it: `k` occurrences in `s` are replaced, and
if more are left, there is no room for one more. -/
structure Replaced (find replace pre s : List UInt8) (size k : Nat) (out : List UInt8) : Prop where
  le : k ≤ occurrences find s
  length_eq : out.length = size
  bytes : ∃ t, out = pre ++ (replaceFirst find replace k s ++ 0 :: t)
  full : k < occurrences find s → ¬ pre.length + (replaceFirst find replace (k + 1) s).length < size

/-- No occurrence is left. -/
private theorem replaced_of_none {find replace pre s t : List UInt8} (h : firstOcc find s = none) :
    Replaced find replace pre s (pre ++ (s ++ 0 :: t)).length 0 (pre ++ (s ++ 0 :: t)) where
  le := Nat.zero_le _
  length_eq := rfl
  bytes := ⟨t, rfl⟩
  full := by
    intro hlt
    rw [occurrences_of_none h] at hlt
    omega

/-- One occurrence replaced, and `k` behind it. -/
private theorem Replaced.cons {find replace pre s out : List UInt8} {j k size : Nat} (hne : find ≠ [])
    (hocc : firstOcc find s = some j)
    (h : Replaced find replace (pre ++ s.take j ++ replace) (s.drop (j + find.length)) size k out) :
    Replaced find replace pre s size (k + 1) out := by
  have hcount := occurrences_of_some hne hocc
  have hreplaced : ∀ k, replaceFirst find replace (k + 1) s =
      s.take j ++ replace ++ replaceFirst find replace k (s.drop (j + find.length)) := by
    intro k
    rw [replaceFirst, hocc]
  obtain ⟨t, ht⟩ := h.bytes
  refine ⟨by have := h.le; omega, h.length_eq, ⟨t, ?_⟩, ?_⟩
  · rw [ht, hreplaced]
    simp only [List.append_assoc]
  · intro hlt
    have hfull := h.full (by omega)
    rw [hreplaced]
    simp only [List.length_append] at hfull ⊢
    omega

/-- There is no room for the first occurrence. -/
private theorem replaced_of_full {find replace pre s t : List UInt8} {j : Nat} (hocc : firstOcc find s = some j)
    (hfull : ¬ (pre ++ s.take j).length + replace.length + (s.drop (j + find.length)).length <
      (pre ++ (s ++ 0 :: t)).length) :
    Replaced find replace pre s (pre ++ (s ++ 0 :: t)).length 0 (pre ++ (s ++ 0 :: t)) where
  le := Nat.zero_le _
  length_eq := rfl
  bytes := ⟨t, rfl⟩
  full := by
    intro _
    rw [replaceFirst, hocc]
    simp only [replaceFirst, List.length_append] at hfull ⊢
    omega

/-- The loop, from the first occurrence in `s` on. -/
private theorem obeys_replaceLoop {find replace : List UInt8} (hfind : cstr find ≠ [])
    (hreplace : (0 : UInt8) ∈ replace) (fuel : Nat) (pre s t : List UInt8) {n : Nat} (hpre : (0 : UInt8) ∉ pre)
    (hs : (0 : UInt8) ∉ s) (hspace : (pre ++ (s ++ 0 :: t)).length + replace.length ≤ sizeMod)
    (hfuel : occurrences (cstr find) s ≤ fuel) :
    Obeys Ok (replaceLoop find replace (cstr find).length (cstr replace).length fuel (pre ++ (s ++ 0 :: t))
        ((firstOcc (cstr find) s).map (pre.length + ·)) (toInt n)) fun r =>
      ∃ k out, r = some (toInt ((n + k : Nat)), out) ∧
        Replaced (cstr find) (cstr replace) pre s (pre ++ (s ++ 0 :: t)).length k out := by
  induction fuel generalizing pre s t n with
  | zero =>
    cases hocc : firstOcc (cstr find) s with
    | none =>
      rw [Option.map_none, replaceLoop, obeys_pure]
      exact ⟨0, _, rfl, replaced_of_none hocc⟩
    | some j =>
      rw [occurrences_of_some hfind hocc] at hfuel
      omega
  | succ fuel ih =>
    cases hocc : firstOcc (cstr find) s with
    | none =>
      rw [Option.map_none, replaceLoop, obeys_pure]
      exact ⟨0, _, rfl, replaced_of_none hocc⟩
    | some j =>
      have hj := firstOcc_length hocc
      have htake : (pre ++ s.take j).length = pre.length + j := by
        rw [List.length_append, List.length_take_of_le (by omega)]
      have hstr : pre ++ (s ++ 0 :: t) =
          (pre ++ s.take j) ++ (cstr find ++ (s.drop (j + (cstr find).length) ++ 0 :: t)) := by
        conv => lhs; rw [eq_of_firstOcc hocc]
        simp only [List.append_assoc]
      have hleft : (0 : UInt8) ∉ pre ++ s.take j := by
        rw [List.mem_append]
        rintro (h | h)
        · exact hpre h
        · exact hs (List.mem_of_mem_take h)
      have hright : (0 : UInt8) ∉ s.drop (j + (cstr find).length) := fun h => hs (List.mem_of_mem_drop h)
      have hafter : (0 : UInt8) ∉ pre ++ s.take j ++ cstr replace := by
        rw [List.mem_append]
        rintro (h | h)
        · exact hleft h
        · exact zero_notMem_cstr replace h
      have hturn := obeys_replaceTurn hreplace hstr hleft hright hspace
      rw [htake] at hturn
      rw [Option.map_some, replaceLoop, obeys_bind]
      refine hturn.mono fun turn hturn => ?_
      split at hturn
      · rename_i hfits
        obtain ⟨t', rfl, hlen⟩ := hturn
        dsimp only
        have hnext := ih (pre ++ s.take j ++ cstr replace) (s.drop (j + (cstr find).length)) t' (n := n + 1) hafter
          hright (by rw [hlen]; exact hspace) (by rw [occurrences_of_some hfind hocc] at hfuel; omega)
        rw [toInt_succ]
        refine hnext.mono ?_
        rintro r ⟨k, out, rfl, hrep⟩
        rw [hlen] at hrep
        exact ⟨k + 1, out, by rw [Nat.add_assoc n 1 k, Nat.add_comm 1 k], hrep.cons hfind hocc⟩
      · rename_i hfits
        subst hturn
        dsimp only
        rw [obeys_pure]
        exact ⟨0, _, rfl, replaced_of_full hocc (htake ▸ hfits)⟩

/-- The contract of `string_replace_all`. -/
theorem obeys_stringReplaceAll {str find replace : List UInt8} (hstr : (0 : UInt8) ∈ str) (hfind : (0 : UInt8) ∈ find)
    (hreplace : (0 : UInt8) ∈ replace) (hne : cstr find ≠ []) (hspace : str.length + replace.length ≤ sizeMod)
    {fuel : Nat} (hfuel : (cstr str).length ≤ fuel) :
    Obeys Ok (stringReplaceAll fuel (some str) (some find) (some replace)) fun r =>
      ∃ k : Nat, ∃ out, r = some (toInt k, out) ∧
        Replaced (cstr find) (cstr replace) [] (cstr str) str.length k out := by
  have hpos := List.length_pos_iff.2 hne
  have hle : occurrences (cstr find) (cstr str) ≤ (cstr str).length := occurrences_le_length hne
  have hlen : str.length ≠ 0 := by
    have := (take_cstr_length_succ hstr).2
    omega
  obtain ⟨t, ht⟩ := exists_eq_cstr_append hstr
  have hloop := obeys_replaceLoop hne hreplace fuel [] (cstr str) t (n := 0) (by simp)
    (zero_notMem_cstr str) (by rwa [List.nil_append, ← ht]) (by omega)
  have hmap : ∀ o : Option Nat, o.map (([] : List UInt8).length + ·) = o.map (0 + ·) := fun _ => rfl
  have hzero : toInt (0 : Nat) = 0 := rfl
  rw [List.nil_append, ← ht, hzero, hmap] at hloop
  simp only [Nat.zero_add] at hloop
  simp only [stringReplaceAll, obeys_bind, obeys_ite, hlen, obeys_strlen (watches_ok _), obeys_strstr (watches_ok _),
    List.drop_zero, hstr, hfind, hreplace, true_and, Nat.zero_add, not_false_eq_true, false_imp_iff, true_imp_iff,
    Nat.ne_of_gt hpos]
  exact hloop

private theorem obeys_countLoop {find : List UInt8} (hne : cstr find ≠ []) (fuel : Nat) (pre s t : List UInt8) {n : Nat}
    (hs : (0 : UInt8) ∉ s) (hfuel : occurrences (cstr find) s < fuel) :
    Obeys Ok (countLoop find (cstr find).length (pre ++ (s ++ 0 :: t)) fuel pre.length (toInt n)) fun r =>
      r = toInt ((n + occurrences (cstr find) s : Nat)) := by
  induction fuel generalizing pre s n with
  | zero => omega
  | succ fuel ih =>
    have hsearch := cstr_drop_left pre t hs
    rw [countLoop, obeys_bind, obeys_strstr (watches_ok _), and_iff_right hsearch.1, hsearch.2]
    cases hocc : firstOcc (cstr find) s with
    | none =>
      rw [Option.map_none]
      dsimp only
      rw [obeys_pure, occurrences_of_none hocc, Nat.add_zero]
    | some j =>
      have hcount := occurrences_of_some hne hocc
      have hj := firstOcc_length hocc
      have hstr : pre ++ (s ++ 0 :: t) =
          (pre ++ s.take (j + (cstr find).length)) ++ (s.drop (j + (cstr find).length) ++ 0 :: t) := by
        conv => lhs; rw [← List.take_append_drop (j + (cstr find).length) s]
        simp only [List.append_assoc]
      have hpos : (pre ++ s.take (j + (cstr find).length)).length = pre.length + j + (cstr find).length := by
        rw [List.length_append, List.length_take_of_le (by omega), Nat.add_assoc]
      have hrest := ih (pre ++ s.take (j + (cstr find).length)) (s.drop (j + (cstr find).length)) (n := n + 1)
        (fun h => hs (List.mem_of_mem_drop h)) (by omega)
      rw [← hstr, hpos] at hrest
      rw [Option.map_some]
      dsimp only
      rw [toInt_succ, hcount, Nat.add_comm (occurrences _ _) 1, ← Nat.add_assoc]
      exact hrest

/-- The contract of `string_count_occurrences`. -/
theorem obeys_stringCountOccurrences {str find : List UInt8} (hstr : (0 : UInt8) ∈ str) (hfind : (0 : UInt8) ∈ find)
    (hne : cstr find ≠ []) :
    Obeys Ok (stringCountOccurrences (some str) (some find)) fun r =>
      r = toInt (occurrences (cstr find) (cstr str) : Nat) := by
  have hpos := List.length_pos_iff.2 hne
  have hle : occurrences (cstr find) (cstr str) ≤ (cstr str).length := occurrences_le_length hne
  have hlt := (take_cstr_length_succ hstr).2
  obtain ⟨t, ht⟩ := exists_eq_cstr_append hstr
  have hloop := obeys_countLoop hne str.length [] (cstr str) t (n := 0) (zero_notMem_cstr str) (by omega)
  rw [List.nil_append, ← ht, Nat.zero_add] at hloop
  rw [stringCountOccurrences, obeys_bind, obeys_strlen (watches_ok _), List.drop_zero, and_iff_right hfind,
    if_neg (by omega)]
  exact hloop

/-! ### Results -/

/-- `out` is `str` with its first `k` occurrences replaced, and no larger number of them fits. -/
structure ReplacesFirst (str find replace : List UInt8) (k : Nat) (out : List UInt8) : Prop where
  length_eq : out.length = str.length
  terminated : (0 : UInt8) ∈ out
  fits : (cstr out).length < str.length
  replaced : cstr out = replaceFirst (cstr find) (cstr replace) k (cstr str)
  le : k ≤ occurrences (cstr find) (cstr str)
  greatest : ∀ m, m ≤ occurrences (cstr find) (cstr str) →
    (replaceFirst (cstr find) (cstr replace) m (cstr str)).length < str.length → m ≤ k

theorem Replaced.replacesFirst {str find replace out : List UInt8} {k : Nat} (hne : cstr find ≠ [])
    (h : Replaced (cstr find) (cstr replace) [] (cstr str) str.length k out) :
    ReplacesFirst str find replace k out := by
  obtain ⟨t, ht⟩ := h.bytes
  have hzero : (0 : UInt8) ∉ replaceFirst (cstr find) (cstr replace) k (cstr str) :=
    notMem_replaceFirst (zero_notMem_cstr str) (zero_notMem_cstr replace) k
  have hcstr : cstr out = replaceFirst (cstr find) (cstr replace) k (cstr str) := by
    rw [ht, List.nil_append, cstr_append_zero, cstr_of_notMem hzero]
  have hmem : (0 : UInt8) ∈ out := by simp [ht]
  have hfits : (cstr out).length < str.length := h.length_eq ▸ (take_cstr_length_succ hmem).2
  refine ⟨h.length_eq, hmem, hfits, hcstr, h.le, ?_⟩
  intro m hm hlt
  by_contra hkm
  have hfull := h.full (by omega)
  rw [List.length_nil, Nat.zero_add] at hfull
  exact not_fits_of_succ hne (by omega) (hcstr ▸ hfits) hfull hm (by omega) hlt

/-- When everything fits, everything is replaced. -/
theorem ReplacesFirst.eq_occurrences {str find replace out : List UInt8} {k : Nat}
    (h : ReplacesFirst str find replace k out)
    (hfits : (replaceFirst (cstr find) (cstr replace) (occurrences (cstr find) (cstr str)) (cstr str)).length <
      str.length) : k = occurrences (cstr find) (cstr str) :=
  Nat.le_antisymm h.le (h.greatest _ (Nat.le_refl _) hfits)

theorem toInt_of_lt {n : Nat} (h : n < 2 ^ 31) : toInt n = n := by
  unfold toInt
  apply Int.bmod_eq_of_le
  · omega
  · omega

/-- `string_replace_all` on a NUL-terminated string: it ends, stays inside the array, and replaces as many of the
occurrences as fit; the counters are right as long as an `int` holds them. -/
theorem stringReplaceAll_replacesFirst (str find replace : List UInt8) (hstr : (0 : UInt8) ∈ str)
    (hfind : (0 : UInt8) ∈ find) (hreplace : (0 : UInt8) ∈ replace) (hne : cstr find ≠ [])
    (hspace : str.length + replace.length ≤ sizeMod) (fuel : Nat) (hfuel : (cstr str).length ≤ fuel) :
    (stringReplaceAll fuel (some str) (some find) (some replace)).All Ok ∧
      (stringCountOccurrences (some str) (some find)).All Ok ∧
      ∃ k : Nat, ∃ result out count,
        (stringReplaceAll fuel (some str) (some find) (some replace)).val = some (some (result, out)) ∧
          (stringCountOccurrences (some str) (some find)).val = some count ∧
          ReplacesFirst str find replace k out ∧
          (k < 2 ^ 31 → result = k) ∧
          (occurrences (cstr find) (cstr str) < 2 ^ 31 → count = occurrences (cstr find) (cstr str) ∧
            ((replaceFirst (cstr find) (cstr replace) (occurrences (cstr find) (cstr str)) (cstr str)).length <
              str.length → result = count)) := by
  obtain ⟨hall, r, hval, k, out, rfl, hrep⟩ :=
    (obeys_iff_of_imp inRange_of_ok).1 (obeys_stringReplaceAll hstr hfind hreplace hne hspace hfuel)
  obtain ⟨hall', count, hval', hcount⟩ :=
    (obeys_iff_of_imp inRange_of_ok).1 (obeys_stringCountOccurrences hstr hfind hne)
  rw [hcount] at hval'
  have hfirst := hrep.replacesFirst hne
  refine ⟨hall, hall', k, toInt k, out, toInt (occurrences (cstr find) (cstr str) : Nat), hval, hval', hfirst,
    fun hlt => toInt_of_lt hlt, ?_⟩
  intro hlt
  refine ⟨toInt_of_lt hlt, ?_⟩
  intro hfits
  rw [hfirst.eq_occurrences hfits]

/-- The replacement contains the text, and only the first one fits. -/
theorem stringReplaceAll_replacesFirst_grows :
    (stringReplaceAll 5 (some (ascii "aXaXa" ++ [0, 0])) (some (ascii "X" ++ [0])) (some (ascii "XX" ++ [0]))).All Ok ∧
      (stringReplaceAll 5 (some (ascii "aXaXa" ++ [0, 0])) (some (ascii "X" ++ [0])) (some (ascii "XX" ++ [0]))).val =
        some (some (1, ascii "aXXaXa" ++ [0])) :=
  ⟨(stringReplaceAll_replacesFirst (ascii "aXaXa" ++ [0, 0]) (ascii "X" ++ [0]) (ascii "XX" ++ [0]) (by decide +kernel)
    (by decide +kernel) (by decide +kernel) (by decide +kernel) (by decide +kernel) 5 (by decide +kernel)).1,
    by decide +kernel⟩

private theorem occurrences_replicate (c : UInt8) (n : Nat) : occurrences [c] (List.replicate n c) = n := by
  induction n with
  | zero => rfl
  | succ n ih =>
    have hocc : firstOcc [c] (List.replicate (n + 1) c) = some 0 := by simp [List.replicate_succ, firstOcc]
    rw [occurrences_of_some (List.cons_ne_nil c []) hocc, List.replicate_succ]
    exact congrArg (· + 1) ih

private theorem cstr_replicate (n : Nat) :
    cstr (List.replicate n (97 : UInt8) ++ [0]) = List.replicate n 97 := by
  have hz : (0 : UInt8) ∉ List.replicate n 97 := by
    intro h
    exact absurd (List.eq_of_mem_replicate h) (by decide)
  rw [cstr_append_zero, cstr_of_notMem hz]

/-- A string of `n` letters, each of which is replaced. -/
private theorem replacesFirst_replicate {n k : Nat} {out : List UInt8}
    (h : ReplacesFirst (List.replicate n 97 ++ [0]) [97, 0] [98, 0] k out) : k = n := by
  have hstr := cstr_replicate n
  have hocc := occurrences_replicate 97 n
  have hlen := length_replaceFirst [98] (List.cons_ne_nil _ _) (Nat.le_of_eq hocc.symm)
  rw [List.length_replicate] at hlen
  have hall : k = occurrences (cstr [97, 0]) (cstr (List.replicate n 97 ++ [0])) := by
    apply h.eq_occurrences
    rw [hstr, show cstr [97, 0] = [97] from rfl, show cstr [98, 0] = [98] from rfl, hocc, List.length_append,
      List.length_replicate]
    simp at hlen ⊢
    omega
  rw [hall, hstr]
  exact hocc

/-- What is returned for it. -/
private theorem returned_replicate {n : Nat} {result : Int} {out : List UInt8} (hn : n ≤ 2 ^ 32)
    (hval : (stringReplaceAll n (some (List.replicate n 97 ++ [0])) (some [97, 0]) (some [98, 0])).val =
      some (some (result, out))) : result = toInt n := by
  have hspace : (List.replicate n (97 : UInt8) ++ [0]).length + [(98 : UInt8), 0].length ≤ sizeMod := by
    simp [sizeMod]
    omega
  have hmem : (0 : UInt8) ∈ List.replicate n (97 : UInt8) ++ [0] := by simp
  have hfind : (0 : UInt8) ∈ [(97 : UInt8), 0] := by decide
  have hreplace : (0 : UInt8) ∈ [(98 : UInt8), 0] := by decide
  have hturns : (cstr (List.replicate n (97 : UInt8) ++ [0])).length ≤ n := by
    rw [cstr_replicate, List.length_replicate]
  obtain ⟨-, r, hval', k, out', rfl, hrep⟩ := (obeys_iff_of_imp inRange_of_ok).1
    (obeys_stringReplaceAll hmem hfind hreplace (by decide) hspace hturns)
  have hk := replacesFirst_replicate (hrep.replacesFirst (by decide))
  rw [hval] at hval'
  have hpair := Option.some.inj (Option.some.inj hval')
  rw [(Prod.mk.inj hpair).1, hk]

/-- In a string of `2 ^ 31` letters every letter is replaced, and no `int` is the number of them. -/
theorem stringReplaceAll_counter_overflows :
    ¬ ∃ k : Nat, ∃ out,
      (stringReplaceAll (2 ^ 31) (some (List.replicate (2 ^ 31) 97 ++ [0])) (some [97, 0]) (some [98, 0])).val =
          some (some ((k : Int), out)) ∧
        ReplacesFirst (List.replicate (2 ^ 31) 97 ++ [0]) [97, 0] [98, 0] k out := by
  rintro ⟨k, out, hval, hfirst⟩
  have hk := replacesFirst_replicate hfirst
  have hresult := returned_replicate (n := 2 ^ 31) (by decide) hval
  have hneg : toInt (2 ^ 31 : Nat) = -2 ^ 31 := by decide
  omega

end GoodbyeDpi
