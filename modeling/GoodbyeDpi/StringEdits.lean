import GoodbyeDpi.CSem.Text
import GoodbyeDpi.StringUtils
import Mathlib.Data.List.DropRight

/-!
# Strings changed in place (`src/utils/string_utils.c`)

The functions that change the letter case of a string, and the functions that trim it, on a string that stands in a
larger buffer with a NUL behind it.  They stay inside the string.  Whatever was done to the case of a string before,
`string_to_lower` gives the same; and `trim` points at the string without the white space at its two ends, which a
second `trim` leaves as it is.
-/

namespace GoodbyeDpi

open CSem Traced Access

/-! ### Letter case -/

/-- `string_to_lower(b + off)`. -/
def stringToLower (b : List UInt8) (off : Nat) : CRun Buf (List UInt8) :=
  mapString .payload toLower (b.length - off) off b

/-- The choice of the case by an answer of `rand`. -/
def randomByte (rand : Nat) (c : UInt8) : UInt8 := if rand % 2 = 0 then toLower c else toUpper c

/-- The loop of `mix_case_random` at index `i`, with `n` bytes to go; `rands i` is the answer of `rand` there. -/
def mixCaseRandomFrom (rands : Nat → Nat) (off : Nat) : Nat → Nat → List UInt8 → CRun Buf (List UInt8)
  | 0, _, b => pure b
  | n + 1, i, b => do
    let c ← load .payload b (off + i)
    if c = 0 then pure b
    else
      let b ← store .payload b (off + i) [randomByte (rands i) c]
      mixCaseRandomFrom rands off n (i + 1) b

/-- `mix_case_random(b + off, len)`. -/
def mixCaseRandom (rands : Nat → Nat) (b : List UInt8) (off len : Nat) : CRun Buf (List UInt8) :=
  mixCaseRandomFrom rands off len 0 b

inductive CaseOp where
  | lower
  | upper
  | mix (len : Nat)
  | mixRandom (len : Nat) (rands : Nat → Nat)

/-- One change of the string at `b + off`. -/
def caseOp (b : List UInt8) (off : Nat) : CaseOp → CRun Buf (List UInt8)
  | .lower => stringToLower b off
  | .upper => stringToUpper b off
  | .mix len => mixCase b off len
  | .mixRandom len rands => mixCaseRandom rands b off len

/-- A sequence of them. -/
def caseSession (off : Nat) (b : List UInt8) : List CaseOp → CRun Buf (List UInt8)
  | [] => pure b
  | op :: ops => do
    let b ← caseOp b off op
    caseSession off b ops

/-- The string after a loop that changes the bytes from index `i` on, `n` of them at most. -/
def editBytes (f : Nat → UInt8 → UInt8) : Nat → Nat → List UInt8 → List UInt8
  | 0, _, s => s
  | _ + 1, _, [] => []
  | n + 1, i, c :: s => f i c :: editBytes f n (i + 1) s

variable {P : Access Buf → Prop} {pre s tail : List UInt8}

private theorem toLower_randomByte (rand : Nat) (c : UInt8) : toLower (randomByte rand c) = toLower c := by
  unfold randomByte
  split
  · exact toLower_toLower c
  · exact toLower_toUpper c

private theorem map_toLower_editBytes {f : Nat → UInt8 → UInt8} (hf : ∀ i c, toLower (f i c) = toLower c) (n i : Nat)
    (s : List UInt8) : (editBytes f n i s).map toLower = s.map toLower := by
  induction s generalizing n i with
  | nil => cases n <;> rfl
  | cons c s ih =>
    cases n with
    | zero => rfl
    | succ n => rw [editBytes, List.map_cons, List.map_cons, hf, ih]

/-- The loops of `mix_case` and `mix_case_random`. -/
theorem obeys_editBytes (hw : Watches P .payload) {f : Nat → UInt8 → UInt8}
    {loop : Nat → Nat → List UInt8 → CRun Buf (List UInt8)} {off : Nat} (hzero : ∀ i b, loop 0 i b = pure b)
    (hsucc : ∀ n i b, loop (n + 1) i b = (do
      let c ← load .payload b (off + i)
      if c = 0 then pure b
      else
        let b ← store .payload b (off + i) [f i c]
        loop n (i + 1) b))
    (n i : Nat) (pre s tail : List UInt8) (hoff : off + i = pre.length) (hz : (0 : UInt8) ∉ s)
    {Q : List UInt8 → Prop} :
    Obeys P (loop n i (pre ++ s ++ 0 :: tail)) Q ↔ Q (pre ++ editBytes f n i s ++ 0 :: tail) := by
  induction n generalizing i pre s with
  | zero => rw [hzero, obeys_pure, editBytes]
  | succ n ih =>
    rw [hsucc, obeys_bind, obeys_load hw, hoff]
    cases s with
    | nil =>
      have hlt : pre.length < (pre ++ [] ++ 0 :: tail).length := by simp
      have hget : (pre ++ [] ++ 0 :: tail)[pre.length] = 0 := by simp
      simp only [hlt, exists_true_left, hget, ↓reduceIte, obeys_pure, editBytes]
    | cons c s =>
      simp only [List.mem_cons, not_or] at hz
      have hlt : pre.length < (pre ++ (c :: s) ++ 0 :: tail).length := by simp
      have hget : (pre ++ (c :: s) ++ 0 :: tail)[pre.length] = c := by simp
      have hover : overwrite (pre ++ (c :: s) ++ 0 :: tail) pre.length [f i c] =
          (pre ++ [f i c]) ++ s ++ 0 :: tail := by simp [overwrite]
      have hnext := ih (i + 1) (pre ++ [f i c]) s (by simp; omega) hz.2
      simp only [hlt, exists_true_left, hget, Ne.symm hz.1, ↓reduceIte, obeys_bind, obeys_store hw, hover, hnext]
      simp [editBytes]

theorem obeys_stringToLower (hw : Watches P .payload) (hz : (0 : UInt8) ∉ s) {Q : List UInt8 → Prop} :
    Obeys P (stringToLower (pre ++ s ++ 0 :: tail) pre.length) Q ↔ Q (pre ++ s.map toLower ++ 0 :: tail) :=
  obeys_mapString hw toLower pre s tail _ (by simp) hz

/-- One change keeps the string up to letter case, and everything around it. -/
theorem obeys_caseOp (hw : Watches P .payload) (pre s tail : List UInt8) (hz : (0 : UInt8) ∉ s) (op : CaseOp) :
    ∃ s' : List UInt8, s'.map toLower = s.map toLower ∧ ∀ Q : List UInt8 → Prop,
      Obeys P (caseOp (pre ++ s ++ 0 :: tail) pre.length op) Q ↔ Q (pre ++ s' ++ 0 :: tail) := by
  cases op with
  | lower =>
    refine ⟨s.map toLower, ?_, fun Q => obeys_stringToLower hw hz⟩
    rw [List.map_map]
    exact List.map_congr_left fun c _ => toLower_toLower c
  | upper =>
    refine ⟨s.map toUpper, ?_, fun Q => obeys_stringToUpper hw hz⟩
    rw [List.map_map]
    exact List.map_congr_left fun c _ => toLower_toUpper c
  | mix len =>
    refine ⟨editBytes mixByte len 0 s, map_toLower_editBytes toLower_mixByte len 0 s, fun Q => ?_⟩
    exact obeys_editBytes hw (fun _ _ => rfl) (fun _ _ _ => rfl) len 0 pre s tail rfl hz
  | mixRandom len rands =>
    refine ⟨editBytes (fun i => randomByte (rands i)) len 0 s,
      map_toLower_editBytes (fun i => toLower_randomByte (rands i)) len 0 s, fun Q => ?_⟩
    exact obeys_editBytes hw (fun _ _ => rfl) (fun _ _ _ => rfl) len 0 pre s tail rfl hz

theorem obeys_caseSession (hw : Watches P .payload) (pre s tail : List UInt8) (hz : (0 : UInt8) ∉ s)
    (ops : List CaseOp) :
    ∃ s' : List UInt8, s'.map toLower = s.map toLower ∧ ∀ Q : List UInt8 → Prop,
      Obeys P (caseSession pre.length (pre ++ s ++ 0 :: tail) ops) Q ↔ Q (pre ++ s' ++ 0 :: tail) := by
  induction ops generalizing s with
  | nil => exact ⟨s, rfl, fun Q => obeys_pure⟩
  | cons op ops ih =>
    obtain ⟨s₁, hs₁, hop⟩ := obeys_caseOp hw pre s tail hz op
    obtain ⟨s₂, hs₂, hrun⟩ := ih s₁ ((not_congr (zero_mem_congr hs₁)).2 hz)
    refine ⟨s₂, hs₂.trans hs₁, fun Q => ?_⟩
    rw [caseSession, obeys_bind, hop, hrun]

/-- Changes of the case, and `string_to_lower` behind them. -/
def lowerAfter (b : List UInt8) (off : Nat) (ops : List CaseOp) : CRun Buf (List UInt8) := do
  let b ← caseSession off b ops
  stringToLower b off

/-- Changes of the case keep the length of the string and all that is around it; `string_to_lower` gives after them
what it gives without them. -/
theorem lower_after_case_changes (pre s tail : List UInt8) (ops : List CaseOp) (hz : (0 : UInt8) ∉ s) :
    (∃ s' : List UInt8, s'.length = s.length ∧
      (caseSession pre.length (pre ++ s ++ 0 :: tail) ops).val = some (pre ++ s' ++ 0 :: tail)) ∧
      (lowerAfter (pre ++ s ++ 0 :: tail) pre.length ops).All Ok ∧
      (lowerAfter (pre ++ s ++ 0 :: tail) pre.length ops).val = some (pre ++ s.map toLower ++ 0 :: tail) := by
  have hw := watches_ok Buf.payload
  obtain ⟨s', hs', hrun⟩ := obeys_caseSession hw pre s tail hz ops
  have hlen : s'.length = s.length := by simpa using congrArg List.length hs'
  have h : Obeys Ok (lowerAfter (pre ++ s ++ 0 :: tail) pre.length ops) fun b =>
      b = pre ++ s.map toLower ++ 0 :: tail := by
    rw [lowerAfter, obeys_bind, hrun, obeys_stringToLower hw ((not_congr (zero_mem_congr hs')).2 hz), hs']
  exact ⟨⟨s', hlen, val_of_obeys_eq inRange_of_ok ((hrun _).2 rfl)⟩, h.1, val_of_obeys_eq inRange_of_ok h⟩

theorem lower_after_case_changes_host :
    (∃ s' : List UInt8, s'.length = (ascii "Host").length ∧
      (caseSession 2 (ascii "a:Host" ++ 0 :: [7]) [.mixRandom 3 fun i => i, .upper]).val =
        some (ascii "a:" ++ s' ++ 0 :: [7])) ∧
      (lowerAfter (ascii "a:Host" ++ 0 :: [7]) 2 [.mixRandom 3 fun i => i, .upper]).All Ok ∧
      (lowerAfter (ascii "a:Host" ++ 0 :: [7]) 2 [.mixRandom 3 fun i => i, .upper]).val =
        some (ascii "a:" ++ (ascii "Host").map toLower ++ 0 :: [7]) :=
  lower_after_case_changes (ascii "a:") (ascii "Host") [7] [.mixRandom 3 fun i => i, .upper] (by decide)

/-! ### White space -/

/-- `trim_left(b + off)`. -/
def trimLeft (b : List UInt8) (off : Nat) : CRun Buf Nat := scanFrom .payload (fun c => !isSpace c) b off

/-- The loop of `trim_right` on the string at `off`, with `n` bytes between its start and `end`. -/
def trimRightFrom (off : Nat) : Nat → List UInt8 → CRun Buf (List UInt8)
  -- `end` is before the string
  | 0, b => pure b
  | n + 1, b => do
    let c ← load .payload b (off + n)
    if isSpace c then
      let b ← store .payload b (off + n) [0]
      trimRightFrom off n b
    else pure b

/-- `trim_right(b + off)`. -/
def trimRight (b : List UInt8) (off : Nat) : CRun Buf (List UInt8) := do
  let n ← strlen .payload b off
  trimRightFrom off n b

/-- `trim(b + off)`: the pointer that is returned, and the buffer. -/
def trim (b : List UInt8) (off : Nat) : CRun Buf (Nat × List UInt8) := do
  let b ← trimRight b off
  let p ← trimLeft b off
  pure (p, b)

/-- The loop of `is_whitespace`; `fuel` is what is left of the buffer. -/
def isWhitespaceFrom (b : List UInt8) : Nat → Nat → CRun Buf Bool
  | 0, i => do
    let _ ← load .payload b i
    pure true
  | fuel + 1, i => do
    let c ← load .payload b i
    if c = 0 then pure true
    else if isSpace c then isWhitespaceFrom b fuel (i + 1)
    else pure false

/-- `is_whitespace(b + off)`. -/
def isWhitespace (b : List UInt8) (off : Nat) : CRun Buf Bool := isWhitespaceFrom b (b.length - off) off

/-- `s` is `t` with the white space `l` before it and `r` behind it; a string that is all white space is in `r`. -/
structure Trims (s l t r : List UInt8) : Prop where
  parts : s = l ++ t ++ r
  left : ∀ c ∈ l, isSpace c
  right : ∀ c ∈ r, isSpace c
  first : ∀ h : t ≠ [], ¬ isSpace (t.head h)
  last : ∀ h : t ≠ [], ¬ isSpace (t.getLast h)
  empty : t = [] → l = []

namespace Trims

variable {l t r : List UInt8}

private theorem exists_of (s : List UInt8) : ∃ l t r, Trims s l t r := by
  let x := s.rdropWhile isSpace
  have hx : x.takeWhile isSpace ++ x.dropWhile isSpace = x := List.takeWhile_append_dropWhile
  have hlast : ∀ h : x ≠ [], ¬ isSpace (x.getLast h) := List.rdropWhile_last_not isSpace s
  refine ⟨x.takeWhile isSpace, x.dropWhile isSpace, s.rtakeWhile isSpace, ?_, ?_, ?_, ?_, ?_, ?_⟩
  · rw [hx, List.rdropWhile_append_rtakeWhile]
  · exact fun c hc => List.mem_takeWhile_imp hc
  · exact fun c hc => List.mem_rtakeWhile_imp hc
  · intro h
    simpa using List.head_dropWhile_not isSpace h
  · intro h
    have hne : x ≠ [] := fun hnil => h (by rw [hnil, List.dropWhile_nil])
    have hget := List.getLast_append_of_ne_nil (l := x.takeWhile isSpace) (by rwa [hx]) h
    rw [← hget, List.getLast_congr _ hne hx]
    exact hlast hne
  · intro h
    have hall : ∀ c ∈ x, isSpace c := List.dropWhile_eq_nil_iff.1 h
    have hnil : x = [] := by
      by_contra hne
      exact hlast hne (hall _ (List.getLast_mem hne))
    rw [hnil, List.takeWhile_nil]

/-- Nothing is left to be trimmed. -/
theorem again (h : Trims s l t r) : Trims t [] t [] where
  parts := by simp
  left := by simp
  right := by simp
  first := h.first
  last := h.last
  empty := fun _ => rfl

private theorem eq_nil_iff (h : Trims s l t r) : t = [] ↔ ∀ c ∈ s, isSpace c := by
  constructor
  · intro ht c hc
    rw [h.parts, ht, h.empty ht] at hc
    exact h.right c (by simpa using hc)
  · intro hs
    by_contra ht
    exact h.first ht (hs _ (by simp [h.parts]))

/-- `trim_right` keeps the string up to its last byte that is no white space. -/
private theorem last_append (h : Trims s l t r) (hne : l ++ t ≠ []) : ¬ isSpace ((l ++ t).getLast hne) := by
  have ht : t ≠ [] := fun ht => hne (by rw [ht, h.empty ht, List.append_nil])
  rw [List.getLast_append_of_ne_nil _ ht]
  exact h.last ht

/-- `trim_left` goes over the white space before the string. -/
private theorem takeWhile_append (h : Trims s l t r) (rest : List UInt8) :
    (l ++ (t ++ 0 :: rest)).takeWhile isSpace = l := by
  rw [List.takeWhile_append_of_pos h.left]
  cases t with
  | nil => rw [List.nil_append, List.takeWhile_cons_of_neg (by decide), List.append_nil]
  | cons c t =>
    have hc : ¬ isSpace c := h.first (List.cons_ne_nil c t)
    rw [List.cons_append, List.takeWhile_cons_of_neg hc, List.append_nil]

end Trims

/-- The bytes from the end on that are white space become zeros. -/
private theorem obeys_trimRightFrom (hw : Watches P .payload) {x r : List UInt8}
    (hx : ∀ h : x ≠ [], ¬ isSpace (x.getLast h)) (hr : ∀ c ∈ r, isSpace c) {Q : List UInt8 → Prop} :
    Obeys P (trimRightFrom pre.length (x ++ r).length (pre ++ (x ++ (r ++ tail)))) Q ↔
      Q (pre ++ (x ++ (List.replicate r.length 0 ++ tail))) := by
  induction r using List.reverseRecOn generalizing tail with
  | nil =>
    induction x using List.reverseRecOn with
    | nil => simp [trimRightFrom]
    | append_singleton x c _ =>
      have hlt : pre.length + x.length < (pre ++ ((x ++ [c]) ++ ([] ++ tail))).length := by simp
      have hget : (pre ++ ((x ++ [c]) ++ ([] ++ tail)))[pre.length + x.length] = c := by simp
      have hc : ¬ isSpace c := by simpa using hx (by simp)
      rw [List.append_nil, List.length_append, List.length_singleton, trimRightFrom, obeys_bind, obeys_load hw]
      simp only [hlt, exists_true_left, hget, hc, Bool.false_eq_true, ↓reduceIte, obeys_pure, List.length_nil,
        List.replicate_zero]
  | append_singleton r c ih =>
    have hbuf : pre ++ (x ++ ((r ++ [c]) ++ tail)) = (pre ++ x ++ r) ++ c :: tail := by simp
    have hpos : pre.length + (x ++ r).length = (pre ++ x ++ r).length := by simp
    have hlen : (x ++ (r ++ [c])).length = (x ++ r).length + 1 := by simp [Nat.add_assoc]
    have hover : overwrite ((pre ++ x ++ r) ++ c :: tail) (pre ++ x ++ r).length [0] =
        pre ++ (x ++ (r ++ 0 :: tail)) := by
      have h := overwrite_append (pre ++ x ++ r) (c :: tail) 0 [0]
      rw [Nat.add_zero] at h
      rw [h]
      simp [overwrite]
    have hc : isSpace c := hr c (by simp)
    have hlt : (pre ++ x ++ r).length < ((pre ++ x ++ r) ++ c :: tail).length := by simp
    have hget : ((pre ++ x ++ r) ++ c :: tail)[(pre ++ x ++ r).length] = c := by simp
    rw [hlen, trimRightFrom, hbuf, hpos, obeys_bind, obeys_load hw]
    simp only [hlt, exists_true_left, hget, hc, ↓reduceIte, obeys_bind, obeys_store hw, hover]
    rw [ih fun d hd => hr d (by simp [hd])]
    have hroom : (pre ++ x ++ r).length + [(0 : UInt8)].length ≤ ((pre ++ x ++ r) ++ c :: tail).length := by
      simp only [List.length_append, List.length_cons, List.length_nil]
      omega
    rw [and_iff_right (Or.inr hroom), List.length_append, List.length_singleton, List.replicate_succ',
      List.append_assoc, List.singleton_append]

/-- The NUL behind a string may stand behind any zeros. -/
private theorem replicate_append_zero (k : Nat) (tail : List UInt8) :
    List.replicate k 0 ++ 0 :: tail = 0 :: (List.replicate k 0 ++ tail) := by
  rw [← List.cons_append, ← List.replicate_succ, List.replicate_succ', List.append_assoc, List.singleton_append]

/-- `trim_right` keeps the string up to its last byte that is no white space. -/
theorem obeys_trimRight (hw : Watches P .payload) {l t r : List UInt8} (h : Trims s l t r) (hz : (0 : UInt8) ∉ s)
    {Q : List UInt8 → Prop} :
    Obeys P (trimRight (pre ++ (s ++ 0 :: tail)) pre.length) Q ↔
      Q (pre ++ (l ++ (t ++ 0 :: (List.replicate r.length 0 ++ tail)))) := by
  have hcstr : cstr (s ++ 0 :: tail) = s := by rw [cstr_append_zero, cstr_of_notMem hz]
  have hnul : (0 : UInt8) ∈ s ++ 0 :: tail := by simp
  have hbuf : pre ++ (s ++ 0 :: tail) = pre ++ ((l ++ t) ++ (r ++ 0 :: tail)) := by
    rw [h.parts, List.append_assoc]
  have hlen : s.length = ((l ++ t) ++ r).length := congrArg List.length h.parts
  rw [trimRight, obeys_bind, obeys_strlen hw, List.drop_left, hcstr, and_iff_right hnul, hlen, hbuf,
    obeys_trimRightFrom hw h.last_append h.right, replicate_append_zero, List.append_assoc]

/-- `trim_left` goes over the white space at the start of the string. -/
theorem obeys_trimLeft (hw : Watches P .payload) {l t r rest : List UInt8} (h : Trims s l t r) {Q : Nat → Prop} :
    Obeys P (trimLeft (pre ++ (l ++ (t ++ 0 :: rest))) pre.length) Q ↔ Q (pre.length + l.length) := by
  have hany : ((l ++ (t ++ 0 :: rest)).any fun c => !isSpace c) = true :=
    List.any_eq_true.2 ⟨0, by simp, by decide⟩
  rw [trimLeft, obeys_scanFrom hw, List.drop_left, and_iff_right hany]
  simp only [Bool.not_not, h.takeWhile_append]

theorem obeys_trim (hw : Watches P .payload) {l t r : List UInt8} (h : Trims s l t r) (hz : (0 : UInt8) ∉ s)
    {Q : Nat × List UInt8 → Prop} :
    Obeys P (trim (pre ++ (s ++ 0 :: tail)) pre.length) Q ↔
      Q (pre.length + l.length, pre ++ (l ++ (t ++ 0 :: (List.replicate r.length 0 ++ tail)))) := by
  rw [trim, obeys_bind, obeys_trimRight hw h hz, obeys_bind, obeys_trimLeft hw h, obeys_pure]

/-- `is_whitespace` reads the string up to its first byte that is no white space. -/
private theorem obeys_isWhitespaceFrom (hw : Watches P .payload) (pre s tail : List UInt8) (fuel : Nat)
    (hfuel : s.length < fuel) (hz : (0 : UInt8) ∉ s) {Q : Bool → Prop} :
    Obeys P (isWhitespaceFrom (pre ++ (s ++ 0 :: tail)) fuel pre.length) Q ↔ Q (s.all isSpace) := by
  induction s generalizing pre fuel with
  | nil =>
    obtain ⟨fuel, rfl⟩ := Nat.exists_eq_add_one_of_ne_zero (Nat.ne_of_gt hfuel)
    have hlt : pre.length < (pre ++ ([] ++ 0 :: tail)).length := by simp
    have hget : (pre ++ ([] ++ 0 :: tail))[pre.length] = 0 := by simp
    simp only [isWhitespaceFrom, obeys_bind, obeys_load hw, hlt, exists_true_left, hget, ↓reduceIte, obeys_pure,
      List.all_nil]
  | cons c s ih =>
    obtain ⟨fuel, rfl⟩ := Nat.exists_eq_add_one_of_ne_zero (Nat.ne_of_gt (Nat.zero_lt_of_lt hfuel))
    simp only [List.mem_cons, not_or] at hz
    have hlt : pre.length < (pre ++ (c :: s ++ 0 :: tail)).length := by simp
    have hget : (pre ++ (c :: s ++ 0 :: tail))[pre.length] = c := by simp
    have hnext := ih (pre ++ [c]) fuel (by simpa using hfuel) hz.2
    rw [List.append_assoc, List.length_append, List.length_singleton, List.singleton_append] at hnext
    rw [isWhitespaceFrom, obeys_bind, obeys_load hw]
    by_cases hc : isSpace c
    · simp only [hlt, exists_true_left, hget, Ne.symm hz.1, ↓reduceIte, hc, List.all_cons, Bool.true_and]
      exact hnext
    · simp only [hlt, exists_true_left, hget, Ne.symm hz.1, ↓reduceIte, hc, Bool.false_eq_true, List.all_cons,
        Bool.false_and, obeys_pure]

theorem obeys_isWhitespace (hw : Watches P .payload) (hz : (0 : UInt8) ∉ s) {Q : Bool → Prop} :
    Obeys P (isWhitespace (pre ++ (s ++ 0 :: tail)) pre.length) Q ↔ Q (s.all isSpace) :=
  obeys_isWhitespaceFrom hw pre s tail _ (by simp) hz

/-- `trim` reads and writes inside the string; it points at what is left without the white space at both ends, and a
second `trim` from there finds nothing to do.  `is_whitespace` tells whether nothing is left. -/
theorem trim_points_at_trimmed (pre s tail : List UInt8) (hz : (0 : UInt8) ∉ s) :
    ∃ l t r b', Trims s l t r ∧ b' = pre ++ (l ++ (t ++ 0 :: (List.replicate r.length 0 ++ tail))) ∧
      (trim (pre ++ (s ++ 0 :: tail)) pre.length).All Ok ∧
      (trim (pre ++ (s ++ 0 :: tail)) pre.length).val = some (pre.length + l.length, b') ∧
      (trim b' (pre.length + l.length)).All Ok ∧
      (trim b' (pre.length + l.length)).val = some (pre.length + l.length, b') ∧
      (isWhitespace (pre ++ (s ++ 0 :: tail)) pre.length).All Ok ∧
      (isWhitespace (pre ++ (s ++ 0 :: tail)) pre.length).val = some (decide (t = [])) := by
  have hw := watches_ok Buf.payload
  obtain ⟨l, t, r, h⟩ := Trims.exists_of s
  have hzt : (0 : UInt8) ∉ t := fun ht => hz (by simp [h.parts, ht])
  let b' := pre ++ (l ++ (t ++ 0 :: (List.replicate r.length 0 ++ tail)))
  have hfirst : Obeys Ok (trim (pre ++ (s ++ 0 :: tail)) pre.length) fun x => x = (pre.length + l.length, b') :=
    (obeys_trim hw h hz).2 rfl
  have hbuf : b' = (pre ++ l) ++ (t ++ 0 :: (List.replicate r.length 0 ++ tail)) := (List.append_assoc ..).symm
  have hsecond : Obeys Ok (trim b' (pre.length + l.length)) fun x => x = (pre.length + l.length, b') := by
    rw [← List.length_append, hbuf]
    exact (obeys_trim hw h.again hzt).2 rfl
  have hspace : Obeys Ok (isWhitespace (pre ++ (s ++ 0 :: tail)) pre.length) fun x => x = s.all isSpace :=
    (obeys_isWhitespace hw hz).2 rfl
  have hempty : s.all isSpace = decide (t = []) := by
    rw [Bool.eq_iff_iff, List.all_eq_true, decide_eq_true_iff, h.eq_nil_iff]
  rw [hempty] at hspace
  exact ⟨l, t, r, b', h, rfl, hfirst.1, val_of_obeys_eq inRange_of_ok hfirst, hsecond.1,
    val_of_obeys_eq inRange_of_ok hsecond, hspace.1, val_of_obeys_eq inRange_of_ok hspace⟩

theorem trim_points_at_trimmed_option :
    ∃ l t r b', Trims (ascii " ttl=8\n") l t r ∧
      b' = ascii "#" ++ (l ++ (t ++ 0 :: (List.replicate r.length 0 ++ [7]))) ∧
      (trim (ascii "#" ++ (ascii " ttl=8\n" ++ 0 :: [7])) 1).All Ok ∧
      (trim (ascii "#" ++ (ascii " ttl=8\n" ++ 0 :: [7])) 1).val = some (1 + l.length, b') ∧
      (trim b' (1 + l.length)).All Ok ∧ (trim b' (1 + l.length)).val = some (1 + l.length, b') ∧
      (isWhitespace (ascii "#" ++ (ascii " ttl=8\n" ++ 0 :: [7])) 1).All Ok ∧
      (isWhitespace (ascii "#" ++ (ascii " ttl=8\n" ++ 0 :: [7])) 1).val = some (decide (t = [])) :=
  trim_points_at_trimmed (ascii "#") (ascii " ttl=8\n") [7] (by decide)

end GoodbyeDpi
