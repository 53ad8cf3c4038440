import Mathlib.Algebra.Order.Ring.Int
import Mathlib.Data.List.Basic

/-!
# Text input and conversion

`strtol`, `atoi` and `strncpy` on strings, and the lines that `fgets` reads from a file one after the other.
-/

namespace CSem

/-! ### Numbers -/

/-- `isspace` in the C locale. -/
def isSpace (c : UInt8) : Bool := c == 32 || (9 ≤ c && c ≤ 13)

/-- `isdigit`. -/
def isDigit (c : UInt8) : Bool := 48 ≤ c && c ≤ 57

def decimal (ds : List UInt8) : Nat := ds.foldl (fun n c => 10 * n + (c.toNat - 48)) 0

/-- A number out of the range of `long` is replaced by the end of the range. -/
def clampLong (n : Int) : Int := max (-2 ^ 63) (min (2 ^ 63 - 1) n)

/-- The rest of `strtol` after the white space. -/
def strtolSigned : List UInt8 → Int
  | [] => 0
  | c :: s =>
    if c = 45 then clampLong (-decimal (s.takeWhile isDigit))
    else if c = 43 then clampLong (decimal (s.takeWhile isDigit))
    else clampLong (decimal ((c :: s).takeWhile isDigit))

/-- `strtol` with base 10. -/
def strtol (s : List UInt8) : Int := strtolSigned (s.dropWhile isSpace)

/-- The digits of the number that `strtol` reads. -/
def strtolDigits (s : List UInt8) : List UInt8 :=
  match s.dropWhile isSpace with
  | [] => []
  | c :: t => if c = 45 ∨ c = 43 then t else c :: t

/-- The string at `endptr`: the whole one when there are no digits. -/
def strtolEnd (s : List UInt8) : List UInt8 :=
  if ((strtolDigits s).takeWhile isDigit).isEmpty then s else (strtolDigits s).dropWhile isDigit

/-- `strtol` sets `errno`: the number is out of the range of `long`. -/
def strtolErange (s : List UInt8) : Bool :=
  match s.dropWhile isSpace with
  | 45 :: t => decide (2 ^ 63 < decimal (t.takeWhile isDigit))
  | _ => decide (2 ^ 63 ≤ decimal ((strtolDigits s).takeWhile isDigit))

/-- `atoi`: the result of `strtol` as an `int`. -/
def atoi (s : List UInt8) : Int := Int.bmod (strtol s) (2 ^ 32)

/-- The conversion to `unsigned int`. -/
def toUnsigned (n : Int) : UInt32 := UInt32.ofNat (n % 2 ^ 32).toNat

/-! ### Copies -/

/-- The array `dst` after `strncpy(dst, s, n)`: the string cut or filled up with zeros to `n` bytes. -/
def strncpy (dst s : List UInt8) (n : Nat) : List UInt8 := s.take n ++ List.replicate (n - s.length) 0 ++ dst.drop n

theorem drop_strncpy (dst s : List UInt8) (n : Nat) : (strncpy dst s n).drop n = dst.drop n := by
  have hlen : (s.take n ++ List.replicate (n - s.length) (0 : UInt8)).length = n := by
    rw [List.length_append, List.length_take, List.length_replicate]
    omega
  unfold strncpy
  rw [List.drop_append, hlen, Nat.sub_self, List.drop_zero, List.drop_eq_nil_of_le (Nat.le_of_eq hlen), List.nil_append]

/-- A copy overwrites what an earlier one wrote. -/
theorem strncpy_strncpy (dst s s' : List UInt8) (n : Nat) : strncpy (strncpy dst s n) s' n = strncpy dst s' n := by
  change s'.take n ++ List.replicate (n - s'.length) 0 ++ (strncpy dst s n).drop n = _
  rw [drop_strncpy]
  rfl

/-! ### Lines -/

/-- The lines that `fgets` reads into an array of `size` bytes until the end of the file; `cur` is what has been read
of the current one. -/
def fgetsLoop (size : Nat) : List UInt8 → List UInt8 → List (List UInt8)
  | [], cur => if cur.isEmpty then [] else [cur]
  | c :: s, cur =>
    if c = 10 ∨ cur.length + 2 = size then (cur ++ [c]) :: fgetsLoop size s []
    else fgetsLoop size s (cur ++ [c])

def fgetsLines (size : Nat) (file : List UInt8) : List (List UInt8) := fgetsLoop size file []

/-- Bytes that end no line and leave room for the next one. -/
private theorem fgetsLoop_append {size : Nat} {l : List UInt8} (hl : (10 : UInt8) ∉ l) (s cur : List UInt8)
    (hsize : cur.length + l.length + 1 < size) : fgetsLoop size (l ++ s) cur = fgetsLoop size s (cur ++ l) := by
  induction l generalizing cur with
  | nil => simp
  | cons c l ih =>
    rw [List.mem_cons, not_or] at hl
    rw [List.length_cons] at hsize
    rw [List.cons_append, fgetsLoop, if_neg, ih hl.2 (cur ++ [c]) (by simp; omega), List.append_assoc]
    · rfl
    · rintro (hc | hlen)
      · exact hl.1 hc.symm
      · omega

/-- A line that fits into the array is read whole, with its newline. -/
theorem fgetsLines_line {size : Nat} {l : List UInt8} (hl : (10 : UInt8) ∉ l) (hsize : l.length + 1 < size)
    (s : List UInt8) : fgetsLines size (l ++ 10 :: s) = (l ++ [10]) :: fgetsLines size s := by
  unfold fgetsLines
  rw [fgetsLoop_append hl _ _ (by simpa using hsize), List.nil_append, fgetsLoop, if_pos (Or.inl rfl)]

/-- A last line without newline. -/
theorem fgetsLines_last {size : Nat} {l : List UInt8} (hl : (10 : UInt8) ∉ l) (hsize : l.length + 1 < size) :
    fgetsLines size l = if l.isEmpty then [] else [l] := by
  have := fgetsLoop_append hl [] [] (by simpa using hsize)
  rw [List.append_nil, List.nil_append] at this
  unfold fgetsLines
  rw [this, fgetsLoop]

/-- The start of a line that is too long fills the array, and the rest is read like a line. -/
theorem fgetsLines_long {n : Nat} {l : List UInt8} (hl : (10 : UInt8) ∉ l) (hn : n ≠ 0) (hlen : n ≤ l.length)
    (s : List UInt8) : fgetsLines (n + 1) (l ++ s) = l.take n :: fgetsLines (n + 1) (l.drop n ++ s) := by
  obtain ⟨m, rfl⟩ := Nat.exists_eq_add_one_of_ne_zero hn
  have hsplit : l ++ s = l.take m ++ (l[m] :: (l.drop (m + 1) ++ s)) := by
    rw [← List.cons_append, ← List.drop_eq_getElem_cons, ← List.append_assoc, List.take_append_drop]
  have hfirst : (10 : UInt8) ∉ l.take m := fun h => hl (List.mem_of_mem_take h)
  have htake : (l.take m).length = m := by
    rw [List.length_take]
    omega
  unfold fgetsLines
  rw [hsplit, fgetsLoop_append hfirst _ _ (by simp), List.nil_append, fgetsLoop,
    if_pos (Or.inr (by omega)), ← List.take_succ_eq_append_getElem]

/-- A line that ends with a newline is read in pieces that fill the array. -/
theorem getElem?_fgetsLines {n : Nat} (hn : n ≠ 0) {l : List UInt8} (hl : (10 : UInt8) ∉ l) (i : Nat) :
    (fgetsLines (n + 1) (l ++ [10]))[i]? =
      if n * i < (l ++ [10]).length then some (((l ++ [10]).drop (n * i)).take n) else none := by
  have hn0 : 0 < n := Nat.pos_of_ne_zero hn
  induction i generalizing l with
  | zero =>
    rw [Nat.mul_zero, if_pos (by simp), List.drop_zero]
    by_cases hlen : n ≤ l.length
    · rw [fgetsLines_long hl hn hlen, List.getElem?_cons_zero, List.take_append_of_le_length hlen]
    · rw [fgetsLines_line hl (by omega), List.getElem?_cons_zero, List.take_of_length_le (by simp; omega)]
  | succ i ih =>
    have hmul : n * (i + 1) = n * i + n := Nat.mul_succ n i
    by_cases hlen : n ≤ l.length
    · rw [fgetsLines_long hl hn hlen, List.getElem?_cons_succ, ih fun h => hl (List.mem_of_mem_drop h),
        ← List.drop_append_of_le_length hlen, List.drop_drop, List.length_drop, hmul, Nat.add_comm n]
      by_cases hi : n * i + n < (l ++ [10]).length
      · rw [if_pos (by omega), if_pos hi]
      · rw [if_neg (by omega), if_neg hi]
    · -- the whole line fits, and there is no further piece
      rw [fgetsLines_line hl (by omega), List.getElem?_cons_succ, if_neg]
      · rfl
      · rw [List.length_append, List.length_singleton, hmul]
        omega

/-- What follows a newline is read as if it were a file of its own. -/
theorem fgetsLines_newline (size : Nat) (a b : List UInt8) :
    fgetsLines size (a ++ 10 :: b) = fgetsLines size (a ++ [10]) ++ fgetsLines size b := by
  have hloop : ∀ cur, fgetsLoop size (a ++ 10 :: b) cur = fgetsLoop size (a ++ [10]) cur ++ fgetsLoop size b [] := by
    induction a with
    | nil =>
      intro cur
      simp [fgetsLoop]
    | cons c a ih =>
      intro cur
      rw [List.cons_append, List.cons_append, fgetsLoop, fgetsLoop]
      split
      · rw [ih, List.cons_append]
      · rw [ih]
  exact hloop []

/-- The lines of a file, each with its newline; `cur` is the current one so far. -/
def linesLoop : List UInt8 → List UInt8 → List (List UInt8)
  | [], cur => if cur.isEmpty then [] else [cur]
  | c :: s, cur => if c = 10 then (cur ++ [c]) :: linesLoop s [] else linesLoop s (cur ++ [c])

def fileLines (file : List UInt8) : List (List UInt8) := linesLoop file []

/-- A line without its newline. -/
def lineText (line : List UInt8) : List UInt8 := line.takeWhile (· != 10)

theorem lineText_append {cur : List UInt8} (hcur : (10 : UInt8) ∉ cur) (l : List UInt8) :
    lineText (cur ++ l) = cur ++ lineText l := by
  apply List.takeWhile_append_of_pos
  intro c hc
  have : c ≠ 10 := fun h => hcur (h ▸ hc)
  simpa using this

/-- The current line is the start of the next one. -/
private theorem exists_mem_linesLoop (cur : List UInt8) (hne : cur ≠ []) (s : List UInt8) :
    ∃ l, cur ++ l ∈ linesLoop s cur := by
  induction s generalizing cur with
  | nil => exact ⟨[], by simp [linesLoop, hne]⟩
  | cons c s ih =>
    rw [linesLoop]
    split
    · exact ⟨[c], List.mem_cons_self ..⟩
    · obtain ⟨l, hl⟩ := ih (cur ++ [c]) (by simp)
      exact ⟨c :: l, by simpa using hl⟩

/-- An array with room for every line gets the lines as they are. -/
theorem fgetsLines_eq_fileLines {size : Nat} {file : List UInt8}
    (h : ∀ l ∈ fileLines file, (lineText l).length + 1 < size) : fgetsLines size file = fileLines file := by
  have hloop : ∀ cur : List UInt8, (10 : UInt8) ∉ cur → (∀ l ∈ linesLoop file cur, (lineText l).length + 1 < size) →
      fgetsLoop size file cur = linesLoop file cur := by
    clear h
    induction file with
    | nil => exact fun cur _ _ => rfl
    | cons c s ih =>
      intro cur hcur h
      rw [fgetsLoop, linesLoop]
      by_cases hc : c = 10
      · rw [linesLoop, if_pos hc] at h
        rw [if_pos (Or.inl hc), if_pos hc, ih [] (by simp) fun l hl => h l (List.mem_cons_of_mem _ hl)]
      · rw [linesLoop, if_neg hc] at h
        have hcur' : (10 : UInt8) ∉ cur ++ [c] := by
          simp [hcur, Ne.symm hc]
        -- the line that is being read is one of the lines, so there is room for one more byte
        obtain ⟨l, hl⟩ := exists_mem_linesLoop (cur ++ [c]) (by simp) s
        have hroom := h _ hl
        rw [lineText_append hcur', List.length_append, List.length_append, List.length_singleton] at hroom
        rw [if_neg (by simp only [hc, false_or]; omega), if_neg hc, ih (cur ++ [c]) hcur' h]
  exact hloop [] (by simp) h

theorem fileLines_line {l : List UInt8} (hl : (10 : UInt8) ∉ l) (s : List UInt8) :
    fileLines (l ++ 10 :: s) = (l ++ [10]) :: fileLines s := by
  have hloop : ∀ cur, linesLoop (l ++ 10 :: s) cur = (cur ++ l ++ [10]) :: fileLines s := by
    induction l with
    | nil =>
      intro cur
      simp [linesLoop, fileLines]
    | cons c l ih =>
      intro cur
      rw [List.mem_cons, not_or] at hl
      rw [List.cons_append, linesLoop, if_neg (Ne.symm hl.1), ih hl.2]
      simp
  exact hloop []

theorem flatten_fileLines (file : List UInt8) : (fileLines file).flatten = file := by
  have hloop : ∀ cur, (linesLoop file cur).flatten = cur ++ file := by
    induction file with
    | nil =>
      intro cur
      cases cur <;> simp [linesLoop]
    | cons c s ih =>
      intro cur
      rw [linesLoop]
      split
      · rw [List.flatten_cons, ih]
        simp
      · rw [ih]
        simp
  exact hloop []

end CSem
