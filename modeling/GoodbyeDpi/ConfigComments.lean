import GoodbyeDpi.ConfigLaws

/-!
# Comments in configuration files

`fgets` reads at most 511 bytes at a time, so `config_parse_line` sees a longer line in pieces, and only the first
piece of a comment starts with its `#`.  The others are read as lines of their own.
-/

namespace GoodbyeDpi

open CSem

/-- A comment with its newline. -/
def commentLine (text : List UInt8) : List UInt8 := 35 :: text ++ [10]

/-- The part of a line that is read at the `i`-th time, from 0 on. -/
def linePiece (line : List UInt8) (i : Nat) : List UInt8 := (line.drop (511 * i)).take 511

/-- What comes after `before` starts a line. -/
def AtLineStart (before : List UInt8) : Prop := before = [] ∨ before.getLast? = some 10

/-- No file is loaded differently when the comment is inserted between two of its lines. -/
def CommentIgnored (text : List UInt8) : Prop :=
  ∀ before after cfg, AtLineStart before →
    configLoadFile (some (before ++ (commentLine text ++ after))) cfg = configLoadFile (some (before ++ after)) cfg

/-- Every later piece of the comment is a line that is skipped or a setting of an unknown key. -/
def TailHarmless (text : List UInt8) : Prop :=
  ∀ i, 0 < i → 511 * i < (commentLine text).length →
    (configParseLine (cstr (linePiece (commentLine text) i))).Harmless

/-! ### The pieces -/

/-- What the pieces of the comment after the first are for the program. -/
def tailParsed (text : List UInt8) : List ParsedLine :=
  ((fgetsLines 512 (commentLine text)).map fun l => configParseLine (cstr l)).tail

theorem getElem?_commentLine {text : List UInt8} (h : (10 : UInt8) ∉ text) (i : Nat) :
    (fgetsLines 512 (commentLine text))[i]? =
      if 511 * i < (commentLine text).length then some (linePiece (commentLine text) i) else none := by
  have hline : (10 : UInt8) ∉ 35 :: text := by simp [h]
  exact getElem?_fgetsLines (n := 511) (by decide) hline i

/-- The first piece starts with the `#`. -/
theorem map_commentLine {text : List UInt8} (h : (10 : UInt8) ∉ text) :
    (fgetsLines 512 (commentLine text)).map (fun l => configParseLine (cstr l)) = .skip :: tailParsed text := by
  have hfirst := getElem?_commentLine h 0
  rw [Nat.mul_zero, if_pos (by simp [commentLine])] at hfirst
  have hskip : configParseLine (cstr (linePiece (commentLine text) 0)) = .skip := by
    change configParseLine (cstr (35 :: (text ++ [10]).take 510)) = .skip
    rw [cstr_cons (by decide)]
    rfl
  unfold tailParsed
  cases hread : fgetsLines 512 (commentLine text) with
  | nil =>
    rw [hread] at hfirst
    cases hfirst
  | cons p ps =>
    rw [hread] at hfirst
    cases hfirst
    rw [List.map_cons, hskip]
    rfl

theorem tailParsed_harmless_iff {text : List UInt8} (h : (10 : UInt8) ∉ text) :
    (∀ p ∈ tailParsed text, p.Harmless) ↔ TailHarmless text := by
  have hget : ∀ i, (tailParsed text)[i]? = if 511 * (i + 1) < (commentLine text).length then
      some (configParseLine (cstr (linePiece (commentLine text) (i + 1)))) else none := by
    intro i
    unfold tailParsed
    rw [List.getElem?_tail, List.getElem?_map, getElem?_commentLine h]
    split <;> rfl
  constructor
  · intro hall i hi hlt
    obtain ⟨j, rfl⟩ := Nat.exists_eq_add_one_of_ne_zero (Nat.ne_of_gt hi)
    apply hall
    apply List.mem_of_getElem?
    rw [hget j, if_pos hlt]
  · intro hall p hp
    obtain ⟨j, hj⟩ := List.getElem?_of_mem hp
    rw [hget j] at hj
    split at hj
    · rename_i hlt
      cases hj
      exact hall (j + 1) (Nat.succ_pos j) hlt
    · cases hj

/-! ### Files with a comment -/

theorem fgetsLines_atLineStart {before : List UInt8} (h : AtLineStart before) (s : List UInt8) :
    fgetsLines 512 (before ++ s) = fgetsLines 512 before ++ fgetsLines 512 s := by
  rcases h with rfl | h
  · rfl
  · obtain ⟨a, rfl⟩ := List.getLast?_eq_some_iff.1 h
    rw [List.append_assoc, List.singleton_append, fgetsLines_newline]

theorem configLoadFile_comment {text : List UInt8} (h : (10 : UInt8) ∉ text) {before : List UInt8}
    (hbefore : AtLineStart before) (after : List UInt8) (cfg : Config) :
    configLoadFile (some (before ++ (commentLine text ++ after))) cfg =
      ParsedLine.load (((fgetsLines 512 before).map fun l => configParseLine (cstr l)) ++
        ((.skip :: tailParsed text) ++ (fgetsLines 512 after).map fun l => configParseLine (cstr l))) cfg := by
  have hcomment : AtLineStart (commentLine text) := Or.inr List.getLast?_concat
  change configLoadLines _ cfg = _
  rw [fgetsLines_atLineStart hbefore, fgetsLines_atLineStart hcomment, configLoadLines_eq_load, List.map_append,
    List.map_append, map_commentLine h]

/-- Every value changes the field of a key in some configuration. -/
theorem exists_field_ne (k : ConfigKey) (value : List UInt8) :
    ∃ cfg : Config, (cfg.field k).assign value ≠ cfg.field k := by
  by_contra hno
  simp only [not_exists, not_not] at hno
  -- two configurations that differ in the field cannot both have the value already
  have hset : ∀ v, (setKey configInit k v).field k = (configInit.field k).assign value := by
    intro v
    calc (setKey configInit k v).field k
        = ((setKey configInit k v).field k).assign value := (hno _).symm
      _ = ((configInit.field k).assign v).assign value := congrArg _ (configRecord.get_set configInit k v)
      _ = (configInit.field k).assign value := configRecord.write_write k value v _
  have heq := (hset (ascii "1")).trans (hset (ascii "0")).symm
  revert heq
  cases k <;> decide

/-- A list of lines that changes no configuration is harmless, line by line. -/
theorem harmless_of_load {ps : List ParsedLine} (h : ∀ cfg, ParsedLine.load ps cfg = (0, cfg)) :
    ∀ p ∈ ps, p.Harmless := by
  intro p hp
  have herror : ParsedLine.error ∉ ps := ((ParsedLine.load_eq_zero_iff ps configInit configInit).1 (h configInit)).1
  refine ⟨fun heq => herror (heq ▸ hp), ?_⟩
  cases hknown : p.known? with
  | none => rfl
  | some e =>
    obtain ⟨k, v⟩ := e
    have hmem : (k, v) ∈ ps.filterMap ParsedLine.known? := List.mem_filterMap.2 ⟨p, hp, hknown⟩
    obtain ⟨last, hlast⟩ := Option.isSome_iff_exists.1 (KeyedRecord.isSome_lastValue hmem)
    obtain ⟨cfg, hcfg⟩ := exists_field_ne k last
    have hload := h cfg
    rw [ParsedLine.load_of_notMem ps cfg herror, Prod.mk.injEq] at hload
    have hget := configRecord.get_assign cfg (ps.filterMap ParsedLine.known?) k
    rw [hload.2, hlast] at hget
    exact absurd hget.symm hcfg

/-- A comment is ignored everywhere if and only if its later pieces are harmless, which they are in every comment of at
most 511 bytes. -/
theorem commentIgnored_iff (text : List UInt8) (h : (10 : UInt8) ∉ text) :
    (CommentIgnored text ↔ TailHarmless text) ∧ (text.length ≤ 510 → TailHarmless text) := by
  constructor
  · rw [← tailParsed_harmless_iff h]
    constructor
    · intro hignored
      apply harmless_of_load
      intro cfg
      have hempty := hignored [] [] cfg (Or.inl rfl)
      rw [configLoadFile_comment h (Or.inl rfl)] at hempty
      simpa [configLoadFile, fgetsLines, fgetsLoop, configLoadLines, ParsedLine.load] using hempty
    · intro hharmless before after cfg hbefore
      have hskip : ∀ p ∈ ParsedLine.skip :: tailParsed text, p.Harmless := by
        intro p hp
        rcases List.mem_cons.1 hp with rfl | hp
        · decide
        · exact hharmless p hp
      rw [configLoadFile_comment h hbefore, ParsedLine.load_harmless _ _ _ _ hskip, ← List.map_append,
        ← fgetsLines_atLineStart hbefore, ← configLoadLines_eq_load]
      rfl
  · -- at most the newline is left for a second piece
    intro hlen i hi hlt
    have hlength : (commentLine text).length = text.length + 2 := by simp [commentLine]
    have hi1 : i = 1 := by omega
    subst hi1
    have hdrop : linePiece (commentLine text) 1 = [10] := by
      have htext : (35 :: text).length = 511 := by
        rw [List.length_cons]
        omega
      unfold linePiece commentLine
      rw [Nat.mul_one, List.drop_left' htext]
      rfl
    rw [hdrop]
    decide

theorem commentIgnored_plain : CommentIgnored (ascii " the default") := by
  have h := commentIgnored_iff (ascii " the default") (by decide)
  exact h.1.2 (h.2 (by decide))

/-- A comment of 521 bytes that ends with the text of a setting. -/
def longComment : List UInt8 := List.replicate 510 32 ++ ascii "debug=true"

theorem longComment_not_ignored : ¬ CommentIgnored longComment := by
  intro h
  have hload := congrArg (fun r => r.2.debugMode) (h [] [] configInit (Or.inl rfl))
  revert hload
  decide +kernel

end GoodbyeDpi
