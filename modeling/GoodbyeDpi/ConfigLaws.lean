import GoodbyeDpi.ConfigFormat

/-!
# Laws of configuration files

What a file of short lines does to a configuration is decided by the last value of every known key: everything else in
it, the order of lines with different keys, settings that a later one hides, unknown keys, comments and empty lines,
makes no difference.
-/

namespace GoodbyeDpi

open CSem

/-! ### The effect of the lines -/

/-- The setting of a known key. -/
def ParsedLine.known? (p : ParsedLine) : Option (ConfigKey × List UInt8) :=
  p.setting?.bind fun kv => (configKey? kv.1).map fun k => (k, kv.2)

/-- A line that changes nothing: it is skipped, or its key is not known. -/
def ParsedLine.Harmless (p : ParsedLine) : Prop := p ≠ .error ∧ p.known? = none

instance (p : ParsedLine) : Decidable p.Harmless := inferInstanceAs (Decidable (_ ∧ _))

namespace ParsedLine

theorem load_cons (p : ParsedLine) (ps : List ParsedLine) (cfg : Config) (h : p ≠ error) :
    load (p :: ps) cfg = load ps (configRecord.assign cfg p.known?.toList) := by
  cases p with
  | skip => rfl
  | error => exact absurd rfl h
  | setting key value =>
    rw [load, configSetValue, known?, setting?, Option.bind_some]
    cases configKey? key with
    | none => rfl
    | some k => rfl

/-- A load without an error applies the settings of the known keys. -/
theorem load_of_notMem (ps : List ParsedLine) (cfg : Config) (h : error ∉ ps) :
    load ps cfg = (0, configRecord.assign cfg (ps.filterMap known?)) := by
  rw [load_eq_zero_iff, setValues_eq_assign, List.filterMap_filterMap]
  exact ⟨h, rfl⟩

theorem load_fst_eq_zero_iff (ps : List ParsedLine) (cfg : Config) : (load ps cfg).1 = 0 ↔ error ∉ ps := by
  constructor
  · intro h
    exact ((load_eq_zero_iff ps cfg (load ps cfg).2).1 (Prod.ext h rfl)).1
  · intro h
    rw [load_of_notMem ps cfg h]

/-- Harmless lines can be left out anywhere. -/
theorem load_harmless (ps hs qs : List ParsedLine) (cfg : Config) (hh : ∀ p ∈ hs, p.Harmless) :
    load (ps ++ (hs ++ qs)) cfg = load (ps ++ qs) cfg := by
  induction ps generalizing cfg with
  | nil =>
    rw [List.nil_append, List.nil_append]
    induction hs with
    | nil => rfl
    | cons p hs ih =>
      obtain ⟨herror, hnone⟩ := hh p (List.mem_cons_self ..)
      rw [List.cons_append, load_cons _ _ _ herror, hnone]
      exact ih fun q hq => hh q (List.mem_cons_of_mem _ hq)
  | cons p ps ih =>
    rw [List.cons_append, List.cons_append]
    cases p with
    | skip => exact ih cfg
    | error => rfl
    | setting key value => exact ih _

end ParsedLine

/-! ### Files of short lines -/

/-- A text file whose lines all fit into the array of `config_load_file`. -/
structure ShortLined (file : List UInt8) : Prop where
  no_nul : (0 : UInt8) ∉ file
  short : ∀ l ∈ fileLines file, (lineText l).length < 511

/-- What `config_parse_line` makes of the lines of a file. -/
def fileParsed (file : List UInt8) : List ParsedLine := (fileLines file).map configParseLine

/-- The last value of a key in a file, if there is a line for it. -/
def lastInFile (k : ConfigKey) (file : List UInt8) : Option (List UInt8) :=
  KeyedRecord.lastValue k ((fileParsed file).filterMap ParsedLine.known?)

theorem ShortLined.configLoadFile_eq {file : List UInt8} (h : ShortLined file) (cfg : Config) :
    configLoadFile (some file) cfg = ParsedLine.load (fileParsed file) cfg := by
  have hread : fgetsLines 512 file = fileLines file := by
    apply fgetsLines_eq_fileLines
    intro l hl
    have := h.short l hl
    omega
  have hparse : (fileLines file).map (fun l => configParseLine (cstr l)) = fileParsed file := by
    apply List.map_congr_left
    intro l hl
    rw [cstr_of_notMem]
    intro h0
    apply h.no_nul
    rw [← flatten_fileLines file]
    exact List.mem_flatten.2 ⟨l, hl, h0⟩
  change configLoadLines (fgetsLines 512 file) cfg = _
  rw [hread, configLoadLines_eq_load, hparse]

/-- Files with the same last values have the same effect. -/
theorem configLoadFile_congr {f g : List UInt8} (hf : ShortLined f) (hg : ShortLined g) {cfg : Config}
    (hf0 : (configLoadFile (some f) cfg).1 = 0) (hg0 : (configLoadFile (some g) cfg).1 = 0)
    (h : ∀ k, lastInFile k f = lastInFile k g) : configLoadFile (some f) cfg = configLoadFile (some g) cfg := by
  rw [hf.configLoadFile_eq, ParsedLine.load_fst_eq_zero_iff] at hf0
  rw [hg.configLoadFile_eq, ParsedLine.load_fst_eq_zero_iff] at hg0
  rw [hf.configLoadFile_eq, hg.configLoadFile_eq, ParsedLine.load_of_notMem _ _ hf0, ParsedLine.load_of_notMem _ _ hg0]
  have hassign := (configRecord.assign_eq_iff cfg ((fileParsed f).filterMap ParsedLine.known?)
    ((fileParsed g).filterMap ParsedLine.known?)).2 fun k => congrArg (fun v => configRecord.written k v _) (h k)
  rw [hassign]

/-! ### Lines in a file -/

/-- A line that can stand in such a file, without its newline. -/
structure TextLine where
  bytes : List UInt8
  no_nul : (0 : UInt8) ∉ bytes
  no_newline : (10 : UInt8) ∉ bytes
  short : bytes.length < 511

def TextLine.parsed (l : TextLine) : ParsedLine := configParseLine (l.bytes ++ [10])

/-- The line sets a known key. -/
def TextLine.sets (k : ConfigKey) (l : TextLine) : Bool := l.parsed.known?.any fun e => e.1 = k

def textOf (ls : List TextLine) : List UInt8 := ls.flatMap fun l => l.bytes ++ [10]

theorem fileLines_textOf (ls : List TextLine) (rest : List UInt8) :
    fileLines (textOf ls ++ rest) = ls.map (fun l => l.bytes ++ [10]) ++ fileLines rest := by
  induction ls with
  | nil => rfl
  | cons l ls ih =>
    have hcons : textOf (l :: ls) ++ rest = l.bytes ++ 10 :: (textOf ls ++ rest) := by simp [textOf]
    rw [hcons, fileLines_line l.no_newline, ih]
    rfl

theorem fileParsed_textOf (ls : List TextLine) (rest : List UInt8) :
    fileParsed (textOf ls ++ rest) = ls.map TextLine.parsed ++ fileParsed rest := by
  unfold fileParsed
  rw [fileLines_textOf, List.map_append, List.map_map]
  rfl

theorem ShortLined.textOf_append {rest : List UInt8} (h : ShortLined rest) (ls : List TextLine) :
    ShortLined (textOf ls ++ rest) where
  no_nul := by
    intro h0
    rcases List.mem_append.1 h0 with h0 | h0
    · obtain ⟨l, -, hl⟩ := List.mem_flatMap.1 h0
      rcases List.mem_append.1 hl with hl | hl
      · exact l.no_nul hl
      · simp at hl
    · exact h.no_nul h0
  short := by
    rw [fileLines_textOf]
    intro l hl
    rcases List.mem_append.1 hl with hl | hl
    · obtain ⟨t, -, rfl⟩ := List.mem_map.1 hl
      have htext : lineText (t.bytes ++ [10]) = t.bytes := by
        rw [lineText_append t.no_newline]
        simp [lineText]
      rw [htext]
      exact t.short
    · exact h.short l hl

theorem lastInFile_textOf (k : ConfigKey) (ls : List TextLine) (rest : List UInt8) :
    lastInFile k (textOf ls ++ rest) =
      (lastInFile k rest).or (KeyedRecord.lastValue k (ls.filterMap fun l => l.parsed.known?)) := by
  unfold lastInFile
  rw [fileParsed_textOf, List.filterMap_append, List.filterMap_map, KeyedRecord.lastValue_append]
  rfl

/-- Only the lines that set a key matter for its last value. -/
private theorem lastValue_filter_sets (k : ConfigKey) (ls : List TextLine) :
    KeyedRecord.lastValue k ((ls.filter fun l => l.sets k).filterMap fun l => l.parsed.known?) =
      KeyedRecord.lastValue k (ls.filterMap fun l => l.parsed.known?) := by
  rw [← KeyedRecord.lastValue_filter k (ls.filterMap fun l => l.parsed.known?), List.filter_filterMap,
    List.filterMap_filter]
  apply congrArg
  apply List.filterMap_congr
  intro l _
  unfold TextLine.sets
  cases l.parsed.known? with
  | none => rfl
  | some e => by_cases hk : e.1 = k <;> simp [hk, Option.filter]

/-- Lines change places, but no two that set the same key. -/
structure Reordered (ls ms : List TextLine) : Prop where
  perm : ls.Perm ms
  same : ∀ k, ls.filter (fun l => l.sets k) = ms.filter (fun l => l.sets k)

theorem Reordered.lastInFile_eq {ls ms : List TextLine} (h : Reordered ls ms) (rest : List UInt8) (k : ConfigKey) :
    lastInFile k (textOf ls ++ rest) = lastInFile k (textOf ms ++ rest) := by
  rw [lastInFile_textOf, lastInFile_textOf, ← lastValue_filter_sets, h.same k, lastValue_filter_sets]

/-- The line sets a known key to a value that a later line hides or that it has there anyway. -/
def Repeats (ls : List TextLine) (l : TextLine) (rest : List UInt8) : Prop :=
  ∃ key v k, l.parsed = .setting key v ∧ configKey? key = some k ∧
    ((lastInFile k rest).isSome ∨ lastInFile k (textOf ls ++ rest) = some v)

theorem Repeats.lastInFile_eq {ls : List TextLine} {l : TextLine} {rest : List UInt8} (h : Repeats ls l rest)
    (k : ConfigKey) : lastInFile k (textOf (ls ++ [l]) ++ rest) = lastInFile k (textOf ls ++ rest) := by
  obtain ⟨key, v, k', hparsed, hkey, hlater⟩ := h
  have hknown : [l].filterMap (fun l => l.parsed.known?) = [(k', v)] := by
    simp [ParsedLine.known?, ParsedLine.setting?, hparsed, hkey]
  rw [lastInFile_textOf] at hlater
  rw [lastInFile_textOf, lastInFile_textOf, List.filterMap_append, hknown, KeyedRecord.lastValue_append]
  cases hrest : lastInFile k rest with
  | some u => rfl
  | none =>
    by_cases hk : k' = k
    · subst hk
      rw [hrest] at hlater
      rcases hlater with hlater | hlater
      · cases hlater
      · rw [Option.none_or] at hlater
        rw [hlater]
        simp [KeyedRecord.lastValue]
    · simp [KeyedRecord.lastValue, hk]

/-- An empty line, a comment, or a setting of an unknown key. -/
def HasNoKey (l : TextLine) : Prop :=
  l.bytes = [] ∨ l.bytes.head? = some 35 ∨ ∃ key v, l.parsed = .setting key v ∧ configKey? key = none

theorem HasNoKey.harmless {l : TextLine} (h : HasNoKey l) : l.parsed.Harmless := by
  rcases h with h | h | ⟨key, v, h, hkey⟩
  · have hskip : l.parsed = .skip := by
      unfold TextLine.parsed
      rw [h]
      rfl
    rw [hskip]
    decide
  · have hskip : l.parsed = .skip := by
      obtain ⟨text, htext⟩ := List.head?_eq_some_iff.1 h
      unfold TextLine.parsed
      rw [htext]
      rfl
    rw [hskip]
    decide
  · rw [h]
    exact ⟨by simp, by simp [ParsedLine.known?, ParsedLine.setting?, hkey]⟩

/-! ### The last setting wins -/

/-- Two files of short lines with the same last values are loaded with the same result; so lines with different keys
can change places, settings can be repeated, and lines without a known key can be added. -/
theorem config_last_setting_wins (cfg : Config) :
    (∀ f g, ShortLined f → ShortLined g → (configLoadFile (some f) cfg).1 = 0 → (configLoadFile (some g) cfg).1 = 0 →
      (∀ k, lastInFile k f = lastInFile k g) → configLoadFile (some f) cfg = configLoadFile (some g) cfg) ∧
    (∀ ls ms rest, ShortLined rest → Reordered ls ms → (configLoadFile (some (textOf ls ++ rest)) cfg).1 = 0 →
      configLoadFile (some (textOf ms ++ rest)) cfg = configLoadFile (some (textOf ls ++ rest)) cfg) ∧
    (∀ ls l rest, ShortLined rest → Repeats ls l rest → (configLoadFile (some (textOf ls ++ rest)) cfg).1 = 0 →
      configLoadFile (some (textOf (ls ++ [l]) ++ rest)) cfg = configLoadFile (some (textOf ls ++ rest)) cfg) ∧
    ∀ ls l rest, ShortLined rest → HasNoKey l →
      configLoadFile (some (textOf (ls ++ [l]) ++ rest)) cfg = configLoadFile (some (textOf ls ++ rest)) cfg := by
  refine ⟨fun f g hf hg hf0 hg0 h => configLoadFile_congr hf hg hf0 hg0 h, ?_, ?_, ?_⟩
  · intro ls ms rest hrest hmoved h0
    have hls := hrest.textOf_append ls
    have hms := hrest.textOf_append ms
    refine configLoadFile_congr hms hls ?_ h0 fun k => (hmoved.lastInFile_eq rest k).symm
    rw [hls.configLoadFile_eq, ParsedLine.load_fst_eq_zero_iff, fileParsed_textOf, List.mem_append] at h0
    rw [hms.configLoadFile_eq, ParsedLine.load_fst_eq_zero_iff, fileParsed_textOf, List.mem_append]
    rwa [(hmoved.perm.map TextLine.parsed).mem_iff] at h0
  · intro ls l rest hrest hrepeats h0
    have hls := hrest.textOf_append ls
    have hls' := hrest.textOf_append (ls ++ [l])
    refine configLoadFile_congr hls' hls ?_ h0 hrepeats.lastInFile_eq
    obtain ⟨key, v, k, hparsed, -⟩ := hrepeats
    rw [hls.configLoadFile_eq, ParsedLine.load_fst_eq_zero_iff, fileParsed_textOf] at h0
    rw [hls'.configLoadFile_eq, ParsedLine.load_fst_eq_zero_iff, fileParsed_textOf]
    simpa [hparsed] using h0
  · intro ls l rest hrest hl
    rw [(hrest.textOf_append (ls ++ [l])).configLoadFile_eq, (hrest.textOf_append ls).configLoadFile_eq,
      fileParsed_textOf, fileParsed_textOf, List.map_append, List.append_assoc]
    apply ParsedLine.load_harmless
    intro p hp
    rw [List.mem_singleton.1 hp]
    exact hl.harmless

theorem config_last_setting_wins_debug :
    configLoadFile (some (ascii "debug=true\ndaemon=1\n")) configInit =
      configLoadFile (some (ascii "debug=0\n\ndaemon=1\n# on again\ndebug=true")) configInit :=
  (config_last_setting_wins configInit).1 _ _ ⟨by decide, by decide⟩ ⟨by decide, by decide⟩ (by decide) (by decide)
    (by intro k; cases k <;> decide)

end GoodbyeDpi
