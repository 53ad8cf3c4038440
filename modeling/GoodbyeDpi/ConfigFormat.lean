import GoodbyeDpi.Config

/-!
# The documented format of the configuration file (`config/goodbyedpi.conf.example`)

The example file and the README show files of four kinds of lines: empty ones, comments, names of sections, and
settings with blanks around the `=`.  A file in this format is a list of such lines, and what it means is that its
settings are applied in order.  This module says which of these files `config_load_file` understands.
-/

namespace GoodbyeDpi

open CSem

/-! ### The format -/

/-- A line `key = value`: the blanks before and after the `=`, and those after the value, are spaces and tabs. -/
structure DocSetting where
  key : List UInt8
  before : List UInt8
  after : List UInt8
  value : List UInt8
  trailing : List UInt8
  key_ne : key ≠ []
  key_text : ∀ c ∈ key, c ≠ 0 ∧ c ≠ 10 ∧ c ≠ 61
  key_start : ∀ c, key.head? = some c → c ≠ 35 ∧ isBlank c = false
  key_end : ∀ c, key.getLast? = some c → isBlank c = false
  key_short : key.length < 64
  before_blank : ∀ c ∈ before, isBlank c
  after_blank : ∀ c ∈ after, isBlank c
  value_ne : value ≠ []
  value_text : ∀ c ∈ value, c ≠ 0 ∧ c ≠ 10
  value_start : ∀ c, value.head? = some c → isBlank c = false
  value_end : ∀ c, value.getLast? = some c → isTrailing c = false
  value_short : value.length < 256
  trailing_blank : ∀ c ∈ trailing, isBlank c

def DocSetting.bytes (d : DocSetting) : List UInt8 := d.key ++ d.before ++ 61 :: (d.after ++ (d.value ++ d.trailing))

/-- A line of the format, without its newline; a section is named in square brackets. -/
inductive DocLine where
  | empty
  | comment (text : List UInt8) (h : (10 : UInt8) ∉ text)
  | sectionName (name : List UInt8) (h : (10 : UInt8) ∉ name ∧ (61 : UInt8) ∉ name)
  | setting (d : DocSetting)

namespace DocLine

def bytes : DocLine → List UInt8
  | empty => []
  | comment text _ => 35 :: text
  | sectionName name _ => 91 :: (name ++ [93])
  | setting d => d.bytes

def setting? : DocLine → Option DocSetting
  | setting d => some d
  | _ => none

def isSection : DocLine → Bool
  | sectionName _ _ => true
  | _ => false

end DocLine

/-- A file of the format: lines that end with a newline, and possibly a last one that does not, each shorter than 511
bytes. -/
structure DocFile where
  lines : List DocLine
  last : Option DocLine
  short : ∀ l ∈ lines ++ last.toList, l.bytes.length < 511

namespace DocFile

variable (f : DocFile)

def allLines : List DocLine := f.lines ++ f.last.toList

def bytes : List UInt8 := (f.lines.flatMap fun l => l.bytes ++ [10]) ++ f.last.elim [] DocLine.bytes

def settings : List DocSetting := f.allLines.filterMap DocLine.setting?

/-- What the file means: every key gets its value, in the order of the file. -/
def apply (cfg : Config) : Config := f.settings.foldl (fun cfg d => (configSetValue cfg d.key d.value).2) cfg

end DocFile

/-! ### When a file is understood -/

/-- The line fits into the arrays for the key and the value, when `newline` bytes follow it. -/
def DocSetting.Fits (d : DocSetting) (newline : Nat) : Prop :=
  d.key.length + d.before.length < 64 ∧ d.value.length + d.trailing.length + newline < 256

instance (d : DocSetting) (newline : Nat) : Decidable (d.Fits newline) := inferInstanceAs (Decidable (_ ∧ _))

/-- The settings of the keys that the program knows. -/
def assignments (ds : List DocSetting) : List (ConfigKey × List UInt8) :=
  ds.filterMap fun d => (configKey? d.key).map fun k => (k, d.value)

/-- There is no blank before the `=`. -/
def DocSetting.isPlain (d : DocSetting) : Bool := d.before.isEmpty

/-- What is left in a field when `value` is the last value given to it, if any. -/
def ConfigField.after (field : ConfigField) (value : Option (List UInt8)) : ConfigField :=
  value.elim field field.assign

/-- The value that the last of the lines for a key gives to it. -/
def lastSetting (k : ConfigKey) (ds : List DocSetting) : Option (List UInt8) := KeyedRecord.lastValue k (assignments ds)

/-- No line names a section, all settings fit, and for every key the last line that sets it leaves the same in its
field as the last line that does so without a blank before the `=`. -/
structure DocFile.Understood (f : DocFile) (cfg : Config) : Prop where
  no_section : ∀ l ∈ f.allLines, l.isSection = false
  fits : ∀ d, .setting d ∈ f.lines → d.Fits 1
  fits_last : ∀ d, f.last = some (.setting d) → d.Fits 0
  plain : ∀ k, (cfg.field k).after (lastSetting k f.settings) =
    (cfg.field k).after (lastSetting k (f.settings.filter DocSetting.isPlain))

/-! ### One line -/

/-- White space after a value is removed. -/
theorem trimLoop_append {v : List UInt8} (hv : v ≠ []) {w : List UInt8} (hw : ∀ c ∈ w, isTrailing c) :
    trimLoop (v ++ w) ((v ++ w).length - 1) = trimLoop v (v.length - 1) := by
  induction w using List.reverseRecOn with
  | nil => rw [List.append_nil]
  | append_singleton w c ih =>
    have hpos : 0 < (v ++ w).length := by
      rw [List.length_append]
      have := List.length_pos_of_ne_nil hv
      omega
    obtain ⟨n, hn⟩ := Nat.exists_eq_add_one_of_ne_zero (Nat.ne_of_gt hpos)
    have hlen : (v ++ (w ++ [c])).length - 1 = n + 1 := by
      rw [← List.append_assoc, List.length_append, List.length_singleton, hn]
      rfl
    have hget : (v ++ (w ++ [c])).getD (n + 1) 0 = c := by
      rw [← List.append_assoc, ← hn, List.getD_eq_getElem?_getD, List.getElem?_append_right (Nat.le_refl _),
        Nat.sub_self]
      rfl
    have htake : (v ++ (w ++ [c])).take (n + 1) = v ++ w := by
      rw [← List.append_assoc, ← hn, List.take_left]
    -- the loop removes the last byte and goes on with what is before it
    rw [hlen, trimLoop, hget, if_pos (hw c (by simp)), htake]
    rw [hn] at ih
    exact ih fun x hx => hw x (List.mem_append_left _ hx)

theorem trimLoop_eq_self {v : List UInt8} (hend : ∀ c, v.getLast? = some c → isTrailing c = false) :
    trimLoop v (v.length - 1) = v := by
  cases hn : v.length - 1 with
  | zero => rfl
  | succ n =>
    have hget : v.getLast? = some (v.getD (n + 1) 0) := by
      rw [List.getLast?_eq_getElem?, hn, List.getD_eq_getElem?_getD, List.getElem?_eq_getElem (by omega)]
      rfl
    rw [trimLoop, hend _ hget]
    rfl

/-- A line is split at the first `=`. -/
theorem configParseLine_key {key rest : List UInt8} (hne : key ≠ []) (htext : ∀ c ∈ key, c ≠ 61)
    (hstart : ∀ c, key.head? = some c → c ≠ 0 ∧ c ≠ 35 ∧ c ≠ 10) :
    configParseLine (key ++ 61 :: rest) =
      if configKeySize ≤ key.length then .error else configParseValue key rest := by
  have hidx : (key ++ 61 :: rest).idxOf? 61 = some key.length := by
    unfold List.idxOf?
    rw [List.findIdx?_append, List.findIdx?_eq_none_iff.2, List.findIdx?_cons]
    · simp
    · intro c hc
      simpa using htext c hc
  have hhead : ∃ c, (key ++ 61 :: rest).headD 0 = c ∧ c ≠ 0 ∧ c ≠ 35 ∧ c ≠ 10 := by
    cases key with
    | nil => exact absurd rfl hne
    | cons c key => exact ⟨c, rfl, hstart c rfl⟩
  obtain ⟨c, hc, h0, h35, h10⟩ := hhead
  unfold configParseLine
  rw [hc, if_neg (by simp [h0, h35, h10]), hidx]
  simp only [List.take_left, show key.length + 1 = (key ++ [61]).length by simp]
  rw [show key ++ 61 :: rest = (key ++ [61]) ++ rest by simp, List.drop_left]

/-- The value without the blanks around it. -/
theorem configParseValue_value (key : List UInt8) {b v w : List UInt8} (hb : ∀ c ∈ b, isBlank c) (hne : v ≠ [])
    (hstart : ∀ c, v.head? = some c → isBlank c = false) (hend : ∀ c, v.getLast? = some c → isTrailing c = false)
    (hw : ∀ c ∈ w, isTrailing c) :
    configParseValue key (b ++ (v ++ w)) =
      if configValueSize ≤ v.length + w.length then .error else .setting key v := by
  have hdrop : (b ++ (v ++ w)).dropWhile isBlank = v ++ w := by
    rw [List.dropWhile_append_of_pos hb]
    cases v with
    | nil => exact absurd rfl hne
    | cons c v => rw [List.cons_append, List.dropWhile_cons_of_neg (by simp [hstart c rfl])]
  unfold configParseValue
  rw [hdrop, trimLoop_append hne hw, trimLoop_eq_self hend, List.length_append]

theorem isBlank_iff {c : UInt8} : isBlank c ↔ c = 32 ∨ c = 9 := by
  simp [isBlank]

theorem isTrailing_of_isBlank {c : UInt8} (h : isBlank c) : isTrailing c := by
  rcases isBlank_iff.1 h with rfl | rfl <;> rfl

/-- A byte that is neither a blank nor in the text is not in a setting. -/
private theorem notMem_blanks {l : List UInt8} (h : ∀ c ∈ l, isBlank c) {x : UInt8} (hx : isBlank x = false) :
    x ∉ l := by
  intro hmem
  rw [h x hmem] at hx
  cases hx

namespace DocSetting

variable (d : DocSetting)

theorem notMem_bytes {x : UInt8} (hblank : isBlank x = false) (heq : x ≠ 61) (hkey : x ∉ d.key) (hvalue : x ∉ d.value) :
    x ∉ d.bytes := by
  unfold bytes
  simp only [List.mem_append, List.mem_cons, not_or]
  exact ⟨⟨hkey, notMem_blanks d.before_blank hblank⟩, heq, notMem_blanks d.after_blank hblank, hvalue,
    notMem_blanks d.trailing_blank hblank⟩

theorem newline_notMem_bytes : (10 : UInt8) ∉ d.bytes :=
  d.notMem_bytes rfl (by decide) (fun h => (d.key_text 10 h).2.1 rfl) (fun h => (d.value_text 10 h).2 rfl)

theorem zero_notMem_bytes : (0 : UInt8) ∉ d.bytes :=
  d.notMem_bytes rfl (by decide) (fun h => (d.key_text 0 h).1 rfl) (fun h => (d.value_text 0 h).1 rfl)

/-- The key is read with the blanks that follow it, the value without those around it. -/
theorem configParseLine_bytes {t : List UInt8} (ht : ∀ c ∈ t, isTrailing c) :
    configParseLine (d.bytes ++ t) =
      if d.Fits t.length then .setting (d.key ++ d.before) d.value else .error := by
  have hkey : ∀ c ∈ d.key ++ d.before, c ≠ 61 := by
    intro c hc
    rcases List.mem_append.1 hc with hc | hc
    · exact (d.key_text c hc).2.2
    · rintro rfl
      exact notMem_blanks d.before_blank rfl hc
  have hstart : ∀ c, (d.key ++ d.before).head? = some c → c ≠ 0 ∧ c ≠ 35 ∧ c ≠ 10 := by
    intro c hc
    have hhead : d.key.head? = some c := by
      rw [List.head?_append_of_ne_nil _ d.key_ne] at hc
      exact hc
    have htext := d.key_text c (List.mem_of_head? hhead)
    exact ⟨htext.1, (d.key_start c hhead).1, htext.2.1⟩
  have hw : ∀ c ∈ d.trailing ++ t, isTrailing c := by
    intro c hc
    rcases List.mem_append.1 hc with hc | hc
    · exact isTrailing_of_isBlank (d.trailing_blank c hc)
    · exact ht c hc
  have hne : d.key ++ d.before ≠ [] := by simp [d.key_ne]
  have hbytes : d.bytes ++ t = (d.key ++ d.before) ++ 61 :: (d.after ++ (d.value ++ (d.trailing ++ t))) := by
    simp [bytes]
  rw [hbytes, configParseLine_key hne hkey hstart,
    configParseValue_value _ d.after_blank d.value_ne d.value_start d.value_end hw]
  unfold configKeySize configValueSize
  rw [List.length_append, List.length_append, ← Nat.add_assoc]
  by_cases h1 : d.key.length + d.before.length < 64
  · rw [if_neg (Nat.not_le.2 h1)]
    by_cases h2 : d.value.length + d.trailing.length + t.length < 256
    · rw [if_neg (Nat.not_le.2 h2), if_pos (show d.Fits t.length from ⟨h1, h2⟩)]
    · rw [if_pos (Nat.not_lt.1 h2), if_neg fun h : d.Fits t.length => h2 h.2]
  · rw [if_pos (Nat.not_lt.1 h1), if_neg fun h : d.Fits t.length => h1 h.1]

end DocSetting

namespace DocLine

variable (l : DocLine)

theorem newline_notMem_bytes : (10 : UInt8) ∉ l.bytes := by
  cases l with
  | empty => simp [bytes]
  | comment text h => simp [bytes, h]
  | sectionName name h => simp [bytes, h.1]
  | setting d => exact d.newline_notMem_bytes

/-- What a line is for the program, when `newline` bytes follow it. -/
def parsed (newline : Nat) : DocLine → ParsedLine
  | empty => .skip
  | comment _ _ => .skip
  | sectionName _ _ => .error
  | setting d => if d.Fits newline then .setting (d.key ++ d.before) d.value else .error

/-- Every line of the format, as `fgets` reads it. -/
theorem configParseLine_bytes {t : List UInt8} (ht : t = [10] ∨ t = []) :
    configParseLine (cstr (l.bytes ++ t)) = l.parsed t.length := by
  have htrailing : ∀ c ∈ t, isTrailing c := by
    rcases ht with rfl | rfl <;> simp [isTrailing]
  have ht0 : (0 : UInt8) ∉ t := by
    rcases ht with rfl | rfl <;> simp
  cases l with
  | empty =>
    rcases ht with rfl | rfl <;> rfl
  | comment text h =>
    unfold bytes
    rw [List.cons_append, cstr_cons (by decide)]
    rfl
  | sectionName name h =>
    -- without an `=` there is nothing to split
    have hsub : (61 : UInt8) ∉ cstr (bytes (sectionName name h) ++ t) := by
      intro hmem
      have := (cstr_isPrefix _).subset hmem
      rcases ht with rfl | rfl <;> simp [bytes, h.2] at this
    have hidx := List.idxOf?_eq_none_iff.2 hsub
    unfold configParseLine
    rw [hidx]
    unfold bytes
    rw [List.cons_append, cstr_cons (by decide)]
    rfl
  | setting d =>
    unfold bytes
    rw [cstr_append d.zero_notMem_bytes, cstr_of_notMem ht0]
    exact d.configParseLine_bytes htrailing

theorem parsed_eq_error_iff {n : Nat} : l.parsed n = .error ↔ l.isSection ∨ ∃ d, l = .setting d ∧ ¬ d.Fits n := by
  cases l with
  | empty => simp [parsed, isSection]
  | comment text h => simp [parsed, isSection]
  | sectionName name h => simp [parsed, isSection]
  | setting d =>
    unfold parsed
    by_cases hd : d.Fits n
    · simp [hd, isSection]
    · simp [hd]

end DocLine

/-! ### The loop over the lines -/

namespace ParsedLine

def setting? : ParsedLine → Option (List UInt8 × List UInt8)
  | setting key value => some (key, value)
  | _ => none

/-- The loop of `config_load_file` on what it sees of the lines. -/
def load : List ParsedLine → Config → Int × Config
  | [], cfg => (0, cfg)
  | setting key value :: ps, cfg => load ps (configSetValue cfg key value).2
  | error :: _, cfg => (-1, cfg)
  | skip :: ps, cfg => load ps cfg

theorem load_append_skip (ps : List ParsedLine) (cfg : Config) : load (ps ++ [skip]) cfg = load ps cfg := by
  induction ps generalizing cfg with
  | nil => rfl
  | cons p ps ih =>
    cases p with
    | skip => exact ih cfg
    | error => rfl
    | setting key value => exact ih _

end ParsedLine

theorem DocLine.filterMap_parsed {n : Nat} {ls : List DocLine} (h : .error ∉ ls.map (DocLine.parsed n)) :
    (ls.map (DocLine.parsed n)).filterMap ParsedLine.setting? =
      (ls.filterMap DocLine.setting?).map fun d => (d.key ++ d.before, d.value) := by
  rw [List.filterMap_map, List.map_filterMap]
  apply List.filterMap_congr
  intro l hl
  cases l with
  | empty => rfl
  | comment text ht => rfl
  | sectionName name hn => exact absurd (List.mem_map_of_mem hl) h
  | setting d =>
    have hfits : d.Fits n := by
      by_contra hd
      exact h (List.mem_map.2 ⟨_, hl, if_neg hd⟩)
    change ParsedLine.setting? (if d.Fits n then _ else _) = _
    rw [if_pos hfits]
    rfl

theorem configLoadLines_eq_load (lines : List (List UInt8)) (cfg : Config) :
    configLoadLines lines cfg = ParsedLine.load (lines.map fun l => configParseLine (cstr l)) cfg := by
  induction lines generalizing cfg with
  | nil => rfl
  | cons line lines ih =>
    rw [List.map_cons, configLoadLines]
    cases configParseLine (cstr line) with
    | skip => exact ih cfg
    | error => rfl
    | setting key value => exact ih _

/-- The settings one after the other. -/
def setValues (cfg : Config) (kvs : List (List UInt8 × List UInt8)) : Config :=
  kvs.foldl (fun cfg kv => (configSetValue cfg kv.1 kv.2).2) cfg

/-- The setting, when its key is known. -/
def knownSetting (kv : List UInt8 × List UInt8) : Option (ConfigKey × List UInt8) :=
  (configKey? kv.1).map fun k => (k, kv.2)

/-- Settings are assignments to the known keys. -/
theorem setValues_eq_assign (cfg : Config) (kvs : List (List UInt8 × List UInt8)) :
    setValues cfg kvs = configRecord.assign cfg (kvs.filterMap knownSetting) := by
  induction kvs generalizing cfg with
  | nil => rfl
  | cons kv kvs ih =>
    have hstep : setValues cfg (kv :: kvs) = setValues (configSetValue cfg kv.1 kv.2).2 kvs := rfl
    rw [hstep, ih, configSetValue, List.filterMap_cons, knownSetting]
    cases configKey? kv.1 with
    | none => rfl
    | some k => rfl

/-- The loop succeeds when no line is an error, and then it has applied the settings. -/
theorem ParsedLine.load_eq_zero_iff (ps : List ParsedLine) (cfg result : Config) :
    load ps cfg = (0, result) ↔ error ∉ ps ∧ setValues cfg (ps.filterMap setting?) = result := by
  induction ps generalizing cfg with
  | nil => simp [load, setValues]
  | cons p ps ih =>
    cases p with
    | skip =>
      rw [List.filterMap_cons_none rfl]
      simpa [load] using ih cfg
    | error => simp [load]
    | setting key value => simpa [load, setting?, setValues] using ih (configSetValue cfg key value).2

/-! ### The lines of a file -/

namespace DocFile

variable (f : DocFile)

/-- What the lines of the file are for the program. -/
def parsed : List ParsedLine := f.lines.map (DocLine.parsed 1) ++ f.last.toList.map (DocLine.parsed 0)

private theorem fgetsLines_lines {ls : List DocLine} (hls : ∀ l ∈ ls, l.bytes.length < 511) (s : List UInt8) :
    fgetsLines 512 ((ls.flatMap fun l => l.bytes ++ [10]) ++ s) =
      ls.map (fun l => l.bytes ++ [10]) ++ fgetsLines 512 s := by
  induction ls with
  | nil => rfl
  | cons l ls ih =>
    have hl := hls l (List.mem_cons_self ..)
    rw [List.flatMap_cons, List.append_assoc, List.append_assoc, List.singleton_append,
      fgetsLines_line l.newline_notMem_bytes (by omega), ih fun x hx => hls x (List.mem_cons_of_mem _ hx)]
    rfl

private theorem load_last {l : DocLine} (hl : l.bytes.length < 511) (ps : List ParsedLine) (cfg : Config) :
    ParsedLine.load (ps ++ (fgetsLines 512 l.bytes).map fun x => configParseLine (cstr x)) cfg =
      ParsedLine.load (ps ++ [l.parsed 0]) cfg := by
  have hparse : configParseLine (cstr l.bytes) = l.parsed 0 := by
    have := l.configParseLine_bytes (t := []) (Or.inr rfl)
    rwa [List.append_nil] at this
  rw [fgetsLines_last l.newline_notMem_bytes (by omega)]
  by_cases hempty : l.bytes.isEmpty
  · -- an empty last line is not read, but it would be skipped
    have hskip : l.parsed 0 = .skip := by
      rw [← hparse, List.isEmpty_iff.1 hempty]
      rfl
    rw [if_pos hempty, hskip, ParsedLine.load_append_skip, List.map_nil, List.append_nil]
  · rw [if_neg hempty, List.map_singleton, hparse]

theorem configLoadFile_eq_load (cfg : Config) : configLoadFile (some f.bytes) cfg = ParsedLine.load f.parsed cfg := by
  have hlines : (f.lines.map fun l => l.bytes ++ [10]).map (fun l => configParseLine (cstr l)) =
      f.lines.map (DocLine.parsed 1) := by
    rw [List.map_map]
    exact List.map_congr_left fun l _ => l.configParseLine_bytes (Or.inl rfl)
  have hread : fgetsLines 512 f.bytes =
      f.lines.map (fun l => l.bytes ++ [10]) ++ fgetsLines 512 (f.last.elim [] DocLine.bytes) :=
    fgetsLines_lines (fun l hl => f.short l (List.mem_append_left _ hl)) _
  change configLoadLines (fgetsLines 512 f.bytes) cfg = _
  unfold parsed
  rw [configLoadLines_eq_load, hread, List.map_append, hlines]
  cases hlast : f.last with
  | none => rfl
  | some l => exact load_last (f.short l (by simp [hlast])) _ _

/-- No line is an error exactly when no line names a section and all settings fit. -/
theorem error_notMem_parsed : ParsedLine.error ∉ f.parsed ↔
    (∀ l ∈ f.allLines, l.isSection = false) ∧ (∀ d, .setting d ∈ f.lines → d.Fits 1) ∧
      ∀ d, f.last = some (.setting d) → d.Fits 0 := by
  have hsplit : ParsedLine.error ∉ f.parsed ↔
      (∀ l ∈ f.lines, l.parsed 1 ≠ .error) ∧ ∀ l ∈ f.last, l.parsed 0 ≠ .error := by
    simp [parsed, not_or, eq_comm]
  rw [hsplit]
  simp only [ne_eq, DocLine.parsed_eq_error_iff, not_or, not_exists, not_and, not_not, Bool.not_eq_true]
  unfold allLines
  constructor
  · rintro ⟨hlines, hlast⟩
    refine ⟨?_, fun d hd => (hlines _ hd).2 d rfl, fun d hd => (hlast _ hd).2 d rfl⟩
    intro l hl
    rcases List.mem_append.1 hl with hl | hl
    · exact (hlines l hl).1
    · exact (hlast l (Option.mem_toList.1 hl)).1
  · rintro ⟨hsection, hlines, hlast⟩
    constructor
    · intro l hl
      exact ⟨hsection l (List.mem_append_left _ hl), fun d hd => hlines d (hd ▸ hl)⟩
    · intro l hl
      exact ⟨hsection l (List.mem_append_right _ (Option.mem_toList.2 hl)), fun d hd => hlast d (hd ▸ hl)⟩

/-- The settings as the program reads them. -/
theorem filterMap_parsed (h : ParsedLine.error ∉ f.parsed) :
    f.parsed.filterMap ParsedLine.setting? = f.settings.map fun d => (d.key ++ d.before, d.value) := by
  unfold parsed at h ⊢
  unfold settings allLines
  rw [List.mem_append, not_or] at h
  rw [List.filterMap_append, List.filterMap_append, List.map_append, DocLine.filterMap_parsed h.1,
    DocLine.filterMap_parsed h.2]

end DocFile

/-! ### Which files are understood -/

private theorem name_of_configKey? {key : List UInt8} {k : ConfigKey} (h : configKey? key = some k) : k.name = key := by
  have := List.find?_some h
  simpa using this

private theorem blank_notMem_name (k : ConfigKey) : ∀ c ∈ k.name, isBlank c = false := by
  have h : (k.name.all fun c => !isBlank c) = true := by cases k <;> decide
  simpa using h

/-- A key that is read with a blank is not known. -/
theorem configKey?_blank {key b : List UInt8} (hb : ∀ c ∈ b, isBlank c) (hne : b ≠ []) :
    configKey? (key ++ b) = none := by
  cases hk : configKey? (key ++ b) with
  | none => rfl
  | some k =>
    obtain ⟨c, hc⟩ := List.exists_mem_of_ne_nil b hne
    have hmem : c ∈ k.name := by
      rw [name_of_configKey? hk]
      exact List.mem_append_right _ hc
    have hblank := hb c hc
    rw [blank_notMem_name k c hmem] at hblank
    cases hblank

theorem DocFile.apply_eq_assign (f : DocFile) (cfg : Config) :
    f.apply cfg = configRecord.assign cfg (assignments f.settings) := by
  have happly : f.apply cfg = setValues cfg (f.settings.map fun d => (d.key, d.value)) := by
    unfold DocFile.apply setValues
    rw [List.foldl_map]
  rw [happly, setValues_eq_assign, List.filterMap_map]
  rfl

/-- Only the settings without a blank before the `=` have an effect. -/
theorem setValues_settings (ds : List DocSetting) (cfg : Config) :
    setValues cfg (ds.map fun d => (d.key ++ d.before, d.value)) =
      configRecord.assign cfg (assignments (ds.filter DocSetting.isPlain)) := by
  rw [setValues_eq_assign, List.filterMap_map]
  unfold assignments
  rw [List.filterMap_filter]
  apply congrArg
  apply List.filterMap_congr
  intro d _
  by_cases hb : d.before = []
  · have hplain : d.isPlain := by simp [DocSetting.isPlain, hb]
    rw [if_pos hplain, Function.comp_apply, hb, List.append_nil]
    rfl
  · have hplain : ¬ d.isPlain := by simp [DocSetting.isPlain, hb]
    rw [if_neg hplain, Function.comp_apply, knownSetting, configKey?_blank d.before_blank hb]
    rfl

/-- Exactly the files without section names, whose settings fit into the arrays and whose settings with a blank
before the `=` make no difference, are loaded as they are meant. -/
theorem configLoadFile_eq_apply_iff (f : DocFile) (cfg : Config) :
    configLoadFile (some f.bytes) cfg = (0, f.apply cfg) ↔ f.Understood cfg := by
  rw [f.configLoadFile_eq_load, ParsedLine.load_eq_zero_iff, f.apply_eq_assign]
  constructor
  · rintro ⟨herror, heq⟩
    rw [f.filterMap_parsed herror, setValues_settings, KeyedRecord.assign_eq_iff] at heq
    obtain ⟨hsection, hfits, hlast⟩ := f.error_notMem_parsed.1 herror
    exact ⟨hsection, hfits, hlast, fun k => (heq k).symm⟩
  · rintro ⟨hsection, hfits, hlast, hplain⟩
    have herror := f.error_notMem_parsed.2 ⟨hsection, hfits, hlast⟩
    refine ⟨herror, ?_⟩
    rw [f.filterMap_parsed herror, setValues_settings, KeyedRecord.assign_eq_iff]
    exact fun k => (hplain k).symm

/-- The line `daemon = true` of the README. -/
def daemonSetting : DocSetting where
  key := ascii "daemon"
  before := ascii " "
  after := ascii " "
  value := ascii "true"
  trailing := []
  key_ne := by decide
  key_text := by simp [ascii]
  key_start := by simp [ascii, isBlank]
  key_end := by simp [ascii, isBlank]
  key_short := by decide
  before_blank := by simp [ascii, isBlank]
  after_blank := by simp [ascii, isBlank]
  value_ne := by decide
  value_text := by simp [ascii]
  value_start := by simp [ascii, isBlank]
  value_end := by simp [ascii, isTrailing]
  value_short := by decide
  trailing_blank := by simp

/-- The file with just that line. -/
def daemonFile : DocFile where
  lines := [.setting daemonSetting]
  last := none
  short := by decide

/-- The same under the section name of the README. -/
def generalFile : DocFile where
  lines := [.sectionName (ascii "general") (by decide), .setting daemonSetting]
  last := none
  short := by decide

/-- The section name makes the load fail, and without it the setting is ignored. -/
theorem generalFile_not_understood :
    configLoadFile (some generalFile.bytes) configInit ≠ (0, generalFile.apply configInit) ∧
    configLoadFile (some daemonFile.bytes) configInit ≠ (0, daemonFile.apply configInit) := by
  constructor <;> decide

end GoodbyeDpi
