import GoodbyeDpi.ConfigFormat
import GoodbyeDpi.Arguments

/-!
# The value of a configuration line

`config_parse_line` skips spaces and tabs before a value and removes spaces, tabs and line ends after it, but the loop
that removes them stops at the first byte.  A value that is left empty therefore keeps the first byte of its line end,
and is not empty for `config_validate`.
-/

namespace GoodbyeDpi

open CSem

/-- The parts of a line `key=value` with white space around the value, which may be empty. -/
structure PaddedSetting where
  key : List UInt8
  blanks : List UInt8
  value : List UInt8
  trailing : List UInt8
  key_ne : key ≠ []
  key_short : key.length < 64
  key_text : ∀ c ∈ key, c ≠ 0 ∧ c ≠ 10 ∧ c ≠ 61
  key_start : ∀ c, key.head? = some c → c ≠ 35
  blanks_blank : ∀ c ∈ blanks, isBlank c
  value_start : ∀ c, value.head? = some c → isTrailing c = false
  value_end : ∀ c, value.getLast? = some c → isTrailing c = false
  trailing_space : ∀ c ∈ trailing, isTrailing c
  value_short : value.length + trailing.length < 256

namespace PaddedSetting

variable (d : PaddedSetting)

def line : List UInt8 := d.key ++ 61 :: (d.blanks ++ (d.value ++ d.trailing))

/-- The configuration after the line has been loaded. -/
def load (cfg : Config) : Config := (configLoadLines [d.line] cfg).2

/-- The line gives its key and its value; and where a server is left empty, `config_validate` refuses to redirect to
it. -/
structure ReadTrimmed : Prop where
  parsed : configParseLine d.line = .setting d.key d.value
  empty_v4 : d.value = [] → d.key = ConfigKey.dnsServerV4.name →
    ∀ cfg : Config, cfg.dnsRedirectIpv4 → configValidate (d.load cfg) = -1
  empty_v6 : d.value = [] → d.key = ConfigKey.dnsServerV6.name →
    ∀ cfg : Config, cfg.dnsRedirectIpv6 → configValidate (d.load cfg) = -1

/-! ### What is read -/

theorem configParseLine_line :
    configParseLine d.line = configParseValue d.key (d.blanks ++ (d.value ++ d.trailing)) := by
  have hstart : ∀ c, d.key.head? = some c → c ≠ 0 ∧ c ≠ 35 ∧ c ≠ 10 := by
    intro c hc
    have htext := d.key_text c (List.mem_of_head? hc)
    exact ⟨htext.1, d.key_start c hc, htext.2.1⟩
  have hshort : ¬ configKeySize ≤ d.key.length := Nat.not_le.2 d.key_short
  unfold line
  rw [configParseLine_key d.key_ne (fun c hc => (d.key_text c hc).2.2) hstart, if_neg hshort]

/-- A value that is not empty is read without the white space around it. -/
theorem parsed_of_ne (h : d.value ≠ []) : configParseLine d.line = .setting d.key d.value := by
  have hstart : ∀ c, d.value.head? = some c → isBlank c = false := by
    intro c hc
    cases hb : isBlank c with
    | false => rfl
    | true =>
      rw [← d.value_start c hc]
      exact (isTrailing_of_isBlank hb).symm
  have hshort : ¬ configValueSize ≤ d.value.length + d.trailing.length := Nat.not_le.2 d.value_short
  rw [d.configParseLine_line, configParseValue_value _ d.blanks_blank h hstart d.value_end d.trailing_space,
    if_neg hshort]

/-- Nothing but blanks is read as the empty value. -/
theorem parsed_of_blank (h : d.value = []) (hblank : ∀ c ∈ d.trailing, isBlank c) :
    configParseLine d.line = .setting d.key [] := by
  have hdrop : (d.blanks ++ d.trailing).dropWhile isBlank = [] := by
    rw [List.dropWhile_eq_nil_iff]
    intro c hc
    rcases List.mem_append.1 hc with hc | hc
    · exact d.blanks_blank c hc
    · exact hblank c hc
  rw [d.configParseLine_line, h, List.nil_append]
  unfold configParseValue
  rw [hdrop]
  rfl

/-- Of a line end after nothing, the first byte stays. -/
theorem parsed_of_lineEnd (h : d.value = []) (hend : ¬ ∀ c ∈ d.trailing, isBlank c) :
    ∃ c, (c = 10 ∨ c = 13) ∧ configParseLine d.line = .setting d.key [c] := by
  have hdrop : (d.blanks ++ d.trailing).dropWhile isBlank = d.trailing.dropWhile isBlank :=
    List.dropWhile_append_of_pos d.blanks_blank
  cases hrest : d.trailing.dropWhile isBlank with
  | nil => exact absurd (List.dropWhile_eq_nil_iff.1 hrest) hend
  | cons c w =>
    have hsuffix : c :: w <:+ d.trailing := by
      rw [← hrest]
      exact List.dropWhile_suffix _
    have hspace : ∀ x ∈ c :: w, isTrailing x := fun x hx => d.trailing_space x (hsuffix.subset hx)
    have hlen := hsuffix.length_le
    have hshort := d.value_short
    have hnot : isBlank c = false := by
      have hhead := List.head?_dropWhile_not isBlank d.trailing
      rw [hrest] at hhead
      simpa using hhead
    have hc : c = 10 ∨ c = 13 := by
      have htrailing := hspace c (List.mem_cons_self ..)
      unfold isTrailing at htrailing
      unfold isBlank at hnot
      simp only [Bool.or_eq_true, beq_iff_eq, Bool.or_eq_false_iff, beq_eq_false_iff_ne] at htrailing hnot
      tauto
    refine ⟨c, hc, ?_⟩
    have htrim : trimLoop (c :: w) ((c :: w).length - 1) = [c] :=
      trimLoop_append (v := [c]) (by simp) fun x hx => hspace x (List.mem_cons_of_mem _ hx)
    rw [d.configParseLine_line, h, List.nil_append]
    unfold configParseValue
    rw [hdrop, hrest, htrim, if_neg]
    unfold configValueSize
    omega

/-! ### An empty server -/

private theorem zero_notMem_space {w : List UInt8} (h : ∀ c ∈ w, isTrailing c) : (0 : UInt8) ∉ w := by
  intro h0
  have := h 0 h0
  revert this
  decide

/-- A line with an empty value has no NUL, so the whole of it is looked at. -/
theorem load_eq (h : d.value = []) {value : List UInt8} (hparsed : configParseLine d.line = .setting d.key value)
    (cfg : Config) : d.load cfg = (configSetValue cfg d.key value).2 := by
  have hnul : (0 : UInt8) ∉ d.line := by
    unfold line
    rw [h, List.nil_append]
    simp only [List.mem_append, List.mem_cons, not_or]
    exact ⟨fun h0 => (d.key_text 0 h0).1 rfl, by decide,
      zero_notMem_space fun c hc => isTrailing_of_isBlank (d.blanks_blank c hc), zero_notMem_space d.trailing_space⟩
  unfold load configLoadLines
  rw [cstr_of_notMem hnul, hparsed]
  rfl

theorem cstr_strncpy_nil (dst : List UInt8) : cstr (strncpy dst [] (inet6Addrstrlen - 1)) = [] := by
  change cstr (0 :: _) = []
  simp [cstr]

private theorem validate_empty_v4 {cfg : Config} (hredirect : cfg.dnsRedirectIpv4)
    (hempty : cstr cfg.dnsServerV4 = []) : configValidate cfg = -1 := by
  unfold configValidate
  simp [hredirect, hempty]

private theorem validate_empty_v6 {cfg : Config} (hredirect : cfg.dnsRedirectIpv6)
    (hempty : cstr cfg.dnsServerV6 = []) : configValidate cfg = -1 := by
  unfold configValidate
  simp [hredirect, hempty]

theorem readTrimmed_of_parsed (hparsed : configParseLine d.line = .setting d.key d.value) : d.ReadTrimmed := by
  refine ⟨hparsed, ?_, ?_⟩
  · intro h hkey cfg hredirect
    have hset : configSetValue cfg d.key d.value = (0, setKey cfg .dnsServerV4 []) := by
      rw [hkey, h]
      rfl
    rw [d.load_eq h hparsed, hset]
    exact validate_empty_v4 hredirect (cstr_strncpy_nil _)
  · intro h hkey cfg hredirect
    have hset : configSetValue cfg d.key d.value = (0, setKey cfg .dnsServerV6 []) := by
      rw [hkey, h]
      rfl
    rw [d.load_eq h hparsed, hset]
    exact validate_empty_v6 hredirect (cstr_strncpy_nil _)

/-- A line is read with the value as it is written if and only if the value is not empty or nothing but spaces and tabs
follows it. -/
theorem readTrimmed_iff : d.ReadTrimmed ↔ d.value ≠ [] ∨ ∀ c ∈ d.trailing, isBlank c := by
  constructor
  · intro hread
    by_contra hno
    rw [not_or, not_not] at hno
    obtain ⟨c, -, hparsed⟩ := d.parsed_of_lineEnd hno.1 hno.2
    rw [hread.parsed, hno.1] at hparsed
    cases hparsed
  · intro h
    apply d.readTrimmed_of_parsed
    by_cases hempty : d.value = []
    · rw [hempty]
      exact d.parsed_of_blank hempty (h.resolve_left fun hne => hne hempty)
    · exact d.parsed_of_ne hempty

end PaddedSetting

/-- The line `dns_server_v4=` with a space and its newline. -/
def emptyServer : PaddedSetting where
  key := ascii "dns_server_v4"
  blanks := [32]
  value := []
  trailing := [10]
  key_ne := by decide
  key_short := by decide
  key_text := by simp [ascii]
  key_start := by simp [ascii]
  blanks_blank := by simp [isBlank]
  value_start := by simp
  value_end := by simp
  trailing_space := by simp [isTrailing]
  value_short := by decide

/-- The newline is left as the server, and a redirection to it is accepted. -/
theorem emptyServer_not_trimmed :
    ¬ emptyServer.ReadTrimmed ∧ configParseLine emptyServer.line = .setting (ascii "dns_server_v4") [10] ∧
      configValidate (emptyServer.load { configInit with dnsRedirectIpv4 := true }) = 0 := by
  refine ⟨fun h => ?_, by decide, by decide⟩
  have hparsed := h.parsed
  revert hparsed
  decide

end GoodbyeDpi
