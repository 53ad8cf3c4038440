import GoodbyeDpi.Arguments

/-!
# Fragment sizes from the file and from the command line

A configuration file and the command line both set the two fragment sizes, the one with `atoi` and a check of the
result, the other with `strtol` and a check of the text.  A number that the file accepts is a number modulo `2 ^ 32` and
may be followed by anything.
-/

namespace GoodbyeDpi

open CSem

/-- The two fragment sizes. -/
inductive FragmentSize where
  | http
  | https
deriving DecidableEq, Repr

namespace FragmentSize

def key : FragmentSize → ConfigKey
  | http => .httpFragmentSize
  | https => .httpsFragmentSize

/-- The option with its dashes. -/
def option : FragmentSize → List UInt8
  | http => ascii "--fragment-http"
  | https => ascii "--fragment-https"

def cliOption : FragmentSize → CliOption
  | http => .fragmentHttp
  | https => .fragmentHttps

def size : FragmentSize → Config → UInt32
  | http => Config.httpFragmentSize
  | https => Config.httpsFragmentSize

/-- The configuration after the file has set the size. -/
def fromFile (o : FragmentSize) (cfg : Config) (s : List UInt8) : Config := (configSetValue cfg o.key.name s).2

/-- The file sets a size that is not zero, and `config_validate` accepts the configuration. -/
def AcceptedFromFile (o : FragmentSize) (cfg : Config) (s : List UInt8) : Prop :=
  o.size (o.fromFile cfg s) ≠ 0 ∧ configValidate (o.fromFile cfg s) = 0

/-- The two ways to write the option with its argument. -/
def commandLines (o : FragmentSize) (s : List UInt8) : List (List (List UInt8)) :=
  [[o.option, s], [o.option ++ 61 :: s]]

/-- The command line accepts the same text and gives the same size, whatever the configuration was before. -/
def CommandLineAgrees (o : FragmentSize) (cfg : Config) (s : List UInt8) : Prop :=
  ∀ files posixlyCorrect cfg', ∀ args ∈ o.commandLines s,
    (parseArguments files posixlyCorrect args cfg').1 = 0 ∧
      o.size (parseArguments files posixlyCorrect args cfg').2 = o.size (o.fromFile cfg s)

end FragmentSize

/-! ### Numbers -/

theorem toUnsigned_atoi (s : List UInt8) : toUnsigned (atoi s) = toUnsigned (strtol s) := by
  unfold toUnsigned atoi
  have hmod : Int.bmod (strtol s) (2 ^ 32) % 2 ^ 32 = strtol s % 2 ^ 32 := Int.bmod_emod
  rw [hmod]

theorem toNat_toUnsigned (n : Int) : ((toUnsigned n).toNat : Int) = n % 2 ^ 32 := by
  have h0 : 0 ≤ n % 2 ^ 32 := Int.emod_nonneg _ (by decide)
  have h1 : n % 2 ^ 32 < 2 ^ 32 := Int.emod_lt_of_pos _ (by decide)
  unfold toUnsigned
  rw [UInt32.toNat_ofNat_of_lt']
  · omega
  · change (n % 2 ^ 32).toNat < 2 ^ 32
    omega

/-- A number out of range is replaced by one of the ends. -/
theorem strtol_of_erange {s : List UInt8} (h : strtolErange s = true) : strtol s = -2 ^ 63 ∨ strtol s = 2 ^ 63 - 1 := by
  unfold strtolErange at h
  unfold strtol
  split at h
  · rename_i t ht
    have hbig := of_decide_eq_true h
    rw [ht, strtolSigned, if_pos rfl]
    unfold clampLong
    omega
  · rename_i x hminus
    have hbig := of_decide_eq_true h
    unfold strtolDigits at hbig
    cases hd : s.dropWhile isSpace with
    | nil =>
      rw [hd] at hbig
      exact absurd hbig (by decide)
    | cons c t =>
      have hc : c ≠ 45 := fun hc => hminus t (by rw [hd, hc])
      rw [hd] at hbig
      rw [strtolSigned, if_neg hc]
      by_cases hplus : c = 43
      · simp only [hplus, or_true, ↓reduceIte] at hbig
        rw [if_pos hplus]
        unfold clampLong
        omega
      · simp only [hc, hplus, or_self, ↓reduceIte] at hbig
        rw [if_neg hplus]
        unfold clampLong
        omega

/-! ### The two paths -/

namespace FragmentSize

variable (o : FragmentSize)

theorem size_fromFile (cfg : Config) (s : List UInt8) : o.size (o.fromFile cfg s) = toUnsigned (strtol s) := by
  rw [← toUnsigned_atoi]
  cases o <;> rfl

/-- A size that the file accepts is one of the numbers up to 1500 modulo `2 ^ 32`. -/
theorem AcceptedFromFile.emod_le {cfg : Config} {s : List UInt8} (h : o.AcceptedFromFile cfg s) :
    1 ≤ strtol s % 2 ^ 32 ∧ strtol s % 2 ^ 32 ≤ 1500 := by
  obtain ⟨hne, hvalid⟩ := h
  have hle : o.size (o.fromFile cfg s) ≤ 1500 := by
    unfold configValidate at hvalid
    split at hvalid
    · cases hvalid
    · rename_i hhttp
      split at hvalid
      · cases hvalid
      · rename_i hhttps
        cases o with
        | http => exact UInt32.not_lt.1 hhttp
        | https => exact UInt32.not_lt.1 hhttps
  rw [o.size_fromFile] at hne hle
  have hnat := toNat_toUnsigned (strtol s)
  rw [← toNat_toUnsigned]
  have hpos : (toUnsigned (strtol s)).toNat ≠ 0 := fun h0 => hne (UInt32.toNat_inj.1 h0)
  have hle' : (toUnsigned (strtol s)).toNat ≤ 1500 := hle
  omega

theorem cliOptions_commandLines (posixlyCorrect : Bool) {s : List UInt8} {args : List (List UInt8)}
    (h : args ∈ o.commandLines s) : cliOptions posixlyCorrect args = [.opt o.cliOption s] := by
  simp only [commandLines, List.mem_cons, List.not_mem_nil, or_false] at h
  rcases h with rfl | rfl
  · cases o <;> rfl
  · cases o <;> rfl

/-- The option refuses the argument, or makes of the configuration what the file makes of it. -/
theorem optionStep_cliOption (files : List UInt8 → Option (List UInt8)) (cfg : Config) (s : List UInt8) :
    optionStep files cfg (.opt o.cliOption s) =
      if strtolEnd s ≠ [] ∨ strtolErange s = true ∨ strtol s < 1 ∨ strtol s > 65535 then .finish (-1) cfg
      else .next (o.fromFile cfg s) := by
  cases o with
  | http =>
    have hfile : fromFile .http cfg s = { cfg with httpFragmentSize := toUnsigned (strtol s) } := by
      rw [← toUnsigned_atoi]
      rfl
    rw [hfile]
    rfl
  | https =>
    have hfile : fromFile .https cfg s = { cfg with httpsFragmentSize := toUnsigned (strtol s) } := by
      rw [← toUnsigned_atoi]
      rfl
    rw [hfile]
    rfl

theorem parseArguments_commandLines (files : List UInt8 → Option (List UInt8)) (posixlyCorrect : Bool) (cfg : Config)
    {s : List UInt8} {args : List (List UInt8)} (h : args ∈ o.commandLines s) :
    parseArguments files posixlyCorrect args cfg =
      if strtolEnd s ≠ [] ∨ strtolErange s = true ∨ strtol s < 1 ∨ strtol s > 65535 then (-1, cfg)
      else (0, o.fromFile cfg s) := by
  unfold parseArguments
  rw [o.cliOptions_commandLines posixlyCorrect h, parseLoop, o.optionStep_cliOption]
  by_cases hbad : strtolEnd s ≠ [] ∨ strtolErange s = true ∨ strtol s < 1 ∨ strtol s > 65535
  · rw [if_pos hbad, if_pos hbad]
  · rw [if_neg hbad, if_neg hbad]
    rfl

/-- Where the file accepts a size, the command line does so too, with the same result, if and only if nothing follows
the number and the number itself lies between 1 and 1500. -/
theorem commandLineAgrees_iff (cfg : Config) (s : List UInt8) (h : o.AcceptedFromFile cfg s) :
    o.CommandLineAgrees cfg s ↔ strtolEnd s = [] ∧ 1 ≤ strtol s ∧ strtol s ≤ 1500 := by
  obtain ⟨hlow, hhigh⟩ := h.emod_le
  constructor
  · intro hagrees
    obtain ⟨hzero, -⟩ := hagrees (fun _ => none) false configInit [o.option, s] (List.mem_cons_self ..)
    rw [o.parseArguments_commandLines _ _ _ (List.mem_cons_self ..)] at hzero
    split at hzero
    · cases hzero
    · rename_i hok
      simp only [not_or, not_not] at hok
      obtain ⟨hend, -, h1, h2⟩ := hok
      exact ⟨hend, by omega, by omega⟩
  · rintro ⟨hend, h1, h2⟩ files posixlyCorrect cfg' args hargs
    have hrange : strtolErange s = false := by
      cases herange : strtolErange s with
      | false => rfl
      | true =>
        rcases strtol_of_erange herange with heq | heq <;> omega
    have hok : ¬ (strtolEnd s ≠ [] ∨ strtolErange s = true ∨ strtol s < 1 ∨ strtol s > 65535) := by
      rw [hrange]
      simp only [hend, ne_eq, not_true_eq_false, Bool.false_eq_true, false_or, not_or]
      omega
    rw [o.parseArguments_commandLines files posixlyCorrect cfg' hargs, if_neg hok]
    exact ⟨rfl, by rw [o.size_fromFile, o.size_fromFile]⟩

end FragmentSize

theorem commandLineAgrees_hundred : FragmentSize.http.CommandLineAgrees configInit (ascii " +100") :=
  (FragmentSize.http.commandLineAgrees_iff configInit (ascii " +100") ⟨by decide, by decide⟩).2 (by decide)

/-- Text after the number, and a number that is 100 only modulo `2 ^ 32`. -/
theorem commandLine_disagrees :
    (FragmentSize.http.AcceptedFromFile configInit (ascii "100abc") ∧
      ¬ FragmentSize.http.CommandLineAgrees configInit (ascii "100abc")) ∧
    FragmentSize.https.AcceptedFromFile configInit (ascii "4294967396") ∧
      ¬ FragmentSize.https.CommandLineAgrees configInit (ascii "4294967396") := by
  refine ⟨⟨⟨by decide, by decide⟩, fun h => ?_⟩, ⟨by decide, by decide⟩, fun h => ?_⟩
  · have hzero := (h (fun _ => none) false configInit _ (List.mem_cons_self ..)).1
    revert hzero
    decide
  · have hzero := (h (fun _ => none) false configInit _ (List.mem_cons_self ..)).1
    revert hzero
    decide

end GoodbyeDpi
