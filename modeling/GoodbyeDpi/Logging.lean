import GoodbyeDpi.Config
import GoodbyeDpi.History

/-!
# Logging (`src/core/logging.c`)

The logger keeps `use_file` and `log_fp` apart: a `logging_init` that names a file sets the one and opens the other,
and `logging_cleanup` closes and clears `log_fp` but leaves `use_file` as it is.  So a message is written to a stream
that is there exactly when no file was ever named, or the latest call that names a file or cleans up is a
`logging_init` that opened its file.
-/

namespace GoodbyeDpi

open CSem History

/-! ### The logger -/

/-- `logging_config_t`; `logFp` is the number of the stream that `fopen` gave. -/
structure LoggingConfig where
  level : Int
  useSyslog : Bool
  useFile : Bool
  logFile : List UInt8
  logFp : Option Nat
  debugEnabled : Bool
deriving DecidableEq, Repr

def logLevelNotice : Int := 5

def logLevelInfo : Int := 6

def logLevelDebug : Int := 7

/-- `sizeof(logging_config.log_file)`. -/
def logFileSize : Nat := 256

/-- The value that `logging_config` is initialized with. -/
def loggingConfigInit : LoggingConfig where
  level := logLevelInfo
  useSyslog := false
  useFile := false
  logFile := List.replicate logFileSize 0
  logFp := none
  debugEnabled := false

/-- The logger together with the streams of `fopen`, which are numbered from 0 on: those that were opened and those
that were closed again. -/
structure LogState where
  config : LoggingConfig
  opened : Nat
  closed : List Nat
deriving DecidableEq, Repr

namespace LogState

def init : LogState := ⟨loggingConfigInit, 0, []⟩

/-- `fopen(log_file, "a")`, which may fail. -/
def fopen (st : LogState) (opens : Bool) : Option Nat × LogState :=
  if opens then (some st.opened, { st with opened := st.opened + 1 }) else (none, st)

def fclose (st : LogState) (n : Nat) : LogState := { st with closed := n :: st.closed }

end LogState

inductive LogStream where
  | stderr
  | file (n : Nat)
deriving DecidableEq, Repr

def LogState.isOpen (st : LogState) : LogStream → Bool
  | .stderr => true
  | .file n => n < st.opened && !st.closed.contains n

/-- Where `log_message` writes a message: the argument of `fprintf` is `none` for a null pointer. -/
inductive LogOutput where
  | syslog
  | stream (fp : Option LogStream)
deriving DecidableEq, Repr

/-- `log_message`; there is no output when the priority does not pass the level test. -/
def logMessage (priority : Int) (st : LogState) : Option LogOutput :=
  if priority > st.config.level then none
  else if st.config.useSyslog then some .syslog
  else some (.stream (if st.config.useFile then st.config.logFp.map LogStream.file else some .stderr))

/-- The part of `logging_init` before the file. -/
def LogState.setOptions (st : LogState) (level : Int) (useSyslog : Bool) : LogState :=
  { st with config := { st.config with
      level := level, useSyslog := useSyslog, debugEnabled := level ≥ logLevelDebug } }

/-- The part of `logging_init` for a file that is named. -/
def LogState.openFile (st : LogState) (name : List UInt8) (opens : Bool) : LogState :=
  let logFile := (strncpy st.config.logFile name (logFileSize - 1)).set (logFileSize - 1) 0
  let opening := ({ st with config := { st.config with logFile := logFile, useFile := true } }).fopen opens
  { opening.2 with config := { opening.2.config with logFp := opening.1 } }

/-- `logging_init`: its result, what it logs itself and the new state.  `logFile` is `none` for a null pointer. -/
def loggingInit (level : Int) (useSyslog : Bool) (logFile : Option (List UInt8)) (opens : Bool) (st : LogState) :
    Int × Option LogOutput × LogState :=
  let st := st.setOptions level useSyslog
  match logFile with
  | none => (0, logMessage logLevelInfo st, st)
  | some name =>
    if 0 < name.length then
      let st := st.openFile name opens
      if st.config.logFp.isNone then (-1, none, st) else (0, logMessage logLevelInfo st, st)
    else (0, logMessage logLevelInfo st, st)

/-- `logging_cleanup`. -/
def loggingCleanup (st : LogState) : LogState :=
  match st.config.useFile, st.config.logFp with
  | true, some n => { st.fclose n with config := { st.config with logFp := none } }
  | _, _ => st

/-- `logging_set_level`. -/
def loggingSetLevel (level : Int) (st : LogState) : LogState :=
  { st with config := { st.config with level := level, debugEnabled := level ≥ logLevelDebug } }

/-- `logging_set_debug`. -/
def loggingSetDebug (enable : Bool) (st : LogState) : LogState :=
  { st with config := { st.config with debugEnabled := enable } }

/-- A call of the logger; for `logging_init` with whether the file can be opened. -/
inductive LogCall where
  | init (level : Int) (useSyslog : Bool) (logFile : Option (List UInt8)) (opens : Bool)
  | setLevel (level : Int)
  | setDebug (enable : Bool)
  | cleanup
  | message (priority : Int)
  -- the macro `log_debug`
  | debug
deriving DecidableEq, Repr

/-- A call: what it logs and the new state. -/
def logStep (st : LogState) : LogCall → Option LogOutput × LogState
  | .init level useSyslog logFile opens => (loggingInit level useSyslog logFile opens st).2
  | .setLevel level => (none, loggingSetLevel level st)
  | .setDebug enable => (none, loggingSetDebug enable st)
  | .cleanup => (none, loggingCleanup st)
  | .message priority => (logMessage priority st, st)
  | .debug => (if st.config.debugEnabled then logMessage logLevelDebug st else none, st)

/-- The state after some calls from the start of the program on. -/
def logAfter (calls : List LogCall) : LogState := calls.foldl (fun st c => (logStep st c).2) .init

/-! ### What a call does to the file -/

namespace LogCall

/-- A `logging_init` with the name of a file. -/
def namesFile : LogCall → Bool
  | init _ _ (some name) _ => 0 < name.length
  | _ => false

/-- A `logging_init` that opens its file. -/
def opensFile : LogCall → Bool
  | init _ _ (some name) opens => 0 < name.length && opens
  | _ => false

/-- The calls after which `log_fp` does not depend on what it was before. -/
def SetsFile (c : LogCall) : Prop := c.namesFile ∨ c = cleanup

/-- With the options before the call, a call of `log_message` passes the level test and syslog is off. -/
def WritesStream (st : LogState) : LogCall → Prop
  | init level useSyslog logFile opens =>
    ((init level useSyslog logFile opens).namesFile → opens) ∧ logLevelInfo ≤ level ∧ useSyslog = false
  | message priority => priority ≤ st.config.level ∧ st.config.useSyslog = false
  | debug => st.config.debugEnabled ∧ logLevelDebug ≤ st.config.level ∧ st.config.useSyslog = false
  | _ => False

theorem namesFile_of_opensFile {c : LogCall} (h : c.opensFile) : c.namesFile := by
  cases c with
  | init level useSyslog logFile opens =>
    cases logFile with
    | none => cases h
    | some name => exact (Bool.and_eq_true_iff.1 h).1
  | _ => cases h

end LogCall

/-- What `log_message` uses as its stream when syslog is off. -/
def LogState.target (st : LogState) : Option LogStream :=
  if st.config.useFile then st.config.logFp.map LogStream.file else some .stderr

theorem logMessage_eq_stream {priority : Int} {st : LogState} {fp : Option LogStream} :
    logMessage priority st = some (.stream fp) ↔
      (priority ≤ st.config.level ∧ st.config.useSyslog = false) ∧ fp = st.target := by
  unfold logMessage
  by_cases hlevel : priority > st.config.level
  · simp [hlevel]
  · cases hsyslog : st.config.useSyslog with
    | true => simp [hlevel]
    | false =>
      simp only [hlevel, if_false, Bool.false_eq_true, LogState.target, Option.some.injEq, LogOutput.stream.injEq]
      simp only [Int.not_lt.1 hlevel, and_self, true_and]
      exact eq_comm

section

variable (level : Int) (useSyslog : Bool) (logFile : Option (List UInt8)) (opens : Bool) (st : LogState)

/-- What `logging_init` can do: it keeps the file, opens one, or fails to open one. -/
theorem loggingInit_cases :
    (¬ (LogCall.init level useSyslog logFile opens).namesFile ∧
      loggingInit level useSyslog logFile opens st =
        (0, logMessage logLevelInfo (st.setOptions level useSyslog), st.setOptions level useSyslog)) ∨
    ∃ name, (LogCall.init level useSyslog logFile opens).namesFile ∧
      (LogCall.init level useSyslog logFile opens).opensFile = opens ∧
      (loggingInit level useSyslog logFile opens st).2 =
        (if opens then logMessage logLevelInfo ((st.setOptions level useSyslog).openFile name opens) else none,
          (st.setOptions level useSyslog).openFile name opens) := by
  cases logFile with
  | none => exact Or.inl ⟨Bool.false_ne_true, rfl⟩
  | some name =>
    by_cases hname : 0 < name.length
    · refine Or.inr ⟨name, decide_eq_true hname, by simp [LogCall.opensFile, hname], ?_⟩
      cases opens <;> simp [loggingInit, LogState.openFile, LogState.fopen, hname]
    · left
      simp [LogCall.namesFile, loggingInit, hname]

theorem setOptions_openFile (name : List UInt8) :
    ((st.setOptions level useSyslog).openFile name opens).config.level = level ∧
      ((st.setOptions level useSyslog).openFile name opens).config.useSyslog = useSyslog ∧
      ((st.setOptions level useSyslog).openFile name opens).config.useFile = true ∧
      ((st.setOptions level useSyslog).openFile name opens).config.logFp = (if opens then some st.opened else none) ∧
      ((st.setOptions level useSyslog).openFile name opens).opened = (if opens then st.opened + 1 else st.opened) ∧
      ((st.setOptions level useSyslog).openFile name opens).closed = st.closed := by
  cases opens <;> exact ⟨rfl, rfl, rfl, rfl, rfl, rfl⟩

theorem loggingInit_options :
    (loggingInit level useSyslog logFile opens st).2.2.config.level = level ∧
      (loggingInit level useSyslog logFile opens st).2.2.config.useSyslog = useSyslog := by
  rcases loggingInit_cases level useSyslog logFile opens st with ⟨-, heq⟩ | ⟨name, -, -, heq⟩
  · rw [heq]
    exact ⟨rfl, rfl⟩
  · obtain ⟨hlevel, hsyslog, -⟩ := setOptions_openFile level useSyslog opens st name
    rw [heq]
    exact ⟨hlevel, hsyslog⟩

end

/-- The file after a call: a stream that was just opened, none after a failed `fopen` or a cleanup, else as before. -/
theorem logStep_file (st : LogState) (c : LogCall) :
    (c.opensFile ∧ (logStep st c).2.config.useFile = true ∧ (logStep st c).2.config.logFp = some st.opened ∧
      (logStep st c).2.opened = st.opened + 1 ∧ (logStep st c).2.closed = st.closed) ∨
    (c.namesFile ∧ ¬ c.opensFile ∧ (logStep st c).2.config.useFile = true ∧ (logStep st c).2.config.logFp = none ∧
      (logStep st c).2.opened = st.opened ∧ (logStep st c).2.closed = st.closed) ∨
    (c = .cleanup ∧ (logStep st c).2 = loggingCleanup st) ∨
    (¬ c.SetsFile ∧ (logStep st c).2.config.useFile = st.config.useFile ∧
      (logStep st c).2.config.logFp = st.config.logFp ∧ (logStep st c).2.opened = st.opened ∧
      (logStep st c).2.closed = st.closed) := by
  cases c with
  | init level useSyslog logFile opens =>
    rcases loggingInit_cases level useSyslog logFile opens st with ⟨hnames, heq⟩ | ⟨name, hnames, hopens, heq⟩
    · refine Or.inr (Or.inr (Or.inr ⟨?_, ?_⟩))
      · rintro (h | h)
        · exact hnames h
        · cases h
      · rw [logStep, heq]
        exact ⟨rfl, rfl, rfl, rfl⟩
    · obtain ⟨-, -, hfile, hfp, hopened, hclosed⟩ := setOptions_openFile level useSyslog opens st name
      rw [logStep, heq, hopens]
      cases opens with
      | true => exact Or.inl ⟨rfl, hfile, hfp, hopened, hclosed⟩
      | false => exact Or.inr (Or.inl ⟨hnames, Bool.false_ne_true, hfile, hfp, hopened, hclosed⟩)
  | cleanup => exact Or.inr (Or.inr (Or.inl ⟨rfl, rfl⟩))
  | setLevel level => simp [logStep, loggingSetLevel, LogCall.SetsFile, LogCall.namesFile]
  | setDebug enable => simp [logStep, loggingSetDebug, LogCall.SetsFile, LogCall.namesFile]
  | message priority => simp [logStep, LogCall.SetsFile, LogCall.namesFile]
  | debug => simp [logStep, LogCall.SetsFile, LogCall.namesFile]

/-- The stream that a call writes to is the one in use after it. -/
theorem logStep_output {st : LogState} {c : LogCall} {fp : Option LogStream} :
    (logStep st c).1 = some (.stream fp) ↔ c.WritesStream st ∧ fp = (logStep st c).2.target := by
  cases c with
  | init level useSyslog logFile opens =>
    change (loggingInit level useSyslog logFile opens st).2.1 = _ ↔ (((LogCall.init level useSyslog logFile
      opens).namesFile → opens) ∧ logLevelInfo ≤ level ∧ useSyslog = false) ∧
        fp = (loggingInit level useSyslog logFile opens st).2.2.target
    rcases loggingInit_cases level useSyslog logFile opens st with ⟨hnames, heq⟩ | ⟨name, hnames, -, heq⟩
    · rw [heq, logMessage_eq_stream, and_iff_right (fun h => absurd h hnames)]
      exact Iff.rfl
    · obtain ⟨hlevel, hsyslog, -⟩ := setOptions_openFile level useSyslog opens st name
      rw [heq, imp_iff_right hnames]
      cases opens with
      | true => rw [if_pos rfl, logMessage_eq_stream, hlevel, hsyslog, and_iff_right rfl]
      | false => simp
  | cleanup => simp [logStep, LogCall.WritesStream]
  | setLevel level => simp [logStep, LogCall.WritesStream]
  | setDebug enable => simp [logStep, LogCall.WritesStream]
  | message priority => exact logMessage_eq_stream
  | debug =>
    simp only [logStep, LogCall.WritesStream]
    cases st.config.debugEnabled with
    | true => simpa using logMessage_eq_stream
    | false => simp

/-! ### Whole runs -/

/-- What the calls so far say about the file. -/
structure FileHistory (calls : List LogCall) (st : LogState) : Prop where
  named : st.config.useFile = true ↔ ∃ c ∈ calls, c.namesFile
  current : st.config.logFp.isSome ↔ LatestMeets LogCall.SetsFile (fun c => c.opensFile) calls
  isOpen : ∀ n ∈ st.config.logFp, n < st.opened ∧ n ∉ st.closed
  closed_lt : ∀ n ∈ st.closed, n < st.opened

namespace FileHistory

variable {calls : List LogCall} {st : LogState} {c : LogCall}

theorem named_append (h : FileHistory calls st) :
    (st.config.useFile = true ∨ c.namesFile) ↔ ∃ d ∈ calls ++ [c], d.namesFile := by
  rw [h.named]
  simp [or_and_right, exists_or]

/-- Without a name there is no stream. -/
theorem logFp_of_not_useFile (h : FileHistory calls st) (hfile : st.config.useFile = false) :
    st.config.logFp = none := by
  by_contra hfp
  obtain ⟨pre, c, post, hlatest, hopens⟩ := h.current.1 (Option.isSome_iff_ne_none.2 hfp)
  have hmem : c ∈ calls := by simp [hlatest.split]
  rw [h.named.2 ⟨c, hmem, c.namesFile_of_opensFile hopens⟩] at hfile
  cases hfile

theorem cleanup (h : FileHistory calls st) : FileHistory (calls ++ [.cleanup]) (loggingCleanup st) := by
  have hsets : LogCall.SetsFile .cleanup := Or.inr rfl
  have hnamed := h.named_append (c := .cleanup)
  have hcurrent : LatestMeets LogCall.SetsFile (fun c => c.opensFile) (calls ++ [.cleanup]) ↔ _ :=
    latestMeets_append_of_kind hsets
  cases hfp : st.config.logFp with
  | none =>
    have hsame : loggingCleanup st = st := by
      unfold loggingCleanup
      rw [hfp]
      cases st.config.useFile <;> rfl
    rw [hsame]
    refine ⟨?_, ?_, h.isOpen, h.closed_lt⟩
    · rw [← hnamed]
      simp [LogCall.namesFile]
    · rw [hcurrent, hfp]
      simp [LogCall.opensFile]
  | some n =>
    have hfile : st.config.useFile = true := by
      by_contra hfile
      rw [h.logFp_of_not_useFile (by simpa using hfile)] at hfp
      cases hfp
    have hclosed : loggingCleanup st = { st.fclose n with config := { st.config with logFp := none } } := by
      unfold loggingCleanup
      rw [hfp, hfile]
    rw [hclosed]
    refine ⟨?_, ?_, ?_, ?_⟩
    · rw [← hnamed]
      simp [LogCall.namesFile]
    · rw [hcurrent]
      simp [LogCall.opensFile]
    · intro m hm
      cases hm
    · intro m hm
      rcases List.mem_cons.1 hm with rfl | hm
      · exact (h.isOpen m hfp).1
      · exact h.closed_lt m hm

theorem step (h : FileHistory calls st) : FileHistory (calls ++ [c]) (logStep st c).2 := by
  rcases logStep_file st c with ⟨hopens, hfile, hfp, hopened, hclosed⟩ |
    ⟨hnames, hfails, hfile, hfp, hopened, hclosed⟩ | ⟨rfl, hst⟩ | ⟨hother, hfile, hfp, hopened, hclosed⟩
  · have hnames := c.namesFile_of_opensFile hopens
    refine ⟨?_, ?_, ?_, ?_⟩
    · rw [← h.named_append, hfile]
      simp [hnames]
    · rw [latestMeets_append_of_kind (P := LogCall.SetsFile) (Or.inl hnames), hfp]
      simp [hopens]
    · rw [hfp, hopened, hclosed]
      intro n hn
      cases hn
      -- the new stream is not among the closed ones, which are older
      exact ⟨Nat.lt_succ_self _, fun hmem => Nat.lt_irrefl _ (h.closed_lt _ hmem)⟩
    · rw [hopened, hclosed]
      intro n hn
      exact Nat.lt_succ_of_lt (h.closed_lt n hn)
  · refine ⟨?_, ?_, ?_, ?_⟩
    · rw [← h.named_append, hfile]
      simp [hnames]
    · rw [latestMeets_append_of_kind (P := LogCall.SetsFile) (Or.inl hnames), hfp]
      simp [hfails]
    · rw [hfp]
      intro n hn
      cases hn
    · rw [hopened, hclosed]
      exact h.closed_lt
  · rw [hst]
    exact h.cleanup
  · have hnames : ¬ c.namesFile := fun hnames => hother (Or.inl hnames)
    refine ⟨?_, ?_, ?_, ?_⟩
    · rw [← h.named_append, hfile]
      simp [hnames]
    · rw [latestMeets_append_of_not_kind hother, hfp, h.current]
    · rw [hfp, hopened, hclosed]
      exact h.isOpen
    · rw [hopened, hclosed]
      exact h.closed_lt

end FileHistory

theorem fileHistory_logAfter (calls : List LogCall) : FileHistory calls (logAfter calls) := by
  induction calls using List.reverseRecOn with
  | nil =>
    refine ⟨by simp [logAfter, LogState.init, loggingConfigInit], ?_, ?_, ?_⟩
    · simp [not_latestMeets_nil, logAfter, LogState.init, loggingConfigInit]
    · simp [logAfter, LogState.init, loggingConfigInit]
    · simp [logAfter, LogState.init]
  | append_singleton calls c ih =>
    have hstep := ih.step (c := c)
    rwa [logAfter, List.foldl_append]

/-- The file is usable after some calls: none was ever named, or the latest call that names one or cleans up is a
`logging_init` that opened it. -/
def FileUsable (calls : List LogCall) : Prop :=
  (∀ c ∈ calls, ¬ c.namesFile) ∨ LatestMeets LogCall.SetsFile (fun c => c.opensFile) calls

/-- The stream in use is there exactly when the file is usable. -/
theorem target_isOpen_iff {calls : List LogCall} {st : LogState} (h : FileHistory calls st) :
    (∃ s ∈ st.target, st.isOpen s) ↔ FileUsable calls := by
  unfold FileUsable
  rw [← h.current]
  cases hfile : st.config.useFile with
  | false =>
    have hnone : ∀ c ∈ calls, ¬ c.namesFile := by
      intro c hc hnames
      rw [h.named.2 ⟨c, hc, hnames⟩] at hfile
      cases hfile
    have hstderr : st.target = some .stderr := by simp [LogState.target, hfile]
    rw [hstderr]
    exact iff_of_true ⟨.stderr, rfl, rfl⟩ (Or.inl hnone)
  | true =>
    obtain ⟨c, hc, hnames⟩ := h.named.1 hfile
    have hsome : ¬ ∀ c ∈ calls, ¬ c.namesFile := fun hnone => hnone c hc hnames
    cases hfp : st.config.logFp with
    | none =>
      have hnull : st.target = none := by simp [LogState.target, hfile, hfp]
      rw [hnull, or_iff_right hsome]
      simp
    | some n =>
      have hopen := h.isOpen n hfp
      have hopened : st.target = some (.file n) := by simp [LogState.target, hfile, hfp]
      rw [hopened]
      exact iff_of_true ⟨.file n, rfl, by simp [LogState.isOpen, hopen]⟩ (Or.inr rfl)

/-- In every run, the stream of every message that passes the level test with syslog off is there and open, exactly
when the file is usable at each of these messages. -/
theorem log_streams_open_iff (calls : List LogCall) :
    (∀ pre c post, calls = pre ++ c :: post → ∀ fp, (logStep (logAfter pre) c).1 = some (.stream fp) →
      ∃ s, fp = some s ∧ (logStep (logAfter pre) c).2.isOpen s) ↔
    ∀ pre c post, calls = pre ++ c :: post → c.WritesStream (logAfter pre) → FileUsable (pre ++ [c]) := by
  refine forall_congr' fun pre => forall_congr' fun c => forall_congr' fun post => imp_congr_right fun _ => ?_
  have husable := target_isOpen_iff ((fileHistory_logAfter pre).step (c := c))
  constructor
  · intro h hwrites
    rw [← husable]
    exact h _ (logStep_output.2 ⟨hwrites, rfl⟩)
  · intro h fp hfp
    obtain ⟨hwrites, rfl⟩ := logStep_output.1 hfp
    exact husable.2 (h hwrites)

/-! ### The calls of `main` -/

/-- The level that `main` chooses. -/
def mainLogLevel (cfg : Config) : Int :=
  if cfg.debugMode then logLevelDebug else if cfg.verboseMode then logLevelInfo else logLevelNotice

/-- The call of `logging_init` in `main`. -/
def mainLoggingInit (cfg : Config) (opens : Bool) : LogCall :=
  .init (mainLogLevel cfg) cfg.systemdMode (if cfg.logFile.headD 0 ≠ 0 then some (cstr cfg.logFile) else none) opens

/-- The calls of `main` up to `logging_cleanup`, with those of the main loop between; after them `main` calls `log_info`
once more. -/
def mainLogCalls (cfg : Config) (opens : Bool) (between : List LogCall) : List LogCall :=
  mainLoggingInit cfg opens :: between ++ [.cleanup]

/-- The calls that are made outside `main` itself. -/
def LogCall.isInner : LogCall → Bool
  | setDebug _ => true
  | message _ => true
  | debug => true
  | _ => false

theorem logStep_options_of_isInner (st : LogState) {c : LogCall} (h : c.isInner) :
    (logStep st c).2.config.level = st.config.level ∧ (logStep st c).2.config.useSyslog = st.config.useSyslog := by
  cases c with
  | setDebug enable => exact ⟨rfl, rfl⟩
  | message priority => exact ⟨rfl, rfl⟩
  | debug => exact ⟨rfl, rfl⟩
  | _ => cases h

theorem foldl_options_of_isInner (between : List LogCall) (h : ∀ c ∈ between, c.isInner) (st : LogState) :
    (between.foldl (fun st c => (logStep st c).2) st).config.level = st.config.level ∧
      (between.foldl (fun st c => (logStep st c).2) st).config.useSyslog = st.config.useSyslog := by
  induction between generalizing st with
  | nil => exact ⟨rfl, rfl⟩
  | cons c between ih =>
    obtain ⟨hlevel, hsyslog⟩ := logStep_options_of_isInner st (h c List.mem_cons_self)
    obtain ⟨hlevel', hsyslog'⟩ := ih (fun d hd => h d (List.mem_cons_of_mem c hd)) (logStep st c).2
    exact ⟨hlevel'.trans hlevel, hsyslog'.trans hsyslog⟩

theorem loggingCleanup_options (st : LogState) :
    (loggingCleanup st).config.level = st.config.level ∧
      (loggingCleanup st).config.useSyslog = st.config.useSyslog := by
  unfold loggingCleanup
  split
  · exact ⟨rfl, rfl⟩
  · exact ⟨rfl, rfl⟩

theorem logAfter_mainLogCalls (cfg : Config) (opens : Bool) {between : List LogCall}
    (h : ∀ c ∈ between, c.isInner) :
    (logAfter (mainLogCalls cfg opens between)).config.level = mainLogLevel cfg ∧
      (logAfter (mainLogCalls cfg opens between)).config.useSyslog = cfg.systemdMode := by
  obtain ⟨hlevel, hsyslog⟩ := loggingInit_options (mainLogLevel cfg) cfg.systemdMode
    (if cfg.logFile.headD 0 ≠ 0 then some (cstr cfg.logFile) else none) opens .init
  obtain ⟨hlevel', hsyslog'⟩ := foldl_options_of_isInner between h (logStep .init (mainLoggingInit cfg opens)).2
  unfold logAfter mainLogCalls
  rw [List.cons_append, List.foldl_cons, List.foldl_append]
  obtain ⟨hlevel'', hsyslog''⟩ := loggingCleanup_options
    (between.foldl (fun st c => (logStep st c).2) (logStep .init (mainLoggingInit cfg opens)).2)
  exact ⟨hlevel''.trans (hlevel'.trans hlevel), hsyslog''.trans (hsyslog'.trans hsyslog)⟩

theorem logLevelInfo_le_mainLogLevel (cfg : Config) :
    logLevelInfo ≤ mainLogLevel cfg ↔ cfg.debugMode = true ∨ cfg.verboseMode = true := by
  unfold mainLogLevel
  cases cfg.debugMode <;> cases cfg.verboseMode <;> decide

theorem mainLoggingInit_namesFile (cfg : Config) (opens : Bool) :
    (mainLoggingInit cfg opens).namesFile ↔ cfg.logFile.headD 0 ≠ 0 := by
  unfold mainLoggingInit
  cases cfg.logFile with
  | nil => simp [LogCall.namesFile]
  | cons b bytes =>
    by_cases hb : b = 0
    · simp [LogCall.namesFile, hb]
    · simp [LogCall.namesFile, hb, cstr_cons]

/-- The last message of `main` is lost exactly when it passes the level test, syslog is off and there is a log file,
which is closed by then. -/
theorem main_shutdown_message (cfg : Config) (opens : Bool) {between : List LogCall}
    (h : ∀ c ∈ between, c.isInner) :
    (∃ fp, (logStep (logAfter (mainLogCalls cfg opens between)) (.message logLevelInfo)).1 = some (.stream fp) ∧
      ¬ ∃ s ∈ fp, (logAfter (mainLogCalls cfg opens between)).isOpen s) ↔
    (cfg.debugMode = true ∨ cfg.verboseMode = true) ∧ cfg.systemdMode = false ∧ cfg.logFile.headD 0 ≠ 0 := by
  obtain ⟨hlevel, hsyslog⟩ := logAfter_mainLogCalls cfg opens h
  have husable := target_isOpen_iff (fileHistory_logAfter (mainLogCalls cfg opens between))
  have hcleanup : ¬ LatestMeets LogCall.SetsFile (fun c => c.opensFile) (mainLogCalls cfg opens between) := by
    rw [mainLogCalls, latestMeets_append_of_kind (P := LogCall.SetsFile) (Or.inr rfl)]
    simp [LogCall.opensFile]
  have hbetween : ∀ c ∈ between, ¬ c.namesFile := by
    intro c hc hnames
    have hinner := h c hc
    cases c with
    | init level useSyslog logFile opens => cases hinner
    | _ => cases hnames
  have hnamed : ¬ FileUsable (mainLogCalls cfg opens between) ↔ cfg.logFile.headD 0 ≠ 0 := by
    unfold FileUsable
    rw [or_iff_left hcleanup, ← mainLoggingInit_namesFile cfg opens, not_iff_comm]
    simp only [mainLogCalls, List.cons_append, List.forall_mem_cons, List.forall_mem_append]
    constructor
    · intro hinit
      exact ⟨hinit, hbetween, by decide⟩
    · exact fun hall => hall.1
  simp only [logStep_output, LogCall.WritesStream, hlevel, hsyslog, logLevelInfo_le_mainLogLevel]
  rw [← hnamed, ← husable]
  constructor
  · rintro ⟨fp, ⟨hwrites, rfl⟩, hlost⟩
    exact ⟨hwrites.1, hwrites.2, hlost⟩
  · rintro ⟨hloud, hsyslog, hlost⟩
    exact ⟨_, ⟨⟨hloud, hsyslog⟩, rfl⟩, hlost⟩

/-- The default configuration with `--verbose`; it has a log file. -/
def verboseConfig : Config := { configInit with verboseMode := true }

/-- A verbose run without syslog: after the cleanup `main` writes its last message to a null pointer. -/
theorem verbose_shutdown_not_open :
    ¬ ∀ pre c post, mainLogCalls verboseConfig true [] ++ [.message logLevelInfo] = pre ++ c :: post →
      ∀ fp, (logStep (logAfter pre) c).1 = some (.stream fp) →
        ∃ s, fp = some s ∧ (logStep (logAfter pre) c).2.isOpen s := by
  intro h
  obtain ⟨s, hs, -⟩ := h (mainLogCalls verboseConfig true []) (.message logLevelInfo) [] rfl none (by decide +kernel)
  cases hs

end GoodbyeDpi
