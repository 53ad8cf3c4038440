import GoodbyeDpi.CSem.Getopt
import GoodbyeDpi.Config
import GoodbyeDpi.Firewall
import GoodbyeDpi.History

/-!
# The command line (`src/main.c`)

`parse_arguments` asks `getopt_long` for one option after the other and stores what it says in the configuration;
`config_validate` then checks the result.  The configuration that passes both is the one `main` goes on with.
-/

namespace GoodbyeDpi

open CSem

/-! ### Options -/

/-- The options of the command line; `mode` has the digit of a legacy mode. -/
inductive CliOption where
  | help
  | version
  | daemon
  | config
  | pidfile
  | logfile
  | verbose
  | mode (digit : Nat)
  | debug
  | syslog
  | fragmentHttp
  | fragmentHttps
  | nativeFrag
  | reverseFrag
  | hostMixedcase
  | additionalSpace
  | hostRemovespace
  | dnsRedirectV4
  | dnsRedirectV6
  | dnsPort
  | queueNum
deriving DecidableEq, Repr

/-- The `optstring` `hVdc:p:l:v123456789`. -/
def cliShortOptions : List (ShortOption CliOption) :=
  [⟨104, false, .help⟩, ⟨86, false, .version⟩, ⟨100, false, .daemon⟩, ⟨99, true, .config⟩, ⟨112, true, .pidfile⟩,
    ⟨108, true, .logfile⟩, ⟨118, false, .verbose⟩] ++
  (List.range 9).map fun n => ⟨UInt8.ofNat (49 + n), false, .mode (n + 1)⟩

/-- `long_options`. -/
def cliLongOptions : List (LongOption CliOption) :=
  [⟨ascii "help", false, .help⟩,
    ⟨ascii "version", false, .version⟩,
    ⟨ascii "daemon", false, .daemon⟩,
    ⟨ascii "config", true, .config⟩,
    ⟨ascii "pidfile", true, .pidfile⟩,
    ⟨ascii "logfile", true, .logfile⟩,
    ⟨ascii "verbose", false, .verbose⟩,
    ⟨ascii "debug", false, .debug⟩,
    ⟨ascii "syslog", false, .syslog⟩,
    ⟨ascii "fragment-http", true, .fragmentHttp⟩,
    ⟨ascii "fragment-https", true, .fragmentHttps⟩,
    ⟨ascii "native-frag", false, .nativeFrag⟩,
    ⟨ascii "reverse-frag", false, .reverseFrag⟩,
    ⟨ascii "host-mixedcase", false, .hostMixedcase⟩,
    ⟨ascii "additional-space", false, .additionalSpace⟩,
    ⟨ascii "host-removespace", false, .hostRemovespace⟩,
    ⟨ascii "dns-redirect-v4", true, .dnsRedirectV4⟩,
    ⟨ascii "dns-redirect-v6", true, .dnsRedirectV6⟩,
    ⟨ascii "dns-port", true, .dnsPort⟩,
    ⟨ascii "queue-num", true, .queueNum⟩]

/-- `config_apply_legacy_mode`. -/
def configApplyLegacyMode (mode : Nat) (cfg : Config) : Int × Config :=
  match mode with
  | 1 =>
    (0, { cfg with
      hostMixedcase := true, hostRemovespace := true, httpFragmentSize := 2, httpsFragmentSize := 2
      nativeFragmentation := true, reverseFragmentation := false, fragmentHttpPersistent := true
      fragmentHttpPersistentNowait := true })
  | 2 =>
    (0, { cfg with
      hostMixedcase := true, hostRemovespace := true, httpFragmentSize := 2, httpsFragmentSize := 40
      nativeFragmentation := true, reverseFragmentation := false, fragmentHttpPersistent := true
      fragmentHttpPersistentNowait := true })
  | 5 =>
    (0, { cfg with
      httpFragmentSize := 2, httpsFragmentSize := 2, nativeFragmentation := true, reverseFragmentation := true
      autoTtl := true, fakePacket := true, maxPayloadSize := 1200 })
  | 6 =>
    (0, { cfg with
      httpFragmentSize := 2, httpsFragmentSize := 2, nativeFragmentation := true, reverseFragmentation := true
      wrongSequence := true, fakePacket := true, maxPayloadSize := 1200 })
  | 7 =>
    (0, { cfg with
      httpFragmentSize := 2, httpsFragmentSize := 2, nativeFragmentation := true, reverseFragmentation := true
      wrongChecksum := true, fakePacket := true, maxPayloadSize := 1200 })
  | 9 =>
    (0, { cfg with
      httpFragmentSize := 2, httpsFragmentSize := 2, nativeFragmentation := true, reverseFragmentation := true
      wrongSequence := true, wrongChecksum := true, fakePacket := true, blockQuic := true, maxPayloadSize := 1200 })
  | _ => (-1, cfg)

/-- What a `case` of the `switch` does: go on with a configuration, or return. -/
inductive OptionStep where
  | next (cfg : Config)
  | finish (result : Int) (cfg : Config)
deriving DecidableEq, Repr

/-- An option with a number: `strtol` has to read the whole argument, and the number has to be between `lo` and
`hi`. -/
def numberOption (lo hi : Int) (cfg : Config) (optarg : List UInt8) (set : Int → Config) : OptionStep :=
  if strtolEnd optarg ≠ [] ∨ strtolErange optarg = true ∨ strtol optarg < lo ∨ strtol optarg > hi then .finish (-1) cfg
  else .next (set (strtol optarg))

/-- An option with a string for a `char` array of `size` bytes. -/
def textOption (size : Nat) (cfg : Config) (optarg : List UInt8) (old : List UInt8) (set : List UInt8 → Config) :
    OptionStep :=
  if size ≤ optarg.length then .finish (-1) cfg
  else .next (set ((strncpy old optarg (size - 1)).set (size - 1) 0))

/-- `--config`; `files` gives the content of the files that can be opened. -/
def configOption (files : List UInt8 → Option (List UInt8)) (cfg : Config) (optarg : List UInt8) : OptionStep :=
  if (configLoadFile (files optarg) cfg).1 < 0 then .finish (-1) (configLoadFile (files optarg) cfg).2
  else .next (configLoadFile (files optarg) cfg).2

/-- The `switch` of `parse_arguments`. -/
def optionStep (files : List UInt8 → Option (List UInt8)) (cfg : Config) : OptResult CliOption → OptionStep
  | .question => .finish (-1) cfg
  | .opt val optarg =>
    match val with
    | .help => .finish 1 cfg
    | .version => .finish 1 cfg
    | .daemon => .next { cfg with daemonMode := true }
    | .config => configOption files cfg optarg
    | .pidfile => textOption 256 cfg optarg cfg.pidFile fun s => { cfg with pidFile := s }
    | .logfile => textOption 256 cfg optarg cfg.logFile fun s => { cfg with logFile := s }
    | .verbose => .next { cfg with verboseMode := true }
    -- the modes 3, 4 and 8 have no case of their own, and the result for the others is not looked at
    | .mode digit =>
      if digit ∈ [1, 2, 5, 6, 7, 9] then .next (configApplyLegacyMode digit cfg).2 else .next cfg
    | .debug => .next { cfg with debugMode := true }
    | .syslog => .next { cfg with systemdMode := true }
    | .fragmentHttp => numberOption 1 65535 cfg optarg fun n => { cfg with httpFragmentSize := toUnsigned n }
    | .fragmentHttps => numberOption 1 65535 cfg optarg fun n => { cfg with httpsFragmentSize := toUnsigned n }
    | .nativeFrag => .next { cfg with nativeFragmentation := true }
    | .reverseFrag => .next { cfg with reverseFragmentation := true }
    | .hostMixedcase => .next { cfg with hostMixedcase := true }
    | .additionalSpace => .next { cfg with additionalSpace := true }
    | .hostRemovespace => .next { cfg with hostRemovespace := true }
    | .dnsRedirectV4 =>
      textOption inet6Addrstrlen cfg optarg cfg.dnsServerV4 fun s =>
        { cfg with dnsRedirectIpv4 := true, dnsServerV4 := s }
    | .dnsRedirectV6 =>
      textOption inet6Addrstrlen cfg optarg cfg.dnsServerV6 fun s =>
        { cfg with dnsRedirectIpv6 := true, dnsServerV6 := s }
    | .dnsPort =>
      numberOption 1 65535 cfg optarg fun n =>
        { cfg with dnsPortV4 := UInt16.ofNat n.toNat, dnsPortV6 := UInt16.ofNat n.toNat }
    | .queueNum => numberOption 0 65535 cfg optarg fun n => { cfg with nfqueueNum := UInt16.ofNat n.toNat }

/-- The loop of `parse_arguments` over the results of `getopt_long`. -/
def parseLoop (files : List UInt8 → Option (List UInt8)) : List (OptResult CliOption) → Config → Int × Config
  | [], cfg => (0, cfg)
  | r :: rs, cfg =>
    match optionStep files cfg r with
    | .finish result cfg' => (result, cfg')
    | .next cfg' => parseLoop files rs cfg'

/-- The options of a command line. -/
def cliOptions (posixlyCorrect : Bool) (args : List (List UInt8)) : List (OptResult CliOption) :=
  getoptLong cliShortOptions cliLongOptions posixlyCorrect args

/-- `parse_arguments`: the result and the configuration. -/
def parseArguments (files : List UInt8 → Option (List UInt8)) (posixlyCorrect : Bool) (args : List (List UInt8))
    (cfg : Config) : Int × Config := parseLoop files (cliOptions posixlyCorrect args) cfg

/-- `config_validate`. -/
def configValidate (cfg : Config) : Int :=
  if cfg.httpFragmentSize > 1500 then -1
  else if cfg.httpsFragmentSize > 1500 then -1
  else if cfg.ttlOfFakePacket = 0 ∨ cfg.ttlOfFakePacket.toNat > 255 then -1
  else if cfg.dnsRedirectIpv4 ∧ (cstr cfg.dnsServerV4).length = 0 then -1
  else if cfg.dnsRedirectIpv6 ∧ (cstr cfg.dnsServerV6).length = 0 then -1
  else if cfg.dnsPortV4 = 0 ∨ cfg.dnsPortV4.toNat > 65535 then -1
  else if cfg.dnsPortV6 = 0 ∨ cfg.dnsPortV6.toNat > 65535 then -1
  else 0

/-- The configuration with which `main` goes on after parsing and validation. -/
def mainConfig (files : List UInt8 → Option (List UInt8)) (posixlyCorrect : Bool) (args : List (List UInt8)) :
    Option Config :=
  if (parseArguments files posixlyCorrect args configInit).1 ≠ 0 then none
  else if configValidate (parseArguments files posixlyCorrect args configInit).2 < 0 then none
  else some (parseArguments files posixlyCorrect args configInit).2

/-- The queue number that `main` passes to `netfilter_init`. -/
def netfilterQueue (cfg : Config) : Nat := cfg.nfqueueNum.toNat

example : cliOptions false [ascii "-dp", ascii "/tmp/x", ascii "file", ascii "--queue=7", ascii "--", ascii "-h"] =
    [.opt .daemon [], .opt .pidfile (ascii "/tmp/x"), .opt .queueNum (ascii "7")] := by decide

example : cliOptions false [ascii "--fragment", ascii "2"] = [.question] := by decide

/-! ### The queue number -/

section

open History

variable {files : List UInt8 → Option (List UInt8)} {cfg cfg' : Config} {r : OptResult CliOption}
  {rs : List (OptResult CliOption)}

/-- The option sets the queue number. -/
def IsQueueNum : OptResult CliOption → Prop
  | .opt .queueNum _ => True
  | _ => False

theorem isQueueNum_iff : IsQueueNum r ↔ ∃ optarg, r = .opt .queueNum optarg := by
  constructor
  · intro h
    cases r with
    | question => exact h.elim
    | opt val optarg => cases val <;> first | exact ⟨optarg, rfl⟩ | exact h.elim
  · rintro ⟨optarg, rfl⟩
    exact trivial

theorem nfqueueNum_configSetValue (cfg : Config) (key value : List UInt8) :
    (configSetValue cfg key value).2.nfqueueNum = cfg.nfqueueNum := by
  unfold configSetValue
  cases configKey? key with
  | none => rfl
  | some k => cases k <;> rfl

/-- No key of a configuration file sets the queue number. -/
theorem nfqueueNum_configLoadFile (file : Option (List UInt8)) (cfg : Config) :
    (configLoadFile file cfg).2.nfqueueNum = cfg.nfqueueNum := by
  have hlines : ∀ (lines : List (List UInt8)) (cfg : Config),
      (configLoadLines lines cfg).2.nfqueueNum = cfg.nfqueueNum := by
    intro lines
    induction lines with
    | nil => exact fun _ => rfl
    | cons line lines ih =>
      intro cfg
      rw [configLoadLines]
      split
      · rw [ih, nfqueueNum_configSetValue]
      · rfl
      · rw [ih]
  cases file with
  | none => rfl
  | some bytes => exact hlines _ cfg

theorem nfqueueNum_configApplyLegacyMode (mode : Nat) (cfg : Config) :
    (configApplyLegacyMode mode cfg).2.nfqueueNum = cfg.nfqueueNum := by
  unfold configApplyLegacyMode
  split <;> rfl

/-- A step that goes on does so with a configuration in `Q`, and one that returns does not return 0. -/
def OptionStep.Meets (Q : Config → Prop) : OptionStep → Prop
  | next cfg => Q cfg
  | finish result _ => result ≠ 0

theorem meets_numberOption {lo hi : Int} {optarg : List UInt8} {set : Int → Config} {Q : Config → Prop}
    (h : lo ≤ strtol optarg → strtol optarg ≤ hi → Q (set (strtol optarg))) :
    (numberOption lo hi cfg optarg set).Meets Q := by
  unfold numberOption
  split
  · exact (by decide : (-1 : Int) ≠ 0)
  · rename_i hok
    exact h (by omega) (by omega)

theorem meets_textOption {size : Nat} {optarg old : List UInt8} {set : List UInt8 → Config} {Q : Config → Prop}
    (h : ∀ s, Q (set s)) : (textOption size cfg optarg old set).Meets Q := by
  unfold textOption
  split
  · exact (by decide : (-1 : Int) ≠ 0)
  · exact h _

theorem meets_configOption {optarg : List UInt8} {Q : Config → Prop} (h : Q (configLoadFile (files optarg) cfg).2) :
    (configOption files cfg optarg).Meets Q := by
  unfold configOption
  split
  · exact (by decide : (-1 : Int) ≠ 0)
  · exact h

/-- `--queue-num` sets the queue number. -/
theorem meets_queueNum (files : List UInt8 → Option (List UInt8)) (cfg : Config) (optarg : List UInt8) :
    (optionStep files cfg (.opt .queueNum optarg)).Meets fun cfg' =>
      0 ≤ strtol optarg ∧ strtol optarg ≤ 65535 ∧ cfg'.nfqueueNum = UInt16.ofNat (strtol optarg).toNat := by
  rw [optionStep]
  apply meets_numberOption
  intro h0 h1
  exact ⟨h0, h1, rfl⟩

/-- No other option changes it. -/
theorem meets_other (files : List UInt8 → Option (List UInt8)) (cfg : Config) (hr : ¬ IsQueueNum r) :
    (optionStep files cfg r).Meets fun cfg' => cfg'.nfqueueNum = cfg.nfqueueNum := by
  cases r with
  | question => exact (by decide : (-1 : Int) ≠ 0)
  | opt val optarg =>
    cases val with
    | help => exact (by decide : (1 : Int) ≠ 0)
    | version => exact (by decide : (1 : Int) ≠ 0)
    | config =>
      rw [optionStep]
      exact meets_configOption (nfqueueNum_configLoadFile _ cfg)
    | pidfile =>
      rw [optionStep]
      exact meets_textOption fun s => rfl
    | logfile =>
      rw [optionStep]
      exact meets_textOption fun s => rfl
    | dnsRedirectV4 =>
      rw [optionStep]
      exact meets_textOption fun s => rfl
    | dnsRedirectV6 =>
      rw [optionStep]
      exact meets_textOption fun s => rfl
    | fragmentHttp =>
      rw [optionStep]
      exact meets_numberOption fun _ _ => rfl
    | fragmentHttps =>
      rw [optionStep]
      exact meets_numberOption fun _ _ => rfl
    | dnsPort =>
      rw [optionStep]
      exact meets_numberOption fun _ _ => rfl
    | queueNum => exact absurd trivial hr
    | mode digit =>
      rw [optionStep]
      split
      · exact nfqueueNum_configApplyLegacyMode digit cfg
      · exact rfl
    | daemon => exact rfl
    | verbose => exact rfl
    | debug => exact rfl
    | syslog => exact rfl
    | nativeFrag => exact rfl
    | reverseFrag => exact rfl
    | hostMixedcase => exact rfl
    | additionalSpace => exact rfl
    | hostRemovespace => exact rfl

/-- No case of the `switch` returns 0. -/
theorem optionStep_finish {result : Int} (h : optionStep files cfg r = .finish result cfg') : result ≠ 0 := by
  by_cases hr : IsQueueNum r
  · obtain ⟨optarg, rfl⟩ := isQueueNum_iff.1 hr
    have hmeets := meets_queueNum files cfg optarg
    rw [h] at hmeets
    exact hmeets
  · have hmeets := meets_other files cfg hr
    rw [h] at hmeets
    exact hmeets

/-- A loop that returns 0 has taken every step. -/
theorem parseLoop_cons_zero (h : parseLoop files (r :: rs) cfg = (0, cfg')) :
    ∃ mid, optionStep files cfg r = .next mid ∧ parseLoop files rs mid = (0, cfg') := by
  rw [parseLoop] at h
  cases hstep : optionStep files cfg r with
  | next mid =>
    rw [hstep] at h
    exact ⟨mid, rfl, h⟩
  | finish result mid =>
    rw [hstep] at h
    cases h
    exact absurd rfl (optionStep_finish hstep)

theorem nfqueueNum_parseLoop (h : parseLoop files rs cfg = (0, cfg')) (hrs : ∀ r ∈ rs, ¬ IsQueueNum r) :
    cfg'.nfqueueNum = cfg.nfqueueNum := by
  induction rs generalizing cfg with
  | nil =>
    cases h
    rfl
  | cons r rs ih =>
    obtain ⟨mid, hstep, hrest⟩ := parseLoop_cons_zero h
    have hmeets := meets_other files cfg (hrs r List.mem_cons_self)
    rw [hstep] at hmeets
    rw [ih hrest fun r' hr' => hrs r' (List.mem_cons_of_mem r hr')]
    exact hmeets

/-- The queue number is that of the last `--queue-num`. -/
theorem nfqueueNum_of_latest {pre post : List (OptResult CliOption)} {optarg : List UInt8}
    (hlast : Latest IsQueueNum rs pre (.opt .queueNum optarg) post) (h : parseLoop files rs cfg = (0, cfg')) :
    0 ≤ strtol optarg ∧ strtol optarg ≤ 65535 ∧ cfg'.nfqueueNum = UInt16.ofNat (strtol optarg).toNat := by
  obtain ⟨rfl, -, hlater⟩ := hlast
  induction pre generalizing cfg with
  | nil =>
    obtain ⟨mid, hstep, hrest⟩ := parseLoop_cons_zero h
    have hmeets := meets_queueNum files cfg optarg
    rw [hstep] at hmeets
    rw [nfqueueNum_parseLoop hrest hlater]
    exact hmeets
  | cons r pre ih =>
    obtain ⟨mid, -, hrest⟩ := parseLoop_cons_zero h
    exact ih hrest

/-- The commands of the program name queue 0. -/
theorem queueNum_commands {outcome : NfqueueRule → InsertOutcome} {c : Command}
    (hc : c ∈ (setupFirewallRules outcome).2 ++ cleanupFirewallRules) : c.rule.queueNum = 0 := by
  have hrules : ∀ r ∈ programRules, r.queueNum = 0 := by decide
  apply hrules
  rcases List.mem_append.1 hc with hc | hc
  · exact rule_mem_of_setup hc
  · exact rule_mem_of_cleanup hc

/-- The queue that `main` listens on is queue 0 exactly when the last `--queue-num` says so, or there is none. -/
theorem netfilterQueue_eq_zero_iff {posixlyCorrect : Bool} {args : List (List UInt8)}
    (h : mainConfig files posixlyCorrect args = some cfg) :
    netfilterQueue cfg = 0 ↔
      ∀ pre optarg post, Latest IsQueueNum (cliOptions posixlyCorrect args) pre (.opt .queueNum optarg) post →
        strtol optarg = 0 := by
  have hparse : parseLoop files (cliOptions posixlyCorrect args) configInit = (0, cfg) := by
    unfold mainConfig at h
    split at h
    · cases h
    · split at h
      · cases h
      · rename_i hzero hvalid
        cases h
        exact Prod.ext (Decidable.not_not.1 hzero) rfl
  constructor
  · intro h0 pre optarg post hlast
    obtain ⟨hlo, hhi, hnum⟩ := nfqueueNum_of_latest hlast hparse
    rw [netfilterQueue, hnum, UInt16.toNat_ofNat'] at h0
    omega
  · intro hcond
    rcases latest_or_none IsQueueNum (cliOptions posixlyCorrect args) with hnone | ⟨pre, r, post, hlast⟩
    · rw [netfilterQueue, nfqueueNum_parseLoop hparse hnone]
      rfl
    · obtain ⟨optarg, rfl⟩ := isQueueNum_iff.1 hlast.kind
      obtain ⟨-, -, hnum⟩ := nfqueueNum_of_latest hlast hparse
      rw [netfilterQueue, hnum, hcond pre optarg post hlast]
      rfl

end

/-- For a command line that is accepted, every rule that the program inserts or deletes names the queue it listens on
exactly when the last `--queue-num`, if there is one, has the value 0. -/
theorem queue_numbers_agree_iff (files : List UInt8 → Option (List UInt8)) (posixlyCorrect : Bool)
    (args : List (List UInt8)) (cfg : Config) (h : mainConfig files posixlyCorrect args = some cfg) :
    (∀ outcome, ∀ c ∈ (setupFirewallRules outcome).2 ++ cleanupFirewallRules,
      c.rule.queueNum = netfilterQueue cfg) ↔
    ∀ pre optarg post, History.Latest IsQueueNum (cliOptions posixlyCorrect args) pre (.opt .queueNum optarg) post →
      strtol optarg = 0 := by
  rw [← netfilterQueue_eq_zero_iff h]
  constructor
  · intro hagree
    have hfirst := hagree (fun _ => .done) (.delete outputHttp) (List.mem_append_right _ List.mem_cons_self)
    exact hfirst.symm
  · intro h0 outcome c hc
    rw [h0, queueNum_commands hc]

theorem queue_numbers_agree_iff_zero :
    (∀ outcome, ∀ c ∈ (setupFirewallRules outcome).2 ++ cleanupFirewallRules,
      c.rule.queueNum = netfilterQueue configInit) ↔
    ∀ pre optarg post, History.Latest IsQueueNum (cliOptions false [ascii "--queue-num", ascii "0"]) pre
      (.opt .queueNum optarg) post → strtol optarg = 0 :=
  queue_numbers_agree_iff (fun _ => none) false [ascii "--queue-num", ascii "0"] configInit (by decide +kernel)

/-- With `--queue-num 5` the program listens on queue 5, while its rules name queue 0. -/
theorem queue_numbers_disagree :
    ∃ cfg, mainConfig (fun _ => none) false [ascii "--queue-num", ascii "5"] = some cfg ∧
      Command.insert outputHttp .done ∈ (setupFirewallRules fun _ => .done).2 ∧
      outputHttp.queueNum ≠ netfilterQueue cfg :=
  ⟨{ configInit with nfqueueNum := 5 }, by decide +kernel, by decide, by decide⟩

end GoodbyeDpi
