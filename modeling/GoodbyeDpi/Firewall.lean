import GoodbyeDpi.EditedList

/-!
# Firewall rules (`src/main.c`)

The `iptables` commands that the program runs, and what they do to the table of rules: `-I` puts a rule at the head
or fails without effect, `-D` removes the first equal rule or fails when there is none.  A run of the program is the
list of the commands it executes, which ends early when the program is killed.
-/

namespace GoodbyeDpi

open EditedList

/-! ### Rules and commands -/

inductive Chain where
  | output
  | input
deriving DecidableEq, Repr

inductive PortMatch where
  | dport
  | sport
deriving DecidableEq, Repr

/-- A rule that sends the TCP traffic of a port to a queue. -/
structure NfqueueRule where
  chain : Chain
  portMatch : PortMatch
  port : Nat
  queueNum : Nat
deriving DecidableEq, Repr

/-- A rule of the table: one for a queue, or any other. -/
inductive Rule where
  | nfqueue (r : NfqueueRule)
  | other (text : String)
deriving DecidableEq, Repr

def Chain.name : Chain → String
  | output => "OUTPUT"
  | input => "INPUT"

def PortMatch.option : PortMatch → String
  | dport => "--dport"
  | sport => "--sport"

/-- The rule as it is written on the command line. -/
def NfqueueRule.text (r : NfqueueRule) : String :=
  r.chain.name ++ " -p tcp " ++ r.portMatch.option ++ " " ++ toString r.port ++ " -j NFQUEUE --queue-num " ++
    toString r.queueNum

def outputHttp : NfqueueRule := ⟨.output, .dport, 80, 0⟩

def outputHttps : NfqueueRule := ⟨.output, .dport, 443, 0⟩

def inputHttp : NfqueueRule := ⟨.input, .sport, 80, 0⟩

def inputHttps : NfqueueRule := ⟨.input, .sport, 443, 0⟩

/-- The rules of the program. -/
def programRules : List NfqueueRule := [outputHttp, outputHttps, inputHttp, inputHttps]

/-- What becomes of an insert: it takes effect; it has none and `system` gives -1 or an exit status other than 0; or
it has none and the command died of a signal. -/
inductive InsertOutcome where
  | done
  | failed
  | signalled
deriving DecidableEq, Repr

/-- `execute_command`: only an exit status other than 0 counts as a failure of the command. -/
def executeCommand : InsertOutcome → Int
  | .done => 0
  | .failed => -1
  | .signalled => 0

inductive Command where
  | delete (r : NfqueueRule)
  | insert (r : NfqueueRule) (outcome : InsertOutcome)
deriving DecidableEq, Repr

namespace Command

def text : Command → String
  | delete r => "iptables -D " ++ r.text ++ " 2>/dev/null"
  | insert r _ => "iptables -I " ++ r.text

def rule : Command → NfqueueRule
  | delete r => r
  | insert r _ => r

/-- The effect on the table. -/
def edit : Command → Edit Rule
  | delete r => .delete (.nfqueue r)
  | insert r outcome => if outcome = .done then .insert (.nfqueue r) else .skip

end Command

example : (Command.delete inputHttps).text =
    "iptables -D INPUT -p tcp --sport 443 -j NFQUEUE --queue-num 0 2>/dev/null" := by
  decide

example : (Command.insert outputHttp .done).text = "iptables -I OUTPUT -p tcp --dport 80 -j NFQUEUE --queue-num 0" :=
  by decide

/-! ### The program -/

/-- `cleanup_firewall_rules`. -/
def cleanupFirewallRules : List Command :=
  [.delete outputHttp, .delete outputHttps, .delete inputHttp, .delete inputHttps]

/-- `setup_firewall_rules`, when the inserts end as `outcome` says: the result and the commands. -/
def setupFirewallRules (outcome : NfqueueRule → InsertOutcome) : Int × List Command :=
  let deletes := [.delete outputHttp, .delete outputHttps, .delete inputHttp, .delete inputHttps]
  let insert := fun r => Command.insert r (outcome r)
  if executeCommand (outcome outputHttp) < 0 then (-1, deletes ++ [insert outputHttp])
  else if executeCommand (outcome outputHttps) < 0 then
    (-1, deletes ++ [insert outputHttp, insert outputHttps] ++ cleanupFirewallRules)
  else if executeCommand (outcome inputHttp) < 0 then
    (-1, deletes ++ [insert outputHttp, insert outputHttps, insert inputHttp] ++ cleanupFirewallRules)
  else if executeCommand (outcome inputHttps) < 0 then
    (-1, deletes ++ [insert outputHttp, insert outputHttps, insert inputHttp, insert inputHttps] ++
      cleanupFirewallRules)
  else (0, deletes ++ [insert outputHttp, insert outputHttps, insert inputHttp, insert inputHttps])

/-- What decides about the commands of one run of the program. -/
structure ProgramRun where
  reachesSetup : Bool
  outcome : NfqueueRule → InsertOutcome
  netfilterInit : Int
  killedAfter : Option Nat

namespace ProgramRun

/-- The commands that `main` runs when the program is not killed. -/
def mainCommands (run : ProgramRun) : List Command :=
  if !run.reachesSetup then []
  else if (setupFirewallRules run.outcome).1 < 0 then (setupFirewallRules run.outcome).2
  else if run.netfilterInit < 0 then (setupFirewallRules run.outcome).2 ++ cleanupFirewallRules
  -- the main loop runs no command
  else (setupFirewallRules run.outcome).2 ++ cleanupFirewallRules

/-- The commands that are executed: the first ones only, when the program is killed between two commands. -/
def commands (run : ProgramRun) : List Command :=
  match run.killedAfter with
  | none => run.mainCommands
  | some k => run.mainCommands.take k

end ProgramRun

/-- The table after some commands. -/
def rulesAfter (table : List Rule) (commands : List Command) : List Rule := applyAll table (commands.map Command.edit)

/-! ### One run -/

section

variable {r : NfqueueRule} {n : Nat} {run : ProgramRun}

/-- The deletes before the inserts and those of the cleanup are the same commands. -/
theorem cleanupFirewallRules_eq :
    cleanupFirewallRules.map Command.edit = (programRules.map Rule.nfqueue).map Edit.delete := rfl

/-- The insert of a rule takes effect. -/
def insertDone (outcome : NfqueueRule → InsertOutcome) : Rule → Bool
  | .nfqueue r => outcome r = .done
  | .other _ => false

theorem map_edit_inserts (outcome : NfqueueRule → InsertOutcome) (rules : List NfqueueRule) :
    (rules.map fun r => Command.insert r (outcome r)).map Command.edit =
      (rules.map Rule.nfqueue).map fun a => if insertDone outcome a then .insert a else .skip := by
  rw [List.map_map, List.map_map]
  apply List.map_congr_left
  intro r hr
  simp [Command.edit, insertDone]

/-- A run deletes the four rules, inserts the first of them, and then, unless it fails at the first insert, deletes
the four rules again. -/
theorem mainCommands_cases (h : run.reachesSetup = true) :
    (∃ rules, rules <+: programRules ∧ run.mainCommands =
      cleanupFirewallRules ++ (rules.map fun r => Command.insert r (run.outcome r)) ++ cleanupFirewallRules) ∨
    (run.outcome outputHttp = .failed ∧ run.mainCommands =
      cleanupFirewallRules ++ [Command.insert outputHttp (run.outcome outputHttp)]) := by
  have hneg : ∀ {o : InsertOutcome}, executeCommand o < 0 ↔ o = .failed := by
    intro o
    cases o <;> decide
  simp only [ProgramRun.mainCommands, h, Bool.not_true, Bool.false_eq_true, if_false, setupFirewallRules, hneg,
    ite_self]
  by_cases h1 : run.outcome outputHttp = .failed
  · right
    simp [h1, cleanupFirewallRules]
  left
  by_cases h2 : run.outcome outputHttps = .failed
  · exact ⟨[outputHttp, outputHttps], by decide, by simp [h1, h2, cleanupFirewallRules]⟩
  by_cases h3 : run.outcome inputHttp = .failed
  · exact ⟨[outputHttp, outputHttps, inputHttp], by decide, by simp [h1, h2, h3, cleanupFirewallRules]⟩
  -- the last insert makes no difference to the commands
  refine ⟨programRules, by decide, ?_⟩
  by_cases h4 : run.outcome inputHttps = .failed
  · simp [h1, h2, h3, h4, cleanupFirewallRules, programRules]
  · simp [h1, h2, h3, h4, cleanupFirewallRules, programRules]

/-- The deletes keep every count at most one, and leave none of the rules. -/
theorem cleanup_counts (hr : r ∈ programRules) (hn : n ≤ 1) :
    AtMostOnce (.nfqueue r) n (cleanupFirewallRules.map Command.edit) ∧
      countAfterAll (.nfqueue r) n (cleanupFirewallRules.map Command.edit) = 0 := by
  have hmem : Rule.nfqueue r ∈ programRules.map Rule.nfqueue := List.mem_map.2 ⟨r, hr, rfl⟩
  obtain ⟨honce, hcount⟩ := deletes (a := Rule.nfqueue r) (programRules.map Rule.nfqueue) hn
  rw [cleanupFirewallRules_eq]
  exact ⟨honce, by rw [hcount, if_pos hmem]⟩

theorem inserts_counts {rules : List NfqueueRule} (hrules : rules <+: programRules)
    (outcome : NfqueueRule → InsertOutcome) :
    AtMostOnce (.nfqueue r) 0 ((rules.map fun r => Command.insert r (outcome r)).map Command.edit) := by
  have hnodup : (programRules.map Rule.nfqueue).Nodup := by decide
  rw [map_edit_inserts]
  exact inserts ((hrules.map Rule.nfqueue).sublist.nodup hnodup) (insertDone outcome) (by omega) fun _ => rfl

/-- One run keeps every rule of the program at most once, and leaves none of them when it gets to its end. -/
theorem mainCommands_counts (run : ProgramRun) (hr : r ∈ programRules) (hn : n ≤ 1) :
    AtMostOnce (.nfqueue r) n (run.mainCommands.map Command.edit) ∧
      (run.reachesSetup = true → countAfterAll (.nfqueue r) n (run.mainCommands.map Command.edit) = 0) := by
  obtain ⟨honce, hzero⟩ := cleanup_counts hr hn
  cases hreach : run.reachesSetup with
  | false => simp [ProgramRun.mainCommands, hreach, atMostOnce_nil hn]
  | true =>
    rcases mainCommands_cases hreach with ⟨rules, hrules, hcommands⟩ | ⟨hfailed, hcommands⟩
    · rw [hcommands, List.map_append, List.map_append]
      have hins := inserts_counts hrules run.outcome (r := r)
      rw [← hzero] at hins
      have hfirst := honce.append hins
      -- whatever the inserts have done, the cleanup removes it
      obtain ⟨honce', hzero'⟩ := cleanup_counts hr hfirst.last
      refine ⟨hfirst.append honce', fun _ => ?_⟩
      rw [countAfterAll_append, hzero']
    · rw [hcommands, List.map_append]
      have hskip : [Command.insert outputHttp (run.outcome outputHttp)].map Command.edit = [.skip] := by
        simp [Command.edit, hfailed]
      rw [hskip]
      refine ⟨honce.append (atMostOnce_cons (by omega) (atMostOnce_nil ?_)), fun _ => ?_⟩
      · rw [hzero]
        exact Nat.zero_le 1
      · rw [countAfterAll_append, hzero]
        rfl

/-- A run that may be killed. -/
theorem commands_counts (run : ProgramRun) (hr : r ∈ programRules) (hn : n ≤ 1) :
    AtMostOnce (.nfqueue r) n (run.commands.map Command.edit) ∧
      (run.reachesSetup = true → run.killedAfter = none →
        countAfterAll (.nfqueue r) n (run.commands.map Command.edit) = 0) := by
  obtain ⟨honce, hzero⟩ := mainCommands_counts run hr hn
  unfold ProgramRun.commands
  cases hkill : run.killedAfter with
  | none => exact ⟨honce, fun hreach _ => hzero hreach⟩
  | some k =>
    refine ⟨?_, fun _ h => by cases h⟩
    rw [← List.take_append_drop k run.mainCommands, List.map_append] at honce
    exact honce.left

/-! ### Sequences of runs -/

variable {table : List Rule}

theorem runs_counts (runs : List ProgramRun) (hr : r ∈ programRules) (hn : n ≤ 1) :
    AtMostOnce (.nfqueue r) n ((runs.flatMap ProgramRun.commands).map Command.edit) := by
  induction runs generalizing n with
  | nil => exact atMostOnce_nil hn
  | cons run runs ih =>
    obtain ⟨honce, -⟩ := commands_counts run hr hn
    rw [List.flatMap_cons, List.map_append]
    exact honce.append (ih honce.last)

theorem rule_mem_of_cleanup {c : Command} (hc : c ∈ cleanupFirewallRules) : c.rule ∈ programRules := by
  simp only [cleanupFirewallRules, List.mem_cons, List.not_mem_nil, or_false] at hc
  rcases hc with rfl | rfl | rfl | rfl <;> decide

/-- The commands of the program are about its own rules. -/
theorem rule_mem_of_mainCommands {c : Command} (hc : c ∈ run.mainCommands) : c.rule ∈ programRules := by
  cases hreach : run.reachesSetup with
  | false => simp [ProgramRun.mainCommands, hreach] at hc
  | true =>
    rcases mainCommands_cases hreach with ⟨rules, hrules, hcommands⟩ | ⟨-, hcommands⟩
    · rw [hcommands, List.mem_append, List.mem_append] at hc
      rcases hc with (hc | hc) | hc
      · exact rule_mem_of_cleanup hc
      · obtain ⟨r, hr, rfl⟩ := List.mem_map.1 hc
        exact hrules.subset hr
      · exact rule_mem_of_cleanup hc
    · rw [hcommands, List.mem_append, List.mem_singleton] at hc
      rcases hc with hc | rfl
      · exact rule_mem_of_cleanup hc
      · exact List.mem_cons_self

theorem rule_mem_of_commands {c : Command} (hc : c ∈ run.commands) : c.rule ∈ programRules := by
  unfold ProgramRun.commands at hc
  split at hc
  · exact rule_mem_of_mainCommands hc
  · exact rule_mem_of_mainCommands (List.mem_of_mem_take hc)

theorem rule_mem_of_setup {outcome : NfqueueRule → InsertOutcome} {c : Command}
    (hc : c ∈ (setupFirewallRules outcome).2) : c.rule ∈ programRules := by
  have hmain : c ∈ (⟨true, outcome, 0, none⟩ : ProgramRun).mainCommands := by
    simp only [ProgramRun.mainCommands, Bool.not_true, Bool.false_eq_true, if_false, ite_self]
    split
    · exact hc
    · exact List.mem_append_left _ hc
  exact rule_mem_of_mainCommands hmain

/-- A rule of the table that is not one of the program. -/
def notProgramRule (a : Rule) : Bool := decide (a ∉ programRules.map Rule.nfqueue)

/-- The other rules stay as they are, in their order. -/
theorem filter_rulesAfter {cs : List Command} (h : ∀ c ∈ cs, c.rule ∈ programRules) :
    (rulesAfter table cs).filter notProgramRule = table.filter notProgramRule := by
  apply filter_applyAll
  intro e he a hab
  obtain ⟨c, hc, rfl⟩ := List.mem_map.1 he
  have ha : a = .nfqueue c.rule := by
    cases c with
    | delete r => exact hab.symm
    | insert r outcome =>
      by_cases hdone : outcome = .done
      · simp only [Command.edit, hdone, if_true] at hab
        exact hab.symm
      · simp only [Command.edit, hdone, if_false] at hab
        exact hab.elim
  have hmem : a ∈ programRules.map Rule.nfqueue := List.mem_map.2 ⟨c.rule, h c hc, ha.symm⟩
  simpa [notProgramRule] using hmem

end

/-- Whatever the outcome of the inserts and wherever the runs are killed: at every moment each rule of the program
occurs at most once and the other rules are there in their order, and after a run that reached `setup_firewall_rules`
and returned from `main` no rule of the program is left. -/
theorem firewall_rules_bounded (table : List Rule) (h0 : ∀ r ∈ programRules, Rule.nfqueue r ∉ table)
    (runs : List ProgramRun) :
    (∀ pre suf, runs.flatMap ProgramRun.commands = pre ++ suf →
      (∀ r ∈ programRules, (rulesAfter table pre).count (.nfqueue r) ≤ 1) ∧
      (rulesAfter table pre).filter notProgramRule = table) ∧
    ∀ before run after, runs = before ++ run :: after → run.reachesSetup = true → run.killedAfter = none →
      ∀ r ∈ programRules, Rule.nfqueue r ∉ rulesAfter table ((before ++ [run]).flatMap ProgramRun.commands) := by
  have hcount : ∀ r ∈ programRules, table.count (.nfqueue r) = 0 := by
    intro r hr
    exact List.count_eq_zero.2 (h0 r hr)
  refine ⟨?_, ?_⟩
  · intro pre suf hsplit
    refine ⟨?_, ?_⟩
    · intro r hr
      have honce := runs_counts runs hr (Nat.zero_le 1)
      rw [hsplit, List.map_append] at honce
      rw [rulesAfter, count_applyAll, hcount r hr]
      exact honce.left.last
    · have hown : ∀ c ∈ pre, c.rule ∈ programRules := by
        intro c hc
        have hmem : c ∈ runs.flatMap ProgramRun.commands := by
          rw [hsplit]
          exact List.mem_append_left _ hc
        obtain ⟨run, -, hrun⟩ := List.mem_flatMap.1 hmem
        exact rule_mem_of_commands hrun
      rw [filter_rulesAfter hown, List.filter_eq_self]
      intro a ha
      rw [notProgramRule, decide_eq_true_iff]
      intro hmem
      obtain ⟨r, hr, rfl⟩ := List.mem_map.1 hmem
      exact h0 r hr ha
  · intro before run after _ hreach hkill r hr
    have honce := runs_counts before hr (Nat.zero_le 1)
    obtain ⟨-, hzero⟩ := commands_counts run hr honce.last
    rw [← List.count_eq_zero, rulesAfter, count_applyAll, hcount r hr, List.flatMap_append, List.map_append,
      countAfterAll_append, List.flatMap_singleton]
    exact hzero hreach hkill

/-- Two runs over a table with one other rule: the first is killed after its second insert, the second gets to its
end. -/
def killedThenOrderly : List ProgramRun :=
  [⟨true, fun _ => .done, 0, some 6⟩, ⟨true, fun _ => .done, 0, none⟩]

theorem firewall_rules_bounded_killedThenOrderly :
    (rulesAfter [.other "-A INPUT -i lo -j ACCEPT"] (killedThenOrderly.flatMap ProgramRun.commands)).filter
      notProgramRule = [.other "-A INPUT -i lo -j ACCEPT"] :=
  ((firewall_rules_bounded [.other "-A INPUT -i lo -j ACCEPT"] (by decide) killedThenOrderly).1 _ []
    (List.append_nil _).symm).2

end GoodbyeDpi
