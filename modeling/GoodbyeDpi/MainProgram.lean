import GoodbyeDpi.Arguments
import GoodbyeDpi.Logging
import GoodbyeDpi.NetfilterSession

/-!
# The run of the program (`src/main.c`, `src/service/daemon_funcs.c`)

`main` from its first call to its return, for any configuration and any answers of the system.  The PID file, the
firewall rules and the queue are taken in this order and given back in the reverse order on every path, the ones that
end in a failure included.  What is left is what the system has refused to take back.
-/

namespace GoodbyeDpi

open CSem

namespace OnSystem

/-- `create_pid_file`. -/
def createPidFile : Sys Int := do
  if (← Proc.ask .createPidFile) = 0 then pure (-1) else pure 0

/-- `cleanup_firewall_rules`. -/
def cleanupFirewallRules : Sys Int := do
  let _ ← Proc.ask (.iptablesDelete outputHttp)
  let _ ← Proc.ask (.iptablesDelete outputHttps)
  let _ ← Proc.ask (.iptablesDelete inputHttp)
  let _ ← Proc.ask (.iptablesDelete inputHttps)
  pure 0

/-- `execute_command` of an insert. -/
def executeInsert (r : NfqueueRule) : Sys Int := do
  let ret ← Proc.ask (.iptablesInsert r)
  pure (commandResult ret)

/-- A failure in `setup_firewall_rules` once a rule is there. -/
def setupFail : Sys Int := do
  let _ ← cleanupFirewallRules
  pure (-1)

/-- `setup_firewall_rules`. -/
def setupFirewallRules : Sys Int := do
  let _ ← Proc.ask (.iptablesDelete outputHttp)
  let _ ← Proc.ask (.iptablesDelete outputHttps)
  let _ ← Proc.ask (.iptablesDelete inputHttp)
  let _ ← Proc.ask (.iptablesDelete inputHttps)
  if (← executeInsert outputHttp) < 0 then pure (-1)
  else if (← executeInsert outputHttps) < 0 then setupFail
  else if (← executeInsert inputHttp) < 0 then setupFail
  else if (← executeInsert inputHttps) < 0 then setupFail
  else pure 0

end OnSystem

/-! ### What is taken and given back -/

variable {s : SysState} {process : Nat} {std : StdFds} {cfg : Config}

end GoodbyeDpi
