import GoodbyeDpi.CSem.Protocol
import GoodbyeDpi.Firewall

/-!
# Calls to the system and to `libnetfilter_queue`

The calls of the capture code and of `main`, each with an integer as its answer: a pointer (0 for null), a file
descriptor, a length, a process number or a result code, as in C.  The state is what those calls have opened, the PID
file and the rules.  What nobody has tried to give back is kept apart from what was to be given back but, as the answer
says, is still there.
-/

namespace GoodbyeDpi

open CSem

/-- `AF_INET` and `AF_INET6`. -/
inductive Family where
  | inet
  | inet6
deriving DecidableEq, Repr

inductive SysCall where
  | nfqOpen
  | nfqUnbindPf (h : Int) (pf : Family)
  | nfqBindPf (h : Int) (pf : Family)
  | nfqCreateQueue (h : Int) (num : UInt16)
  | nfqSetMode (qh : Int)
  | nfqFd (h : Int)
  | nfqDestroyQueue (qh : Int)
  | nfqClose (h : Int)
  | nfqHandlePacket (h len : Int)
  | nfqSetVerdict (qh : Int) (id : UInt32) (verdict : Int)
  | recv (fd : Int)
  | socket (pf : Family)
  | setsockopt (fd : Int)
  | send (fd : Int) (len : Nat)
  | recvfrom (fd : Int) (len : Nat)
  | close (fd : Int)
  /-- `errno` is `EAGAIN` or `EWOULDBLOCK`. -/
  | wouldBlock
  | geteuid
  | openLogFile
  | sigaction
  /-- `fopen` of the PID file; the number of the process is written when it succeeds. -/
  | createPidFile
  | unlinkPidFile
  | fork
  | setsid
  /-- `close` of a standard descriptor. -/
  | closeStd (fd : Int)
  | openDevNull
  | dup (fd : Int)
  /-- `system` of an `iptables -I` or an `iptables -D`. -/
  | iptablesInsert (r : NfqueueRule)
  | iptablesDelete (r : NfqueueRule)
  /-- The flag that the signal handler clears. -/
  | running
  | usleep
deriving DecidableEq, Repr

/-- A program that makes these calls. -/
abbrev Sys := Proc SysCall fun _ => Int

/-- `WIFEXITED` and `WEXITSTATUS` of a status that `system` gives. -/
def wifexited (status : Int) : Bool := status % 128 = 0

def wexitstatus (status : Int) : Int := status / 256 % 256

/-- `execute_command` for the status that `system` gives. -/
def commandResult (status : Int) : Int :=
  if status = -1 then -1 else if wifexited status ∧ wexitstatus status ≠ 0 then -1 else 0

/-- The descriptors 0, 1 and 2 that are open, and whether `open` of `/dev/null` has failed. -/
structure StdFds where
  fds : List Int
  devNullFailed : Bool
deriving DecidableEq, Repr

def StdFds.init : StdFds := ⟨[0, 1, 2], false⟩

/-- `handles`, `queues` (with their handles), `fds` (the descriptors of the handles) and `sockets` are open, and nobody
has tried to close them; `keptHandles` and `keptQueues` are those that were still there after such an attempt.
`process` counts the forks that led to this process, and the PID file has the number of the process that wrote it.
`rulesOwed` are the rules whose insertion was reported as done and that nobody has tried to delete since, `keptRules`
those that could not be deleted. -/
structure SysState where
  handles : List Int
  queues : List (Int × Int)
  fds : List (Int × Int)
  keptHandles : List Int
  keptQueues : List Int
  sockets : List Int
  std : StdFds
  process : Nat
  pidFile : Option Nat
  pidFileOwed : Bool
  rulesOwed : List NfqueueRule
  keptRules : List NfqueueRule
deriving DecidableEq, Repr

/-- Nothing but the standard descriptors is open. -/
def SysState.init : SysState where
  handles := []
  queues := []
  fds := []
  keptHandles := []
  keptQueues := []
  sockets := []
  std := .init
  process := 0
  pidFile := none
  pidFileOwed := false
  rulesOwed := []
  keptRules := []

namespace SysState

/-- The lowest number for a descriptor. -/
def LowestFree (s : SysState) (fd : Int) : Prop := 0 ≤ fd ∧ fd ∉ s.std.fds ∧ ∀ k, 0 ≤ k → k < fd → k ∈ s.std.fds

/-- The call is on something open that nobody has tried to close.  A handle is closed only when it has no queue, or one
that could not be destroyed; `dup` goes to a descriptor that is open, if `/dev/null` could be opened. -/
def ok (s : SysState) : SysCall → Prop
  | .nfqUnbindPf h _ | .nfqBindPf h _ | .nfqCreateQueue h _ | .nfqFd h | .nfqHandlePacket h _ => h ∈ s.handles
  | .nfqClose h => h ∈ s.handles ∧ ∀ q ∈ s.queues, q.2 ≠ h
  | .nfqSetMode qh | .nfqDestroyQueue qh | .nfqSetVerdict qh _ _ => qh ∈ s.queues.map (·.1)
  | .recv fd => fd ∈ s.fds.map (·.2)
  | .setsockopt fd | .send fd _ | .recvfrom fd _ | .close fd => fd ∈ s.sockets
  | .closeStd fd => fd ∈ s.std.fds
  | .dup fd => fd ∈ s.std.fds ∨ s.std.devNullFailed = true
  | _ => True

/-- What a call opens was not open. -/
def may (s : SysState) : SysCall → Int → Prop
  | .nfqOpen, h => h ∉ s.handles ∧ h ∉ s.keptHandles
  | .nfqCreateQueue _ _, qh => qh ∉ s.queues.map (·.1) ∧ qh ∉ s.keptQueues
  | .socket _, fd => fd ∉ s.sockets
  | .openDevNull, fd | .dup _, fd => fd < 0 ∨ s.LowestFree fd
  | _, _ => True

/-- A descriptor that `open` or `dup` has given. -/
def withStd (s : SysState) (fd : Int) : SysState := { s with std := { s.std with fds := fd :: s.std.fds } }

/-- After an `iptables -I`.  One that was killed by a signal counts as done, as it does for `execute_command`. -/
def inserted (s : SysState) (r : NfqueueRule) (status : Int) : SysState :=
  if commandResult status < 0 then s else { s with rulesOwed := r :: s.rulesOwed }

/-- After an `iptables -D`, which deletes a rule only if it ends with 0. -/
def deleted (s : SysState) (r : NfqueueRule) (status : Int) : SysState :=
  if r ∈ s.rulesOwed then
    { s with
      rulesOwed := s.rulesOwed.erase r
      keptRules := if status = 0 then s.keptRules else r :: s.keptRules }
  else if status = 0 then { s with keptRules := s.keptRules.erase r }
  else s

/-- The state after a call. -/
def next (s : SysState) : SysCall → Int → SysState
  | .nfqOpen, h => if h = 0 then s else { s with handles := h :: s.handles }
  | .nfqCreateQueue h _, qh => if qh = 0 then s else { s with queues := (qh, h) :: s.queues }
  | .nfqFd h, fd => if fd < 0 then s else { s with fds := (h, fd) :: s.fds }
  | .nfqDestroyQueue qh, r =>
    { s with
      queues := s.queues.filter (·.1 ≠ qh)
      keptQueues := if r < 0 then qh :: s.keptQueues else s.keptQueues }
  | .nfqClose h, r =>
    { s with
      handles := s.handles.filter (· ≠ h)
      fds := s.fds.filter (·.1 ≠ h)
      keptHandles := if r < 0 then h :: s.keptHandles else s.keptHandles }
  | .socket _, fd => if fd < 0 then s else { s with sockets := fd :: s.sockets }
  | .close fd, _ => { s with sockets := s.sockets.filter (· ≠ fd) }
  | .closeStd fd, _ => { s with std := { s.std with fds := s.std.fds.filter (· ≠ fd) } }
  | .openDevNull, fd => if fd < 0 then { s with std := { s.std with devNullFailed := true } } else s.withStd fd
  | .dup _, fd => if fd < 0 then s else s.withStd fd
  | .createPidFile, fp => if fp = 0 then s else { s with pidFile := some s.process, pidFileOwed := true }
  | .unlinkPidFile, r =>
    { s with pidFile := if r = 0 then none else s.pidFile, pidFileOwed := false }
  | .fork, pid => if pid = 0 then { s with process := s.process + 1 } else s
  | .iptablesInsert r, status => s.inserted r status
  | .iptablesDelete r, status => s.deleted r status
  | _, _ => s

/-- The open handles, and the queues that have not been destroyed. -/
def openHandles (s : SysState) : Nat := s.handles.length + s.keptHandles.length

def openQueues (s : SysState) : Nat := s.queues.length + s.keptQueues.length

end SysState

/-- A call that gives something back, if it fails. -/
def SysCall.failure : SysCall → Int → List SysCall
  | .nfqClose h, r => if r < 0 then [.nfqClose h] else []
  | .nfqDestroyQueue qh, r => if r < 0 then [.nfqDestroyQueue qh] else []
  | .iptablesDelete rule, status => if status = 0 then [] else [.iptablesDelete rule]
  | .unlinkPidFile, r => if r = 0 then [] else [.unlinkPidFile]
  | _, _ => []

def SysCall.isNfqClose : SysCall → Bool
  | .nfqClose _ => true
  | _ => false

def SysCall.isNfqDestroyQueue : SysCall → Bool
  | .nfqDestroyQueue _ => true
  | _ => false

/-- The protocol of the calls. -/
def linux : Protocol SysCall (fun _ => Int) SysState where
  ok := SysState.ok
  may := SysState.may
  next := SysState.next

/-! ### What is still there -/

/-- What is still there, although it was to be given back, is what the failed calls were to give back. -/
structure SysState.KeptByFailures (s : SysState) (failures : List SysCall) : Prop where
  handles : s.keptHandles.length = failures.countP SysCall.isNfqClose
  queues : s.keptQueues.length = failures.countP SysCall.isNfqDestroyQueue
  rules : ∀ rule ∈ s.keptRules, .iptablesDelete rule ∈ failures
  pidFile : s.pidFile ≠ none → s.pidFileOwed = true ∨ .unlinkPidFile ∈ failures

theorem keptByFailures_init : SysState.init.KeptByFailures [] where
  handles := rfl
  queues := rfl
  rules := fun _ h => absurd h List.not_mem_nil
  pidFile := fun h => absurd rfl h

/-- What a call adds to the handles, the queues and the rules that are kept. -/
private theorem kept_next (s : SysState) (c : SysCall) (r : Int) :
    (linux.next s c r).keptHandles.length = s.keptHandles.length + (c.failure r).countP SysCall.isNfqClose ∧
      (linux.next s c r).keptQueues.length = s.keptQueues.length + (c.failure r).countP SysCall.isNfqDestroyQueue ∧
      ∀ rule ∈ (linux.next s c r).keptRules, rule ∈ s.keptRules ∨ .iptablesDelete rule ∈ c.failure r := by
  cases c <;>
    simp only [linux, SysState.next, SysState.inserted, SysState.deleted, SysState.withStd, SysCall.failure] <;>
    grind [SysCall.isNfqClose, SysCall.isNfqDestroyQueue]

/-- A PID file that is there is owed, as long as it was before, or could not be removed. -/
private theorem pidFile_next (s : SysState) (c : SysCall) (r : Int) (h : (linux.next s c r).pidFile ≠ none) :
    (linux.next s c r).pidFileOwed = true ∨ .unlinkPidFile ∈ c.failure r ∨
      s.pidFile ≠ none ∧ (linux.next s c r).pidFileOwed = s.pidFileOwed := by
  revert h
  cases c <;>
    simp only [linux, SysState.next, SysState.inserted, SysState.deleted, SysState.withStd, SysCall.failure] <;>
    grind

theorem SysState.KeptByFailures.next {s : SysState} {failures : List SysCall} (h : s.KeptByFailures failures)
    (c : SysCall) (r : Int) : (linux.next s c r).KeptByFailures (failures ++ c.failure r) := by
  obtain ⟨hhandles, hqueues, hrules⟩ := kept_next s c r
  refine ⟨?_, ?_, fun rule hrule => ?_, fun hfile => ?_⟩
  · rw [hhandles, h.handles, List.countP_append]
  · rw [hqueues, h.queues, List.countP_append]
  · rcases hrules rule hrule with hkept | hfailure
    · exact List.mem_append_left _ (h.rules rule hkept)
    · exact List.mem_append_right _ hfailure
  · rcases pidFile_next s c r hfile with howed | hfailure | ⟨hfile', howed⟩
    · exact Or.inl howed
    · exact Or.inr (List.mem_append_right _ hfailure)
    · rw [howed]
      exact (h.pidFile hfile').imp id (List.mem_append_left _)

end GoodbyeDpi
