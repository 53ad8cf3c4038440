import GoodbyeDpi.PacketParse
import GoodbyeDpi.PacketProcess

/-!
# The netfilter queue (`src/capture/netfilter_capture.c`, `packet_process_callback` in `src/main.c`)

A message of the queue goes through `netfilter_callback` and from there through `packet_process_callback`.  The
state that matters afterwards is the list of `nfq_set_verdict` calls and the three counters of `main.c`.  What the
calls out of the program answer while one message is handled is part of the step.
-/

namespace GoodbyeDpi

open CSem Traced

/-- `NF_ACCEPT`. -/
def nfAccept : Int := 1

/-- A message of the queue: the id in its header, and its payload if `nfq_get_payload` finds one.  The length of
the payload is an `int`. -/
structure Message where
  id : UInt32
  payload : Option (List UInt8)
  size : ∀ b ∈ payload, b.length < 2 ^ 31

/-- A call of `nfq_set_verdict`; `data` is `none` where the data length is 0. -/
structure VerdictCall where
  id : UInt32
  verdict : Int
  data : Option (List UInt8)
deriving DecidableEq, Repr

structure QueueState where
  verdicts : List VerdictCall
  packetsProcessed : UInt64
  packetsModified : UInt64
  bytesProcessed : UInt64
deriving DecidableEq, Repr

def QueueState.init : QueueState := ⟨[], 0, 0, 0⟩

/-- The ids of the verdicts so far. -/
def QueueState.ids (st : QueueState) : List UInt32 := st.verdicts.map (·.id)

/-- What `netfilter_init` leaves behind: the flag of the context and whether a callback is set. -/
structure Netfilter where
  initialized : Bool
  packetCallback : Bool
deriving DecidableEq, Repr

/-- After a successful `netfilter_init` with `packet_process_callback`. -/
def Netfilter.ready : Netfilter := ⟨true, true⟩

/-- `nfq_get_payload`: the length, or -1 with a NULL pointer. -/
def nfqGetPayload (m : Message) : Int := m.payload.elim (-1) fun b => b.length

/-- The conversion of an `int` to `uint32_t`. -/
def toUint32 (n : Int) : Nat := (n % 2 ^ 32).toNat

def QueueState.setVerdict (st : QueueState) (id : UInt32) (verdict : Int) (data : Option (List UInt8)) : QueueState :=
  { st with verdicts := st.verdicts ++ [⟨id, verdict, data⟩] }

/-- `netfilter_send_verdict`. -/
def netfilterSendVerdict (nf : Netfilter) (env : Env) (id : UInt32) (verdict : Int) (data : Option (List UInt8))
    (st : QueueState) : Int × QueueState :=
  if nf.initialized then (if env.verdictRet < 0 then -1 else 0, st.setVerdict id verdict data) else (-1, st)

/-- The counters of a packet that is handled. -/
def QueueState.countPacket (st : QueueState) (packetLen : Nat) : QueueState :=
  { st with
    packetsProcessed := st.packetsProcessed + 1
    bytesProcessed := st.bytesProcessed + UInt64.ofNat packetLen }

def QueueState.countModified (st : QueueState) : QueueState := { st with packetsModified := st.packetsModified + 1 }

/-- What `packet_process_callback` does with the result of `packet_process`: a return code of 0 is taken for
"modified", and only then is a verdict sent. -/
def answerProcessed (nf : Netfilter) (env : Env) (id : UInt32) (r : Int × Packet) (st : QueueState) :
    Int × QueueState :=
  if r.1 = 0 then
    let st := st.countModified
    match r.2.rawPacket with
    | some raw =>
      if 0 < r.2.rawPacketLen then netfilterSendVerdict nf env id nfAccept (some (raw.take r.2.rawPacketLen)) st
      else (nfAccept, st)
    | none => (nfAccept, st)
  else (nfAccept, st)

/-- `packet_process_callback`. -/
def packetProcessCallback (cfg : Config) (nf : Netfilter) (env : Env) (m : Message) (st : QueueState) :
    CRun Buf (Int × QueueState) := do
  let packetLen := toUint32 (nfqGetPayload m)
  if packetLen = 0 then pure (nfAccept, st)
  else
    let st := st.countPacket packetLen
    let parsed ← packetParsePointer env m.payload packetLen packetInit
    -- a packet that does not parse is accepted by the return value only, without a verdict
    if parsed.1 < 0 then pure (nfAccept, st)
    else
      let r ← packetProcess cfg env { parsed.2 with nfqueueId := m.id }
      pure (answerProcessed nf env m.id r st)

/-- `netfilter_callback`. -/
def netfilterCallback (cfg : Config) (nf : Netfilter) (env : Env) (m : Message) (st : QueueState) :
    CRun Buf (Int × QueueState) :=
  if toUint32 (nfqGetPayload m) = 0 then pure (env.verdictRet, st.setVerdict m.id nfAccept none)
  else if nf.packetCallback then packetProcessCallback cfg nf env m st
  else pure (env.verdictRet, st.setVerdict m.id nfAccept none)

/-- The messages of the queue one after the other, each with what its calls out of the program answer. -/
def handleMessages (cfg : Config) (nf : Netfilter) : List (Message × Env) → QueueState → CRun Buf QueueState
  | [], st => pure st
  | s :: steps, st => do
    let r ← netfilterCallback cfg nf s.2 s.1 st
    handleMessages cfg nf steps r.2

end GoodbyeDpi
