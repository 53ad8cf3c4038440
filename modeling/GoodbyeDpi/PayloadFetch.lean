import GoodbyeDpi.Netfilter

/-!
# The payload of a message

`nfq_get_payload` gives a byte count or -1, and both callbacks keep it in a `uint32_t` before they ask whether it is 0.
Here the two callbacks are written over what they call, the parser and the processor, so that the same code can be run
with the real functions or with ones that answer anything and keep a list of the lengths they were called with.
-/

namespace GoodbyeDpi

open CSem Traced

/-! ### The callbacks over their calls -/

/-- What `packet_process_callback` calls, with the effects `M`. -/
structure PacketCalls (M : Type → Type) where
  parse : Option (List UInt8) → Nat → M (Int × Packet)
  process : Packet → M (Int × Packet)

section

variable {M : Type → Type} [Monad M]

/-- `packet_process_callback`. -/
def packetProcessCallbackWith (calls : PacketCalls M) (nf : Netfilter) (env : Env) (m : Message) (st : QueueState) :
    M (Int × QueueState) := do
  let packetLen := toUint32 (nfqGetPayload m)
  if packetLen = 0 then pure (nfAccept, st)
  else
    let st := st.countPacket packetLen
    let parsed ← calls.parse m.payload packetLen
    if parsed.1 < 0 then pure (nfAccept, st)
    else
      let r ← calls.process { parsed.2 with nfqueueId := m.id }
      pure (answerProcessed nf env m.id r st)

/-- `netfilter_callback`. -/
def netfilterCallbackWith (calls : PacketCalls M) (nf : Netfilter) (env : Env) (m : Message) (st : QueueState) :
    M (Int × QueueState) :=
  if toUint32 (nfqGetPayload m) = 0 then pure (env.verdictRet, st.setVerdict m.id nfAccept none)
  else if nf.packetCallback then packetProcessCallbackWith calls nf env m st
  else pure (env.verdictRet, st.setVerdict m.id nfAccept none)

end

/-- The parser and the processor of the program. -/
def programCalls (cfg : Config) (env : Env) : PacketCalls (CRun Buf) where
  parse data len := packetParsePointer env data len packetInit
  process p := packetProcess cfg env p

/-- The callback of the program is the callback over the program's own functions. -/
theorem netfilterCallback_eq_with (cfg : Config) (nf : Netfilter) (env : Env) (m : Message) (st : QueueState) :
    netfilterCallback cfg nf env m st = netfilterCallbackWith (programCalls cfg env) nf env m st := rfl

/-- Functions that answer as given, the first of which keeps the lengths it was called with. -/
def loggedCalls (parse : Option (List UInt8) → Nat → Int × Packet) (process : Packet → Int × Packet) :
    PacketCalls (StateM (List Nat)) where
  parse data len := fun log => (parse data len, log ++ [len])
  process p := fun log => (process p, log)

/-- The result of a message, and the lengths with which `packet_parse` was called for it. -/
def loggedCallback (parse : Option (List UInt8) → Nat → Int × Packet) (process : Packet → Int × Packet) (nf : Netfilter)
    (env : Env) (m : Message) (st : QueueState) : (Int × QueueState) × List Nat :=
  netfilterCallbackWith (loggedCalls parse process) nf env m st []

section

variable {parse : Option (List UInt8) → Nat → Int × Packet} {process : Packet → Int × Packet} {nf : Netfilter}
  {env : Env} {m : Message} {st : QueueState}

theorem loggedCallback_of_eq_zero (h : toUint32 (nfqGetPayload m) = 0) :
    loggedCallback parse process nf env m st = ((env.verdictRet, st.setVerdict m.id nfAccept none), []) := by
  unfold loggedCallback netfilterCallbackWith
  rw [if_pos h]
  rfl

/-- A length that is not 0 goes to the parser and into the counters as it is. -/
theorem loggedCallback_of_ne_zero (h : toUint32 (nfqGetPayload m) ≠ 0) (hcb : nf.packetCallback) :
    loggedCallback parse process nf env m st =
      (let parsed := parse m.payload (toUint32 (nfqGetPayload m))
        let st := st.countPacket (toUint32 (nfqGetPayload m))
        if parsed.1 < 0 then (nfAccept, st)
        else answerProcessed nf env m.id (process { parsed.2 with nfqueueId := m.id }) st,
        [toUint32 (nfqGetPayload m)]) := by
  unfold loggedCallback netfilterCallbackWith packetProcessCallbackWith
  simp only [h, hcb, ↓reduceIte]
  change ((if (parse m.payload (toUint32 (nfqGetPayload m))).1 < 0 then _ else _ :
    StateM (List Nat) (Int × QueueState)) _) = _
  split
  · rfl
  · rfl

end

/-- Where the run of the program ends with a result, it is the result for the answers that its functions gave. -/
theorem loggedCallback_of_val {cfg : Config} {nf : Netfilter} {env : Env} {m : Message} {st : QueueState}
    {out : Int × QueueState} (hcb : nf.packetCallback) (h : (netfilterCallback cfg nf env m st).val = some out) :
    (loggedCallback (fun data len => (packetParsePointer env data len packetInit).val.getD (-1, packetInit))
      (fun p => (packetProcess cfg env p).val.getD (-1, packetInit)) nf env m st).1 = out := by
  unfold netfilterCallback at h
  by_cases h0 : toUint32 (nfqGetPayload m) = 0
  · rw [if_pos h0] at h
    cases h
    rw [loggedCallback_of_eq_zero h0]
  · rw [if_neg h0, if_pos hcb] at h
    unfold packetProcessCallback at h
    simp only [h0, ↓reduceIte] at h
    obtain ⟨parsed, hparsed, hrest⟩ := val_of_bind h
    rw [loggedCallback_of_ne_zero h0 hcb]
    simp only [hparsed, Option.getD_some]
    by_cases hneg : parsed.1 < 0
    · rw [if_pos hneg] at hrest ⊢
      cases hrest
      rfl
    · rw [if_neg hneg] at hrest ⊢
      obtain ⟨r, hr, hpure⟩ := val_of_bind hrest
      cases hpure
      rw [hr]
      rfl

/-! ### Failed fetches -/

/-- A message whose payload cannot be fetched is counted with the length 4294967295; `packet_parse` refuses the NULL
pointer, and no verdict is sent. -/
theorem netfilterCallback_failed (cfg : Config) {nf : Netfilter} (env : Env) {m : Message} (st : QueueState)
    (hm : m.payload = none) (hcb : nf.packetCallback) :
    netfilterCallback cfg nf env m st = pure (nfAccept, st.countPacket 4294967295) := by
  have hlen : toUint32 (nfqGetPayload m) = 4294967295 := by
    unfold nfqGetPayload
    rw [hm]
    rfl
  unfold netfilterCallback packetProcessCallback
  rw [hlen, hm, if_neg (by decide), if_pos hcb]
  rfl

/-- `packet_parse` is called only with the length of a payload that was fetched, and only then the counters grow. -/
structure FetchRespected (m : Message) (st : QueueState) (out : (Int × QueueState) × List Nat) : Prop where
  calls : out.2 = if 0 < nfqGetPayload m then [(nfqGetPayload m).toNat] else []
  packets : out.1.2.packetsProcessed = st.packetsProcessed + if 0 < nfqGetPayload m then 1 else 0
  bytes : out.1.2.bytesProcessed =
    st.bytesProcessed + if 0 < nfqGetPayload m then UInt64.ofNat (nfqGetPayload m).toNat else 0

theorem answerProcessed_counters (nf : Netfilter) (env : Env) (id : UInt32) (r : Int × Packet) (st : QueueState) :
    (answerProcessed nf env id r st).2.packetsProcessed = st.packetsProcessed ∧
      (answerProcessed nf env id r st).2.bytesProcessed = st.bytesProcessed := by
  have hsend : ∀ data st, (netfilterSendVerdict nf env id nfAccept data st).2.packetsProcessed = st.packetsProcessed ∧
      (netfilterSendVerdict nf env id nfAccept data st).2.bytesProcessed = st.bytesProcessed := by
    intro data st
    unfold netfilterSendVerdict
    split <;> exact ⟨rfl, rfl⟩
  unfold answerProcessed
  split
  · split
    · split
      · exact hsend _ _
      · exact ⟨rfl, rfl⟩
    · exact ⟨rfl, rfl⟩
  · exact ⟨rfl, rfl⟩

/-- What is left of the result of `nfq_get_payload` in a `uint32_t`. -/
theorem toUint32_nfqGetPayload (m : Message) :
    toUint32 (nfqGetPayload m) = if nfqGetPayload m = -1 then 4294967295 else (nfqGetPayload m).toNat := by
  cases hp : m.payload with
  | none => simp [nfqGetPayload, hp, toUint32]
  | some b =>
    have hlen := m.size b hp
    have hr : nfqGetPayload m = (b.length : Int) := by simp [nfqGetPayload, hp]
    rw [hr, if_neg (by omega)]
    unfold toUint32
    omega

theorem nfqGetPayload_ge (m : Message) : -1 ≤ nfqGetPayload m := by
  unfold nfqGetPayload
  cases m.payload with
  | none => exact Int.le_refl _
  | some b =>
    change (-1 : Int) ≤ b.length
    omega

/-- The counters and the calls of a message whose length is not 0. -/
private theorem loggedCallback_counts (parse : Option (List UInt8) → Nat → Int × Packet)
    (process : Packet → Int × Packet) (nf : Netfilter) (env : Env) {m : Message} (st : QueueState)
    (h : toUint32 (nfqGetPayload m) ≠ 0) (hcb : nf.packetCallback) :
    (loggedCallback parse process nf env m st).2 = [toUint32 (nfqGetPayload m)] ∧
      (loggedCallback parse process nf env m st).1.2.packetsProcessed = st.packetsProcessed + 1 ∧
      (loggedCallback parse process nf env m st).1.2.bytesProcessed =
        st.bytesProcessed + UInt64.ofNat (toUint32 (nfqGetPayload m)) := by
  rw [loggedCallback_of_ne_zero h hcb]
  refine ⟨rfl, ?_⟩
  simp only
  split
  · exact ⟨rfl, rfl⟩
  · exact answerProcessed_counters nf env m.id _ _

/-- For every message, whatever the parser and the processor answer: the fetch is respected if and only if it did not
fail. -/
theorem fetchRespected_iff (parse : Option (List UInt8) → Nat → Int × Packet) (process : Packet → Int × Packet)
    (initialized : Bool) (env : Env) (m : Message) (st : QueueState) :
    FetchRespected m st (loggedCallback parse process ⟨initialized, true⟩ env m st) ↔ nfqGetPayload m ≠ -1 := by
  have hlen := toUint32_nfqGetPayload m
  have hge := nfqGetPayload_ge m
  by_cases hfail : nfqGetPayload m = -1
  · -- the -1 has become a length, and the parser has been called with it
    rw [if_pos hfail] at hlen
    have hne : toUint32 (nfqGetPayload m) ≠ 0 := by omega
    obtain ⟨hcalls, -⟩ := loggedCallback_counts parse process ⟨initialized, true⟩ env st hne rfl
    refine iff_of_false (fun hrespected => ?_) fun hok => hok hfail
    have hnone := hrespected.calls
    rw [hcalls, if_neg (by omega)] at hnone
    cases hnone
  · rw [if_neg hfail] at hlen
    refine iff_of_true ?_ hfail
    by_cases hpos : 0 < nfqGetPayload m
    · have hne : toUint32 (nfqGetPayload m) ≠ 0 := by omega
      obtain ⟨hcalls, hpackets, hbytes⟩ := loggedCallback_counts parse process ⟨initialized, true⟩ env st hne rfl
      rw [hlen] at hcalls hbytes
      refine ⟨?_, ?_, ?_⟩
      · rw [if_pos hpos]
        exact hcalls
      · rw [if_pos hpos]
        exact hpackets
      · rw [if_pos hpos]
        exact hbytes
    · rw [loggedCallback_of_eq_zero (by omega)]
      refine ⟨?_, ?_, ?_⟩
      · rw [if_neg hpos]
      · rw [if_neg hpos]
        exact (UInt64.add_zero _).symm
      · rw [if_neg hpos]
        exact (UInt64.add_zero _).symm

/-- A message whose payload cannot be fetched, for a parser that refuses it. -/
def failedFetch : (Int × QueueState) × List Nat :=
  loggedCallback (fun _ _ => (-1, packetInit)) (fun p => (0, p)) .ready ⟨true, true, true, true, -1, -1, 0, 0⟩
    ⟨1, none, by simp⟩ .init

/-- The parser is called with 4294967295, and the counters grow by 1 and by that. -/
theorem failedFetch_not_respected :
    ¬ FetchRespected ⟨1, none, by simp⟩ .init failedFetch ∧
    failedFetch =
      ((nfAccept, { QueueState.init with packetsProcessed := 1, bytesProcessed := 4294967295 }), [4294967295]) := by
  refine ⟨fun h => ?_, by decide⟩
  have hcalls := h.calls
  revert hcalls
  decide

end GoodbyeDpi
