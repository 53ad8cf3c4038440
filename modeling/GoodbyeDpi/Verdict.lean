import GoodbyeDpi.Netfilter
import GoodbyeDpi.PacketParseSpec
import GoodbyeDpi.PacketProcessResult
import GoodbyeDpi.TcpPacket

/-!
# Which packets get a verdict

The kernel holds a packet until it gets a verdict.  A message with an empty payload is answered at once; any other
one is answered only if it parses, its raw packet was copied, and `packet_process` reports 0, that is, no evasion
step was applied.  The results are about whole runs: the ids of the `nfq_set_verdict` calls of a run are those of
its messages, in order, exactly when every message meets this condition.
-/

namespace GoodbyeDpi

open CSem Traced Access

/-! ### The packet that is processed -/

theorem length_withPayload {env : Env} {data : List UInt8} {dataType emptyType : PacketType} {off n : Nat}
    {p : Packet} (hp : p.payload = none) (hfit : malloc env.mallocPayload n → off + n = data.length) (b : List UInt8)
    (h : (withPayload env data dataType emptyType off n p).payload = some b) :
    (withPayload env data dataType emptyType off n p).payloadLen = b.length := by
  unfold withPayload at h ⊢
  by_cases h0 : 0 < n
  · by_cases hm : malloc env.mallocPayload n
    · have := hfit hm
      simp only [h0, hm, ↓reduceIte, Option.some.injEq] at h ⊢
      rw [← h, List.length_take, List.length_drop]
      omega
    · simp [h0, hm, hp] at h
  · simp [h0, hp] at h

theorem withPayload_rawPacket {env : Env} {data : List UInt8} {dataType emptyType : PacketType} {off n : Nat}
    {p : Packet} : (withPayload env data dataType emptyType off n p).rawPacket = p.rawPacket := by
  unfold withPayload
  split_ifs <;> rfl

/-- A payload that is copied has the length that is stored with it. -/
theorem parseOutcome_payloadLen {env : Env} {data : List UInt8} (hlen : data.length < sizeMod) (b : List UInt8)
    (h : (parseOutcome env data).2.payload = some b) : (parseOutcome env data).2.payloadLen = b.length := by
  have hfit : malloc env.mallocPayload (wrapSub data.length (headersLen data)) →
      headersLen data + wrapSub data.length (headersLen data) = data.length := by
    intro hm
    exact add_wrapSub_of_lt hlen (headersLen_le data) (lt_of_malloc hm)
  have hbase : (withPorts data (ipv4Base data)).payload = none := rfl
  have htransport : ∀ c, (withTransport env data (ipv4Base data)).payload = some c →
      (withTransport env data (ipv4Base data)).payloadLen = c.length := by
    intro c hc
    by_cases htcp : ipProtocol data = ipprotoTcp
    · simp only [withTransport, htcp, ↓reduceIte] at hc ⊢
      exact length_withPayload hbase hfit c hc
    · by_cases hudp : ipProtocol data = ipprotoUdp
      · simp only [withTransport, hudp, show ¬ ipprotoUdp = ipprotoTcp by decide, ↓reduceIte] at hc ⊢
        exact length_withPayload hbase hfit c hc
      · simp only [withTransport, htcp, hudp, ↓reduceIte] at hc
        cases hc
  unfold parseOutcome at h ⊢
  split_ifs at h ⊢
  · cases h
  · cases h
  · exact htransport b h
  · cases h
  · cases h

/-- The packet that `packet_process_callback` hands to `packet_process`. -/
def queuedPacket (env : Env) (id : UInt32) (data : List UInt8) : Packet :=
  { (parseOutcome env data).2 with nfqueueId := id }

/-- The bytes parse. -/
def Accepted (data : List UInt8) : Prop :=
  iphdrSize ≤ data.length ∧ (ipVersion data = 4 ∧ ¬ TransportTooShort data ∨ ipVersion data = 6)

instance (data : List UInt8) : Decidable (Accepted data) := inferInstanceAs (Decidable (_ ∧ _))

theorem accepted_iff {env : Env} {data : List UInt8} : Accepted data ↔ ¬ (parseOutcome env data).1 < 0 := by
  unfold Accepted parseOutcome
  by_cases h20 : data.length < iphdrSize
  · simp [h20, show ¬ iphdrSize ≤ data.length by omega]
  · by_cases h4 : ipVersion data = 4
    · by_cases hshort : TransportTooShort data
      · simp [h20, h4, hshort]
      · simp [h20, h4, hshort]
        omega
    · by_cases h6 : ipVersion data = 6
      · simp [h20, h6]
        omega
      · simp [h20, h4, h6]

/-- An accepted packet has its raw copy exactly when `malloc` granted it. -/
theorem queuedPacket_rawPacket (env : Env) {data : List UInt8} (h : Accepted data) (id : UInt32) :
    (queuedPacket env id data).rawPacket = (if malloc env.mallocRaw data.length then some data else none) ∧
      (queuedPacket env id data).rawPacketLen = data.length := by
  obtain ⟨h20, hkind⟩ := h
  unfold queuedPacket parseOutcome
  rw [if_neg (by omega)]
  rcases hkind with ⟨h4, hshort⟩ | h6
  · rw [if_pos h4, if_neg hshort]
    have hraw : (withTransport env data (ipv4Base data)).rawPacket = none := by
      unfold withTransport
      split_ifs
      · exact withPayload_rawPacket
      · exact withPayload_rawPacket
      · rfl
    refine ⟨?_, rfl⟩
    change (if malloc env.mallocRaw data.length then some data
      else (withTransport env data (ipv4Base data)).rawPacket) = _
    rw [hraw]
  · rw [if_neg (by rw [h6]; decide), if_pos h6]
    exact ⟨rfl, rfl⟩

/-! ### One message -/

/-- A message as the queue delivers it, with what the calls out of the program answer while it is handled. -/
structure Delivery where
  id : UInt32
  bytes : List UInt8
  size : bytes.length < 2 ^ 31
  env : Env

namespace Delivery

variable (d : Delivery)

def message : Message where
  id := d.id
  payload := some d.bytes
  size := by
    intro b hb
    cases hb
    exact d.size

/-- The packet that is processed, if the bytes parse. -/
def packet : Packet := queuedPacket d.env d.id d.bytes

/-- Every access that is made while the message is handled is in range. -/
def Inside (cfg : Config) : Prop :=
  d.bytes ≠ [] → ParseInside d.env d.bytes ∧ (Accepted d.bytes → ProcessInside cfg d.env d.packet)

/-- The condition for a verdict: the payload is empty; or it parses within its bounds, its raw copy was granted, and
`packet_process` stays in range and applies no evasion step. -/
def GetsVerdict (cfg : Config) : Prop :=
  d.bytes = [] ∨ ParseInside d.env d.bytes ∧ Accepted d.bytes ∧ malloc d.env.mallocRaw d.bytes.length ∧
    ProcessInside cfg d.env d.packet ∧ processModified cfg d.env d.packet = false

/-- A verdict is sent, provided that the message is handled in range. -/
def answered (cfg : Config) : Bool :=
  d.bytes.isEmpty || decide (Accepted d.bytes) && !processModified cfg d.env d.packet &&
    malloc d.env.mallocRaw d.bytes.length

theorem getsVerdict_iff (cfg : Config) : d.GetsVerdict cfg ↔ d.Inside cfg ∧ d.answered cfg := by
  unfold GetsVerdict Inside answered
  by_cases hnil : d.bytes = []
  · simp [hnil]
  · by_cases hacc : Accepted d.bytes
    · simp [hnil, hacc]
      tauto
    · simp [hnil, hacc]

/-- The state after the message has been handled. -/
def after (cfg : Config) (st : QueueState) : QueueState :=
  if d.bytes = [] then st.setVerdict d.id nfAccept none
  else if (parseOutcome d.env d.bytes).1 < 0 then st.countPacket d.bytes.length
  else (answerProcessed .ready d.env d.id
    (if processModified cfg d.env d.packet then 1 else 0, processedPacket cfg d.packet)
    (st.countPacket d.bytes.length)).2

theorem toUint32_payload : toUint32 (nfqGetPayload d.message) = d.bytes.length := by
  have := d.size
  unfold toUint32 nfqGetPayload message
  simp only [Option.elim_some]
  omega

theorem packet_payloadLen (b : List UInt8) (h : d.packet.payload = some b) : d.packet.payloadLen = b.length := by
  have hlen : d.bytes.length < sizeMod := Nat.lt_trans d.size (by decide)
  exact parseOutcome_payloadLen hlen b h

theorem obeys_netfilterCallback {cfg : Config} {st : QueueState} {Q : QueueState → Prop} :
    Obeys InRange (netfilterCallback cfg .ready d.env d.message st) (fun r => Q r.2) ↔
      d.Inside cfg ∧ Q (d.after cfg st) := by
  have hlen : d.bytes.length < sizeMod := Nat.lt_trans d.size (by decide)
  unfold netfilterCallback packetProcessCallback Inside after
  rw [d.toUint32_payload]
  by_cases hnil : d.bytes = []
  · simp [hnil, message]
  · have hpos : ¬ d.bytes.length = 0 := fun h => hnil (List.length_eq_zero_iff.1 h)
    simp only [hpos, hnil, ↓reduceIte, Netfilter.ready, ne_eq, not_false_eq_true, true_imp_iff, obeys_bind]
    change Obeys InRange (packetParse d.env d.bytes d.bytes.length packetInit) _ ↔ _
    rw [obeys_packetParse_inRange hlen, and_assoc]
    refine and_congr Iff.rfl ?_
    by_cases hacc : (parseOutcome d.env d.bytes).1 < 0
    · have hno : ¬ Accepted d.bytes := fun h => accepted_iff.1 h hacc
      simp [hacc, hno]
    · have hyes : Accepted d.bytes := accepted_iff.2 hacc
      simp only [hacc, ↓reduceIte, obeys_bind, obeys_pure, hyes, true_imp_iff]
      change Obeys InRange (packetProcess cfg d.env d.packet) _ ↔ _
      rw [obeys_packetProcess (watches_inRange _) (watches_inRange _) d.packet_payloadLen]
      exact Iff.rfl

/-- What the handling of a message does to the state: an empty one is answered; one that does not parse or that is
modified is counted and no more; any other one is counted as modified, and answered if there is a raw copy. -/
theorem after_cases (cfg : Config) (st : QueueState) :
    (d.bytes = [] ∧ d.after cfg st = st.setVerdict d.id nfAccept none) ∨
    (d.bytes ≠ [] ∧ ¬ Accepted d.bytes ∧ d.after cfg st = st.countPacket d.bytes.length) ∨
    (d.bytes ≠ [] ∧ Accepted d.bytes ∧ processModified cfg d.env d.packet = true ∧
      d.after cfg st = st.countPacket d.bytes.length) ∨
    (d.bytes ≠ [] ∧ Accepted d.bytes ∧ processModified cfg d.env d.packet = false ∧
      d.after cfg st = if malloc d.env.mallocRaw d.bytes.length then
        (st.countPacket d.bytes.length).countModified.setVerdict d.id nfAccept (some d.bytes)
        else (st.countPacket d.bytes.length).countModified) := by
  unfold after
  by_cases hnil : d.bytes = []
  · exact Or.inl ⟨hnil, if_pos hnil⟩
  right
  rw [if_neg hnil]
  by_cases hacc : Accepted d.bytes
  · obtain ⟨hraw, hrawLen⟩ := queuedPacket_rawPacket d.env hacc d.id
    have hpos : 0 < d.bytes.length := List.length_pos_iff.2 hnil
    rw [if_neg (accepted_iff.1 hacc), processedPacket_eq]
    unfold answerProcessed
    cases hmod : processModified cfg d.env d.packet with
    -- a modified packet is dropped without a verdict
    | true => exact Or.inr (Or.inl ⟨hnil, hacc, rfl, rfl⟩)
    | false =>
      refine Or.inr (Or.inr ⟨hnil, hacc, rfl, ?_⟩)
      simp only [packet, hraw, hrawLen]
      cases malloc d.env.mallocRaw d.bytes.length with
      | true => simp [hpos, netfilterSendVerdict, Netfilter.ready]
      | false => simp
  · have hneg : (parseOutcome d.env d.bytes).1 < 0 := by
      by_contra h
      exact hacc (accepted_iff.2 h)
    exact Or.inl ⟨hnil, hacc, if_pos hneg⟩

/-- The handling of a message adds its own id to the verdicts, or nothing. -/
theorem ids_after (cfg : Config) (st : QueueState) :
    (d.after cfg st).ids = st.ids ++ if d.answered cfg then [d.id] else [] := by
  unfold answered
  rcases d.after_cases cfg st with ⟨hnil, heq⟩ | ⟨hnil, hacc, heq⟩ | ⟨hnil, hacc, hmod, heq⟩ | ⟨hnil, hacc, hmod, heq⟩
  · simp [heq, hnil, QueueState.ids, QueueState.setVerdict]
  · simp [heq, hnil, hacc, QueueState.ids, QueueState.countPacket]
  · simp [heq, hnil, hmod, QueueState.ids, QueueState.countPacket]
  · rw [heq]
    cases malloc d.env.mallocRaw d.bytes.length with
    | true =>
      simp [hacc, hmod, QueueState.ids, QueueState.setVerdict, QueueState.countModified, QueueState.countPacket]
    | false => simp [hnil, QueueState.ids, QueueState.countModified, QueueState.countPacket]

end Delivery

/-! ### Whole runs -/

/-- The deliveries one after the other. -/
def afterAll (cfg : Config) (ds : List Delivery) (st : QueueState) : QueueState :=
  ds.foldl (fun st d => d.after cfg st) st

def Delivery.step (d : Delivery) : Message × Env := (d.message, d.env)

theorem obeys_handleMessages {cfg : Config} {ds : List Delivery} {st : QueueState} {Q : QueueState → Prop} :
    Obeys InRange (handleMessages cfg .ready (ds.map Delivery.step) st) Q ↔
      (∀ d ∈ ds, d.Inside cfg) ∧ Q (afterAll cfg ds st) := by
  induction ds generalizing st with
  | nil => simp [handleMessages, afterAll]
  | cons d ds ih =>
    simp only [List.map_cons, handleMessages, obeys_bind, ih]
    change Obeys InRange (netfilterCallback cfg .ready d.env d.message st)
      (fun r => (∀ d ∈ ds, d.Inside cfg) ∧ Q (afterAll cfg ds r.2)) ↔ _
    rw [d.obeys_netfilterCallback (Q := fun st => (∀ d ∈ ds, d.Inside cfg) ∧ Q (afterAll cfg ds st)), ← and_assoc,
      List.forall_mem_cons]
    exact Iff.rfl

theorem ids_afterAll (cfg : Config) (ds : List Delivery) (st : QueueState) :
    (afterAll cfg ds st).ids = st.ids ++ (ds.filter (·.answered cfg)).map (·.id) := by
  induction ds generalizing st with
  | nil => simp [afterAll]
  | cons d ds ih =>
    change (afterAll cfg ds (d.after cfg st)).ids = _
    rw [ih, d.ids_after, List.filter_cons]
    cases d.answered cfg <;> simp

/-- In a run from any state, the ids of the verdicts are those of the messages, one for each and in order, exactly
when every message meets the condition. -/
theorem handleMessages_answers_iff (cfg : Config) (ds : List Delivery) (st : QueueState) :
    ((handleMessages cfg .ready (ds.map Delivery.step) st).All InRange ∧
      ∃ st', (handleMessages cfg .ready (ds.map Delivery.step) st).val = some st' ∧
        st'.ids = st.ids ++ ds.map (·.id)) ↔
      ∀ d ∈ ds, d.GetsVerdict cfg := by
  rw [← obeys_iff_of_imp fun _ h => h, obeys_handleMessages, ids_afterAll, List.append_right_inj]
  -- ids may repeat, so the messages without a verdict are counted
  have hall : (ds.filter (·.answered cfg)).map (·.id) = ds.map (·.id) ↔ ∀ d ∈ ds, d.answered cfg := by
    constructor
    · intro h
      have hlen := congrArg List.length h
      rw [List.length_map, List.length_map] at hlen
      exact List.length_filter_eq_length_iff.1 hlen
    · intro h
      rw [List.filter_eq_self.2 h]
  rw [hall]
  constructor
  · intro h d hd
    exact (d.getsVerdict_iff cfg).2 ⟨h.1 d hd, h.2 d hd⟩
  · intro h
    exact ⟨fun d hd => ((d.getsVerdict_iff cfg).1 (h d hd)).1, fun d hd => ((d.getsVerdict_iff cfg).1 (h d hd)).2⟩

/-- A segment without data to port 443. -/
def httpsSegment : Delivery where
  id := 7
  bytes := minimalHeaders 1 187
  size := by decide
  env := plainEnv

/-- With the default configuration the segment is reported as fragmented, and no verdict is sent. -/
theorem httpsSegment_not_answered :
    ∃ st', (handleMessages configInit .ready [httpsSegment.step] .init).val = some st' ∧
      st'.ids ≠ QueueState.init.ids ++ [httpsSegment.id] :=
  ⟨⟨[], 1, 0, 40⟩, by decide, by decide⟩

end GoodbyeDpi
