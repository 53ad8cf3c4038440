import GoodbyeDpi.PacketProcessSafety

/-!
# The result of the packet processor

The contract of the whole of `packet_process` for accesses to the payload and to the headers: what must hold for
every access to be in range, and the return code and the packet that come out (`obeys_packetProcess`).
-/

namespace GoodbyeDpi

open CSem Traced Access

/-! ### Packets that are not HTTP -/

/-- `evasion_fragment_packet` reports success under the configured size. -/
def fragments (size : UInt32) (p : Packet) : Bool := decide (0 < size) && p.rawPacket.isSome

theorem fragmentStep_eq (size : UInt32) (m : Int) (p : Packet) :
    fragmentStep size (m, p) = (if fragments size p then 1 else m, p) := by
  unfold fragmentStep evasionFragmentPacket fragments
  by_cases h0 : 0 < size
  · have hne : size ≠ 0 := by
      intro h
      rw [h] at h0
      cases h0
    cases p.rawPacket <;> simp [h0, hne]
  · simp [h0]

/-- What the fake packet carries behind the headers, where one is made. -/
def fakeTrailer (cfg : Config) (p : Packet) : Option (List UInt8) :=
  if p.type = .ipv4Tcp ∨ p.type = .ipv6Tcp then
    if cfg.fakePacket then some [] else none
  else if p.type = .ipv4UdpData ∨ p.type = .ipv6UdpData then
    if p.srcPort = 53 ∨ p.dstPort = 53 then some fakeDns else none
  else none

/-- The fake packet is built and sent. -/
def fakeSent (cfg : Config) (env : Env) (p : Packet) : Bool :=
  (fakeTrailer cfg p).any fun t => malloc env.mallocFake (p.headersLen + t.length) &&
    (p.headersLen + t.length == 0 || sendRawPacket env p.isIpv6 == 0)

/-- The headers are there when they are copied into a fake packet. -/
def FakeReadsInside (cfg : Config) (env : Env) (p : Packet) : Prop :=
  ∀ t ∈ fakeTrailer cfg p, malloc env.mallocFake (p.headersLen + t.length) →
    p.headersLen = 0 ∨ p.headersLen ≤ (p.headers.getD []).length

/-- The HTTPS branch counts the packet as modified. -/
def httpsModified (cfg : Config) (env : Env) (p : Packet) : Bool :=
  packetIsHttps p && (fragments cfg.httpsFragmentSize p || (cfg.fakePacket && fakeSent cfg env p))

def NotHttpInside (cfg : Config) (env : Env) (p : Packet) : Prop :=
  packetIsHttps p → cfg.fakePacket → FakeReadsInside cfg env p

section

variable {P : Access Buf → Prop}

theorem obeys_createFake (hw : Watches P .headers) {env : Env} {p : Packet} {t : List UInt8}
    {Q : Option (List UInt8) → Prop} :
    Obeys P (createFake env p t) Q ↔
      if malloc env.mallocFake (p.headersLen + t.length) then
        (p.headersLen = 0 ∨ p.headersLen ≤ (p.headers.getD []).length) ∧
          Q (some ((p.headers.getD []).take p.headersLen ++ t))
      else Q none := by
  unfold createFake
  split
  · simp only [obeys_bind, obeys_slice hw, obeys_pure, Nat.zero_add, List.drop_zero]
  · rw [obeys_pure]

theorem obeys_evasionInjectFakePacket (hw : Watches P .headers) {cfg : Config} {env : Env} {p : Packet}
    {Q : Int → Prop} :
    Obeys P (evasionInjectFakePacket cfg env p) Q ↔
      FakeReadsInside cfg env p ∧ Q (if fakeSent cfg env p then 0 else -1) := by
  have hchoice : createFakeFor cfg env p = (fakeTrailer cfg p).elim (pure none) (createFake env p) := by
    unfold createFakeFor fakeTrailer
    split_ifs <;> rfl
  have hsend : sendRawPacket env p.isIpv6 = if sendRawPacket env p.isIpv6 = 0 then 0 else -1 := by
    unfold sendRawPacket
    split_ifs <;> simp_all
  unfold evasionInjectFakePacket FakeReadsInside fakeSent
  rw [obeys_bind, hchoice]
  cases fakeTrailer cfg p with
  | none => simp
  | some t =>
    simp only [Option.elim_some, obeys_createFake hw]
    by_cases hm : malloc env.mallocFake (p.headersLen + t.length)
    · simp only [hm, ↓reduceIte, obeys_pure, Option.mem_def, Option.some.injEq, forall_eq', true_imp_iff,
        Option.any_some, Bool.true_and]
      refine and_congr_right fun hin => iff_of_eq (congrArg Q ?_)
      have hlen : ((p.headers.getD []).take p.headersLen ++ t).length = p.headersLen + t.length := by
        rw [List.length_append, List.length_take]
        omega
      rw [hlen]
      by_cases h0 : p.headersLen + t.length = 0
      · simp [h0]
      · have h0' : (p.headersLen + t.length == 0) = false := by simpa using h0
        rw [if_pos (by omega), hsend, h0', Bool.false_or]
        simp
    · simp [hm]

theorem obeys_processNotHttp (hw : Watches P .headers) {cfg : Config} {env : Env} {p : Packet}
    {Q : Int × Packet → Prop} :
    Obeys P (processNotHttp cfg env p) Q ↔
      NotHttpInside cfg env p ∧ Q (if httpsModified cfg env p then 1 else 0, p) := by
  unfold processNotHttp NotHttpInside httpsModified
  rw [fragmentStep_eq]
  cases packetIsHttps p with
  | false => simp
  | true =>
    cases cfg.fakePacket with
    | false => simp
    | true =>
      simp only [↓reduceIte, obeys_bind, obeys_evasionInjectFakePacket hw, obeys_pure, Bool.true_and, true_imp_iff]
      refine and_congr Iff.rfl (iff_of_eq (congrArg Q ?_))
      cases fakeSent cfg env p <;> cases fragments cfg.httpsFragmentSize p <;> rfl

/-! ### The whole of `packet_process` -/

/-- The payload that is compared with the HTTP methods, if any. -/
def examined (cfg : Config) (p : Packet) : Option (List UInt8) :=
  if isTooLarge cfg p.payloadLen = false ∧ packetIsTcp p ∧ p.dstPort = 80 ∧ 3 ≤ p.payloadLen then p.payload else none

/-- The HTTP request that is edited, if any. -/
def httpPayload (cfg : Config) (p : Packet) : Option (List UInt8) := (examined cfg p).filter startsWithMethod

/-- Every access of `packet_process` to the payload and the headers is in range. -/
def ProcessInside (cfg : Config) (env : Env) (p : Packet) : Prop :=
  (∀ b ∈ examined cfg p, ¬ EndsInMethod httpMethods b) ∧ (∀ b ∈ httpPayload cfg p, PayloadEditsInside cfg b) ∧
    (isTooLarge cfg p.payloadLen = false → httpPayload cfg p = none → NotHttpInside cfg env p)

/-- The packet counts as modified. -/
def processModified (cfg : Config) (env : Env) (p : Packet) : Bool :=
  !isTooLarge cfg p.payloadLen && (httpPayload cfg p).elim (httpsModified cfg env p) fun b =>
    payloadEdited cfg b || fragments cfg.httpFragmentSize p

/-- The packet that `packet_process` leaves behind. -/
def processedPacket (cfg : Config) (p : Packet) : Packet :=
  (httpPayload cfg p).elim p fun b => p.setPayload (editedPayload cfg b)

/-- Only the payload bytes change. -/
theorem processedPacket_eq (cfg : Config) (p : Packet) :
    processedPacket cfg p =
      { p with payload := (httpPayload cfg p).elim p.payload fun b => some (editedPayload cfg b) } := by
  unfold processedPacket
  cases httpPayload cfg p <;> rfl

/-- The contract of `packet_process`. -/
theorem obeys_packetProcess (hwp : Watches P .payload) (hwh : Watches P .headers) {cfg : Config} {env : Env}
    {p : Packet} (hl : ∀ b, p.payload = some b → p.payloadLen = b.length) {Q : Int × Packet → Prop} :
    Obeys P (packetProcess cfg env p) Q ↔
      ProcessInside cfg env p ∧ Q (if processModified cfg env p then 1 else 0, processedPacket cfg p) := by
  unfold packetProcess ProcessInside processModified processedPacket httpPayload
  cases hbig : isTooLarge cfg p.payloadLen with
  | true =>
    have hex : examined cfg p = none := by simp [examined, hbig]
    simp [hex]
  | false =>
    simp only [Bool.false_eq_true, ↓reduceIte, obeys_bind, true_imp_iff, Bool.not_false, Bool.true_and]
    by_cases hex : packetIsTcp p ∧ p.dstPort = 80 ∧ 3 ≤ p.payloadLen
    · cases hpay : p.payload with
      | none =>
        have hnone : examined cfg p = none := by simp [examined, hpay]
        simp [hnone, packetIsHttp, hpay, obeys_processNotHttp hwh]
      | some b =>
        have hsome : examined cfg p = some b := by simp [examined, hpay, hbig, hex]
        rw [hsome, obeys_packetIsHttp hwp hpay, if_pos hex]
        cases hm : startsWithMethod b with
        | true =>
          have hraw : fragments cfg.httpFragmentSize (p.setPayload (editedPayload cfg b)) =
              fragments cfg.httpFragmentSize p := rfl
          have hfilter : (some b).filter startsWithMethod = some b := by simp [hm]
          simp only [↓reduceIte, obeys_processHttp hwp hpay (hl b hpay), fragmentStep_eq, hraw, hfilter,
            Option.mem_def, Option.some.injEq, forall_eq', Option.elim_some, reduceCtorEq, false_imp_iff, and_true,
            and_assoc]
          refine and_congr Iff.rfl (and_congr Iff.rfl (iff_of_eq (congrArg Q ?_)))
          cases payloadEdited cfg b <;> cases fragments cfg.httpFragmentSize p <;> rfl
        | false =>
          have hfilter : (some b).filter startsWithMethod = none := by simp [hm]
          simp [obeys_processNotHttp hwh, hfilter, and_assoc]
    · have hnone : examined cfg p = none := by
        unfold examined
        rw [if_neg fun h => hex h.2]
      have hhttp : packetIsHttp p = pure false := by
        unfold packetIsHttp
        cases p.payload with
        | none => rfl
        | some b => exact if_neg hex
      simp [hnone, hhttp, obeys_processNotHttp hwh]

end

/-- `packet_process` returns without an access out of range. -/
theorem packetProcess_returns_iff {cfg : Config} {env : Env} {p : Packet}
    (hl : ∀ b, p.payload = some b → p.payloadLen = b.length) {Q : Int × Packet → Prop} :
    ((packetProcess cfg env p).All InRange ∧ ∃ r, (packetProcess cfg env p).val = some r ∧ Q r) ↔
      ProcessInside cfg env p ∧ Q (if processModified cfg env p then 1 else 0, processedPacket cfg p) := by
  rw [← obeys_iff_of_imp fun _ h => h, obeys_packetProcess (watches_inRange _) (watches_inRange _) hl]

end GoodbyeDpi
