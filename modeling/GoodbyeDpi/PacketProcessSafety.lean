import GoodbyeDpi.PacketProcessSpec
import GoodbyeDpi.TcpPacket

/-!
# Which payloads the packet processor handles within bounds

The three edits of the Host header one after the other, and from them the whole of `packet_process`: the bytes that
must be in the payload for every access to stay inside it, the payload that results, and whether the packet counts
as modified.
-/

namespace GoodbyeDpi

open CSem Traced Access

/-! ### The edits in sequence -/

/-- Some edit of the Host header is switched on. -/
def editsOn (cfg : Config) : Bool := cfg.hostMixedcase || cfg.hostRemovespace || cfg.additionalSpace

/-- The bytes behind `Host:` let every edit that is on stay inside the payload. -/
def HostEditsInside (cfg : Config) (r : List UInt8) : Prop :=
  (cfg.hostMixedcase → r.any endsValue) ∧
  (cfg.hostRemovespace → hasSpace r → (0 : UInt8) ∈ r.tail) ∧
  (cfg.additionalSpace → ¬ (cfg.hostRemovespace ∧ hasSpace r) → RoomBehindNul r)

instance (cfg : Config) (r : List UInt8) : Decidable (HostEditsInside cfg r) := inferInstanceAs (Decidable (_ ∧ _))

/-- The bytes behind `Host:` after the first edit, if it is on. -/
def caseStep (cfg : Config) (r : List UInt8) : List UInt8 := if cfg.hostMixedcase then mixValue r else r

/-- The bytes behind `Host:` after the first two edits, where they are on. -/
def spaceStep (cfg : Config) (r : List UInt8) : List UInt8 :=
  if cfg.hostRemovespace then dropSpace (caseStep cfg r) else caseStep cfg r

/-- The bytes behind `Host:` after the edits that are on. -/
def editHost (cfg : Config) (r : List UInt8) : List UInt8 :=
  if cfg.additionalSpace then addSpace (spaceStep cfg r) else spaceStep cfg r

/-- Some edit reports success. -/
def hostEdited (cfg : Config) (r : List UInt8) : Bool :=
  (cfg.hostMixedcase && !(hostValue r).isEmpty) || (cfg.hostRemovespace && hasSpace r) || cfg.additionalSpace

/-- The payload lets every edit that is on stay inside it. -/
def PayloadEditsInside (cfg : Config) (b : List UInt8) : Prop :=
  editsOn cfg → HostSearchInside b ∧ ∀ s ∈ splitHost b, HostEditsInside cfg s.2

instance (cfg : Config) (b : List UInt8) : Decidable (PayloadEditsInside cfg b) :=
  inferInstanceAs (Decidable (_ → _ ∧ _))

def editedPayload (cfg : Config) (b : List UInt8) : List UInt8 :=
  (splitHost b).elim b fun s => s.1 ++ editHost cfg s.2

def payloadEdited (cfg : Config) (b : List UInt8) : Bool := (splitHost b).elim false fun s => hostEdited cfg s.2

def Packet.setPayload (p : Packet) (b : List UInt8) : Packet := { p with payload := some b }

section

variable {cfg : Config} {r : List UInt8}

/-- `host_mixedcase` keeps the bytes up to letter case. -/
theorem map_toLower_caseStep (cfg : Config) (r : List UInt8) : (caseStep cfg r).map toLower = r.map toLower := by
  unfold caseStep
  split
  · exact map_toLower_mixValue r
  · rfl

theorem spaceStep_of_removed (h : cfg.hostRemovespace ∧ hasSpace r) :
    spaceStep cfg r = removeSpace (caseStep cfg r) := by
  unfold spaceStep dropSpace
  rw [hasSpace_congr (map_toLower_caseStep cfg r), if_pos h.1, if_pos h.2]

theorem spaceStep_of_kept (h : ¬ (cfg.hostRemovespace ∧ hasSpace r)) : spaceStep cfg r = caseStep cfg r := by
  unfold spaceStep dropSpace
  rw [hasSpace_congr (map_toLower_caseStep cfg r)]
  by_cases hon : cfg.hostRemovespace
  · rw [if_pos hon, if_neg fun hs => h ⟨hon, hs⟩]
  · rw [if_neg hon]

theorem length_spaceStep (hspace : cfg.hostRemovespace → hasSpace r → (0 : UInt8) ∈ r.tail) :
    (spaceStep cfg r).length = r.length := by
  have hci := map_toLower_caseStep cfg r
  by_cases h : cfg.hostRemovespace ∧ hasSpace r
  · have hz := (zero_mem_tail_congr hci).2 (hspace h.1 h.2)
    rw [spaceStep_of_removed h, length_removeSpace hz, length_eq_of_ci hci]
  · rw [spaceStep_of_kept h, length_eq_of_ci hci]

/-- After a removal there is room behind the NUL; otherwise there is as much as before. -/
theorem roomBehindNul_spaceStep (hspace : cfg.hostRemovespace → hasSpace r → (0 : UInt8) ∈ r.tail) :
    RoomBehindNul (spaceStep cfg r) ↔ (¬ (cfg.hostRemovespace ∧ hasSpace r) → RoomBehindNul r) := by
  have hci := map_toLower_caseStep cfg r
  by_cases h : cfg.hostRemovespace ∧ hasSpace r
  · have hz := (zero_mem_tail_congr hci).2 (hspace h.1 h.2)
    rw [spaceStep_of_removed h]
    exact iff_of_true (roomBehindNul_removeSpace hz) fun hn => absurd h hn
  · rw [spaceStep_of_kept h, roomBehindNul_congr hci]
    exact ⟨fun hroom _ => hroom, fun hroom => hroom h⟩

/-- Edits that stay inside the payload keep its length. -/
theorem length_editHost (h : HostEditsInside cfg r) : (editHost cfg r).length = r.length := by
  obtain ⟨-, hspace, hroom⟩ := h
  unfold editHost
  split
  · rename_i hadd
    rw [length_addSpace ((roomBehindNul_spaceStep hspace).2 (hroom hadd)), length_spaceStep hspace]
  · exact length_spaceStep hspace

end

section

variable {P : Access Buf → Prop}

/-- The common form of the contracts of the three edits. -/
def EditSpec (P : Access Buf → Prop) (edit : List UInt8 → Nat → CRun Buf (Int × List UInt8))
    (inside : List UInt8 → Prop) (done : List UInt8 → Bool) (out : List UInt8 → List UInt8) : Prop :=
  ∀ b (Q : Int × List UInt8 → Prop), Obeys P (edit b b.length) Q ↔
    HostSearchInside b ∧ (splitHost b).elim (Q (-1, b)) fun s =>
      inside s.2 ∧ Q (if done s.2 then 0 else -1, s.1 ++ out s.2)

/-- The edit does not depend on the length that it is given, if that is not too short. -/
def LengthBlind (edit : List UInt8 → Nat → CRun Buf (Int × List UInt8)) : Prop :=
  ∀ b {n m}, 6 ≤ n → 6 ≤ m → edit b n = edit b m

private theorem findHostHeader_blind (b : List UInt8) {n m : Nat} (hn : 6 ≤ n) (hm : 6 ≤ m) :
    findHostHeader b n = findHostHeader b m := by
  rw [findHostHeader, findHostHeader, if_neg (by omega), if_neg (by omega)]

theorem lengthBlind_mixedcase : LengthBlind applyHostMixedcase := by
  intro b n m hn hm
  rw [applyHostMixedcase, findHostHeader_blind b hn hm, applyHostMixedcase]

theorem lengthBlind_removespace : LengthBlind applyHostRemovespace := by
  intro b n m hn hm
  rw [applyHostRemovespace, findHostHeader_blind b hn hm, applyHostRemovespace]

theorem lengthBlind_additionalSpace : LengthBlind applyAdditionalSpace := by
  intro b n m hn hm
  rw [applyAdditionalSpace, findHostHeader_blind b hn hm, applyAdditionalSpace]

section

variable {edit : List UInt8 → Nat → CRun Buf (Int × List UInt8)} {inside : List UInt8 → Prop}
  {done : List UInt8 → Bool} {out : List UInt8 → List UInt8}

theorem obeys_editPayload_of_none (hspec : EditSpec P edit inside done out) (on : Bool) {p : Packet} {b : List UInt8}
    (hp : p.payload = some b) (hl : p.payloadLen = b.length) (hs : splitHost b = none) {m : Int}
    {Q : Int × Packet → Prop} :
    Obeys P (editPayload on edit (m, p)) Q ↔ (on → HostSearchInside b) ∧ Q (m, p) := by
  have hpb : { p with payload := some b } = p := by rw [← hp]
  cases on with
  | false => simp [editPayload]
  | true =>
    have hb := hspec b
    rw [← hl, hs] at hb
    simp only [editPayload, hp, obeys_bind, obeys_pure, hb, Option.elim_none, true_imp_iff, hpb]
    simp

theorem obeys_editPayload_of_some (hspec : EditSpec P edit inside done out) (on : Bool) {p : Packet}
    {pre r : List UInt8} (hblind : LengthBlind edit) (hl : 6 ≤ p.payloadLen)
    (hs : splitHost (pre ++ r) = some (pre, r)) (hr : r ≠ []) {m : Int} {Q : Int × Packet → Prop} :
    Obeys P (editPayload on edit (m, p.setPayload (pre ++ r))) Q ↔
      (on → inside r) ∧ Q (if on && done r then 1 else m, p.setPayload (pre ++ if on then out r else r)) := by
  cases on with
  | false => simp [editPayload, Packet.setPayload]
  | true =>
    have hb := hspec (pre ++ r)
    rw [hblind _ (splitHost_eq_some hs).2.1 hl, hs] at hb
    simp only [editPayload, Packet.setPayload, obeys_bind, obeys_pure, hb, Option.elim_some,
      (hostSearchInside_iff hs).2 hr, true_and, true_imp_iff, ↓reduceIte, Bool.true_and]
    cases done r <;> simp

theorem not_obeys_editPayload (hspec : EditSpec P edit inside done out) {p : Packet} {b : List UInt8}
    (hp : p.payload = some b) (hl : p.payloadLen = b.length) (hb : ¬ HostSearchInside b) {m : Int}
    {Q : Int × Packet → Prop} : ¬ Obeys P (editPayload true edit (m, p)) Q := by
  have h := hspec b
  rw [← hl] at h
  simp only [editPayload, hp, obeys_bind, h, hb, false_and, not_false_eq_true]

end

theorem editSpec_mixedcase (hw : Watches P .payload) :
    EditSpec P applyHostMixedcase (fun r => r.any endsValue) (fun r => !(hostValue r).isEmpty) mixValue := by
  intro b Q
  rw [obeys_applyHostMixedcase hw]
  refine and_congr Iff.rfl ?_
  cases splitHost b with
  | none => rfl
  | some s =>
    simp only [Option.elim_some]
    by_cases hv : hostValue s.2 = [] <;> simp [hv]

theorem editSpec_removespace (hw : Watches P .payload) :
    EditSpec P applyHostRemovespace (fun r => hasSpace r → (0 : UInt8) ∈ r.tail) hasSpace dropSpace :=
  fun _ _ => obeys_applyHostRemovespace hw

theorem editSpec_additionalSpace (hw : Watches P .payload) :
    EditSpec P applyAdditionalSpace RoomBehindNul (fun _ => true) addSpace :=
  fun _ _ => obeys_applyAdditionalSpace hw

section

variable {cfg : Config} {p : Packet} {b : List UInt8} (hp : p.payload = some b) (hl : p.payloadLen = b.length)

include hp

private theorem setPayload_self : p.setPayload b = p := by
  unfold Packet.setPayload
  rw [← hp]

/-- Without edits the payload is not looked at. -/
private theorem obeys_processHttp_of_off (hoff : editsOn cfg = false) {Q : Int × Packet → Prop} :
    Obeys P (processHttp cfg p) Q ↔
      Q (fragmentStep cfg.httpFragmentSize
        (if payloadEdited cfg b then 1 else 0, p.setPayload (editedPayload cfg b))) := by
  simp only [editsOn, Bool.or_eq_false_iff] at hoff
  obtain ⟨⟨hmix, hrm⟩, hadd⟩ := hoff
  have hpay : editedPayload cfg b = b := by
    unfold editedPayload
    cases hs : splitHost b with
    | none => rfl
    | some s =>
      obtain ⟨rfl, -⟩ := splitHost_eq_some hs
      simp [editHost, spaceStep, caseStep, hmix, hrm, hadd]
  have hflag : payloadEdited cfg b = false := by
    unfold payloadEdited
    cases splitHost b <;> simp [hostEdited, hmix, hrm, hadd]
  simp [processHttp, editPayload, hmix, hrm, hadd, hpay, hflag, setPayload_self hp]

include hl

/-- Without a Host header every edit that is on searches the payload and leaves it as it is. -/
private theorem obeys_processHttp_of_none (hw : Watches P .payload) (hs : splitHost b = none)
    {Q : Int × Packet → Prop} :
    Obeys P (processHttp cfg p) Q ↔
      (editsOn cfg → HostSearchInside b) ∧ Q (fragmentStep cfg.httpFragmentSize (0, p)) := by
  have hnone := fun (edit inside done out) (hspec : EditSpec P edit inside done out) on m R =>
    obeys_editPayload_of_none hspec on hp hl hs (m := m) (Q := R)
  simp only [processHttp, obeys_bind, obeys_pure, hnone _ _ _ _ (editSpec_mixedcase hw),
    hnone _ _ _ _ (editSpec_removespace hw), hnone _ _ _ _ (editSpec_additionalSpace hw), editsOn, Bool.or_eq_true]
  tauto

/-- When the search leaves the payload, the first edit that is on does. -/
private theorem not_obeys_processHttp (hw : Watches P .payload) (hon : editsOn cfg) (hout : ¬ HostSearchInside b)
    {Q : Int × Packet → Prop} : ¬ Obeys P (processHttp cfg p) Q := by
  unfold processHttp
  simp only [obeys_bind]
  cases hmix : cfg.hostMixedcase with
  | true => exact not_obeys_editPayload (editSpec_mixedcase hw) hp hl hout
  | false =>
    simp only [editPayload, obeys_pure]
    cases hrm : cfg.hostRemovespace with
    | true => exact not_obeys_editPayload (editSpec_removespace hw) hp hl hout
    | false =>
      simp only [obeys_pure]
      have hadd : cfg.additionalSpace = true := by simpa [editsOn, hmix, hrm] using hon
      rw [hadd]
      exact not_obeys_editPayload (editSpec_additionalSpace hw) hp hl hout

end

/-- The three edits on a payload with a Host header. -/
theorem obeys_processHttp_of_some (hw : Watches P .payload) (cfg : Config) {p : Packet} {pre r : List UInt8}
    (hl : 6 ≤ p.payloadLen) (hs : splitHost (pre ++ r) = some (pre, r)) (hr : r ≠ [])
    {Q : Int × Packet → Prop} :
    Obeys P (processHttp cfg (p.setPayload (pre ++ r))) Q ↔
      HostEditsInside cfg r ∧ Q (fragmentStep cfg.httpFragmentSize
        (if hostEdited cfg r then 1 else 0, p.setPayload (pre ++ editHost cfg r))) := by
  have hrpos : 0 < r.length := List.length_pos_iff.2 hr
  have hci := map_toLower_caseStep cfg r
  have hne₁ : caseStep cfg r ≠ [] := List.length_pos_iff.1 (by rw [length_eq_of_ci hci]; exact hrpos)
  unfold processHttp HostEditsInside
  simp only [obeys_bind, obeys_pure]
  rw [obeys_editPayload_of_some (editSpec_mixedcase hw) cfg.hostMixedcase lengthBlind_mixedcase hl hs hr]
  change _ ∧ Obeys P (editPayload _ _ (_, p.setPayload (pre ++ caseStep cfg r))) _ ↔ _
  -- the mixed case changes neither the spaces nor the NULs that the next edit looks for
  rw [obeys_editPayload_of_some (editSpec_removespace hw) cfg.hostRemovespace lengthBlind_removespace hl
      (splitHost_append hs hne₁) hne₁, hasSpace_congr hci, zero_mem_tail_congr hci, and_assoc, and_assoc]
  refine and_congr Iff.rfl (and_congr_right fun hspace => ?_)
  have hne₂ : spaceStep cfg r ≠ [] := List.length_pos_iff.1 (by rw [length_spaceStep hspace]; exact hrpos)
  change Obeys P (editPayload _ _ (_, p.setPayload (pre ++ spaceStep cfg r))) _ ↔ _
  -- a space that was removed has left room behind the NUL for the one that is added
  rw [obeys_editPayload_of_some (editSpec_additionalSpace hw) cfg.additionalSpace lengthBlind_additionalSpace hl
      (splitHost_append hs hne₂) hne₂, roomBehindNul_spaceStep hspace]
  refine and_congr Iff.rfl (iff_of_eq (congrArg Q ?_))
  unfold editHost hostEdited
  congr 2
  cases cfg.hostMixedcase && !(hostValue r).isEmpty <;> cases cfg.hostRemovespace && hasSpace r <;>
    cases cfg.additionalSpace <;> rfl

/-- The contract of the HTTP branch. -/
theorem obeys_processHttp (hw : Watches P .payload) {cfg : Config} {p : Packet} {b : List UInt8}
    (hp : p.payload = some b) (hl : p.payloadLen = b.length) {Q : Int × Packet → Prop} :
    Obeys P (processHttp cfg p) Q ↔
      PayloadEditsInside cfg b ∧ Q (fragmentStep cfg.httpFragmentSize
        (if payloadEdited cfg b then 1 else 0, p.setPayload (editedPayload cfg b))) := by
  have hpb := setPayload_self hp
  cases hon : editsOn cfg with
  | false =>
    rw [obeys_processHttp_of_off hp hon]
    simp [PayloadEditsInside, hon]
  | true =>
    cases hs : splitHost b with
    | none =>
      rw [obeys_processHttp_of_none hp hl hw hs]
      simp [PayloadEditsInside, hon, hs, payloadEdited, editedPayload, hpb]
    | some s =>
      obtain ⟨pre, r⟩ := s
      obtain ⟨rfl, -⟩ := splitHost_eq_some hs
      by_cases hr : r = []
      · -- the payload ends with `Host:`, and the search reads the byte behind it
        have hout : ¬ HostSearchInside (pre ++ r) := fun h => (hostSearchInside_iff hs).1 h hr
        have hno : ¬ PayloadEditsInside cfg (pre ++ r) := fun h => hout (h hon).1
        exact iff_of_false (not_obeys_processHttp hp hl hw hon hout) fun h => hno h.1
      · have hcond : PayloadEditsInside cfg (pre ++ r) ↔ HostEditsInside cfg r := by
          simp [PayloadEditsInside, hon, hs, hostSearchInside_iff hs, hr]
        have hl6 : 6 ≤ p.payloadLen := hl ▸ (splitHost_eq_some hs).2.1
        have hsome := obeys_processHttp_of_some hw cfg hl6 hs hr (Q := Q)
        rw [hpb] at hsome
        rw [hsome, hcond]
        simp only [payloadEdited, editedPayload, hs, Option.elim_some]

/-! ### The whole of `packet_process` -/

/-- The fake packets read the headers and never the payload. -/
theorem all_processNotHttp (hP : ∀ e : Access Buf, ¬ e.Touches .payload → P e) (cfg : Config) (env : Env)
    (p : Packet) : (processNotHttp cfg env p).All P := by
  have hpure : ∀ {α : Type} (a : α), (pure a : CRun Buf α).All P := fun a => all_iff_obeys.2 (obeys_pure.2 trivial)
  have hfake : ∀ trailer, (createFake env p trailer).All P := by
    intro trailer
    unfold createFake
    split
    · refine All.bind ?_ fun _ => hpure _
      intro e he
      rw [List.mem_singleton.1 he]
      exact hP _ fun h => by cases h
    · exact hpure _
  have hinject : (evasionInjectFakePacket cfg env p).All P := by
    refine All.bind ?_ fun fake => ?_
    · unfold createFakeFor
      split_ifs
      · exact hfake _
      · exact hpure _
      · exact hfake _
      · exact hpure _
      · exact hpure _
    · cases fake <;> exact hpure _
  unfold processNotHttp
  split
  · split
    · exact All.bind hinject fun _ => hpure _
    · exact hpure _
  · exact hpure _

end

/-- The run reads and writes the payload only inside its buffer. -/
def StaysInPayload {α : Type} (x : CRun Buf α) : Prop := x.All fun e => e.Touches .payload → e.InRange

instance {α : Type} (x : CRun Buf α) : Decidable (StaysInPayload x) := inferInstanceAs (Decidable (∀ e ∈ x.log, _))

/-- A payload that is examined for HTTP does not end inside a method name, and if it is an HTTP request, it lets
the edits that are on stay inside it. -/
def HttpReadsInside (cfg : Config) (env : Env) (pkt : TcpPacket) : Prop :=
  pkt.hasPayload env → isTooLarge cfg pkt.payload.length = false → pkt.dstPort = 80 → 3 ≤ pkt.payload.length →
    ¬ EndsInMethod httpMethods pkt.payload ∧ (startsWithMethod pkt.payload → PayloadEditsInside cfg pkt.payload)

instance (cfg : Config) (env : Env) (pkt : TcpPacket) : Decidable (HttpReadsInside cfg env pkt) :=
  inferInstanceAs (Decidable (_ → _ → _ → _ → _))

private theorem staysInPayload_parsed_iff (cfg : Config) (env : Env) (pkt : TcpPacket) :
    StaysInPayload (packetProcess cfg env (pkt.parsed env)) ↔ HttpReadsInside cfg env pkt := by
  have hw := watches_touches Buf.payload
  have hrest : Obeys (fun e => e.Touches Buf.payload → e.InRange) (processNotHttp cfg env (pkt.parsed env))
      fun _ => True := by
    rw [← all_iff_obeys]
    apply all_processNotHttp
    intro e he ht
    exact absurd ht he
  unfold StaysInPayload HttpReadsInside
  rw [all_iff_obeys]
  have hpay := pkt.parsed_payload env
  have hlen := pkt.parsed_payloadLen env
  unfold packetProcess
  cases hhas : pkt.hasPayload env with
  | false =>
    rw [hhas, if_neg (by simp)] at hpay
    simp only [packetIsHttp, hpay, obeys_ite, obeys_bind, obeys_pure, Bool.false_eq_true, false_imp_iff, true_and,
      implies_true, hrest]
  | true =>
    rw [hhas, if_pos rfl] at hpay hlen
    simp only [obeys_ite, obeys_bind, obeys_pure, obeys_packetIsHttp hw hpay, obeys_processHttp hw hpay hlen,
      pkt.packetIsTcp_parsed, pkt.parsed_dstPort, hlen, hrest, implies_true, true_and, and_true, true_imp_iff,
      Bool.not_eq_true]
    refine imp_congr Iff.rfl ?_
    by_cases hport : pkt.dstPort = 80
    · by_cases h3 : 3 ≤ pkt.payload.length
      · simp [hport, h3]
      · simp [h3]
    · simp [hport]

/-- On the packets that the parser makes of well-formed IPv4 TCP packets, `packet_process` stays inside the payload
exactly when the payload carries the bytes that the string functions look for. -/
theorem packetProcess_staysInPayload_iff (cfg : Config) (env : Env) (pkt : TcpPacket) :
    ∃ p, (parseRun env pkt.bytes).val = some (0, p) ∧
      (StaysInPayload (packetProcess cfg env p) ↔ HttpReadsInside cfg env pkt) :=
  ⟨_, pkt.parseRun_val env, staysInPayload_parsed_iff cfg env pkt⟩

/-- With `host_removespace` on, `strlen` runs over the end of a plain request. -/
theorem httpRequest_leaves_payload :
    ¬ ∀ p, (parseRun plainEnv httpRequest.bytes).val = some (0, p) →
      StaysInPayload (packetProcess { configInit with hostRemovespace := true } plainEnv p) := by
  intro h
  have hbad : ¬ StaysInPayload (packetProcess { configInit with hostRemovespace := true } plainEnv
      (httpRequest.parsed plainEnv)) := by
    decide
  exact hbad (h _ (httpRequest.parseRun_val plainEnv))

end GoodbyeDpi
