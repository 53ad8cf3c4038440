import GoodbyeDpi.PacketProcessResult

/-!
# The space edits and the length of the payload

`packet_process` hands the length of the payload to its edits by value, so it keeps the length that it had.  An edit
that removes a space or adds one moves the rest of the payload by string length, and so up to a NUL that the payload
itself does not have.  The bytes that count are the edited request exactly when the two edits cancel each other or
when neither has anything to do.  The payload stands in a buffer that may be longer than its length says.
-/

namespace GoodbyeDpi

open CSem Traced Access

/-- The request that is asked for: one space behind `Host:` removed, if the first switch is on and there is one, and
then one inserted, if the second switch is on. -/
def editSpaces (cfg : Config) (pre rest : List UInt8) : List UInt8 :=
  let rest := if cfg.hostRemovespace && hasSpace rest then rest.tail else rest
  pre ++ if cfg.additionalSpace then 32 :: rest else rest

/-- A packet with the HTTP request `pre ++ rest`, where `pre` ends with the first `Host:`, in a buffer that goes on
with `tail`. -/
structure RequestPacket (p : Packet) (pre rest tail : List UInt8) : Prop where
  payload_eq : p.payload = some (pre ++ rest ++ tail)
  payloadLen_eq : p.payloadLen = (pre ++ rest).length
  zero_notMem : (0 : UInt8) ∉ pre ++ rest
  tcp : packetIsTcp p = true
  port : p.dstPort = 80
  method : startsWithMethod (pre ++ rest) = true
  first : ∃ j, findCi hostHeader (pre ++ rest) = some j ∧ pre.length = j + 5

/-- The edits that have something to do find a NUL behind the payload, and the search for `Host:` finds a byte behind
it. -/
def SpacesInside (cfg : Config) (rest tail : List UInt8) : Prop :=
  (cfg.additionalSpace → (0 : UInt8) ∈ tail) ∧ (cfg.hostRemovespace → rest ++ tail ≠ []) ∧
    (cfg.hostRemovespace → rest = [] → hasSpace tail → (0 : UInt8) ∈ tail.tail)

/-- The bytes that count are the edited request. -/
def HoldsEdited (cfg : Config) (pre rest : List UInt8) (p : Packet) : Prop :=
  ∃ b, p.payload = some b ∧ p.payloadLen = (editSpaces cfg pre rest).length ∧
    b.take p.payloadLen = editSpaces cfg pre rest

/-! ### The request is examined -/

/-- A buffer that starts with a method does not end inside one. -/
private theorem not_endsInMethod {b : List UInt8} (h : startsWithMethod b) : ¬ EndsInMethod httpMethods b := by
  have hfree : ∀ m ∈ httpMethods, ∀ m' ∈ httpMethods, m <+: m' → m = m' := by decide
  obtain ⟨m, hm, hpre⟩ := List.any_eq_true.1 h
  intro hends
  obtain ⟨m', hm', hb, hlen⟩ := hends
  have hmb := List.isPrefixOf_iff_prefix.1 hpre
  have heq := hfree m hm m' hm' (hmb.trans hb)
  have := hmb.length_le
  rw [heq] at this
  omega

private theorem startsWithMethod_append {s : List UInt8} (h : startsWithMethod s) (t : List UInt8) :
    startsWithMethod (s ++ t) := by
  obtain ⟨m, hm, hpre⟩ := List.any_eq_true.1 h
  refine List.any_eq_true.2 ⟨m, hm, List.isPrefixOf_iff_prefix.2 ?_⟩
  exact (List.isPrefixOf_iff_prefix.1 hpre).trans (List.prefix_append s t)

/-- A method and `Host:` differ, so `Host:` is not at the start. -/
private theorem findCi_ne_zero {s : List UInt8} (h : startsWithMethod s) : findCi hostHeader s ≠ some 0 := by
  have hdiff : ∀ m ∈ httpMethods, ¬ m.map toLower <+: hostHeader.map toLower ∧
      ¬ hostHeader.map toLower <+: m.map toLower := by decide
  obtain ⟨m, hm, hpre⟩ := List.any_eq_true.1 h
  have hms := (List.isPrefixOf_iff_prefix.1 hpre).map toLower
  have hno : ¬ ciPrefix hostHeader s := by
    intro hci
    rcases List.prefix_or_prefix_of_prefix hms hci with h1 | h1
    · exact (hdiff m hm).1 h1
    · exact (hdiff m hm).2 h1
  cases s with
  | nil => decide
  | cons c s =>
    rw [findCi_cons, if_neg hno]
    simp

namespace RequestPacket

variable {cfg : Config} {env : Env} {p : Packet} {pre rest tail : List UInt8}

private theorem six_le (h : RequestPacket p pre rest tail) : 6 ≤ (pre ++ rest).length := by
  obtain ⟨j, hj, hlen⟩ := h.first
  have h0 : j ≠ 0 := by
    rintro rfl
    exact findCi_ne_zero h.method hj
  rw [List.length_append]
  omega

/-- The request is too large, or it goes through the HTTP branch. -/
private theorem obeys_packetProcess (h : RequestPacket p pre rest tail) {Q : Int × Packet → Prop} :
    Obeys InRange (packetProcess cfg env p) Q ↔
      if isTooLarge cfg (pre ++ rest).length then Q (0, p) else Obeys InRange (processHttp cfg p) Q := by
  have h6 := h.six_le
  have hstart := startsWithMethod_append h.method tail
  have hhttp : packetIsTcp p ∧ p.dstPort = 80 ∧ 3 ≤ p.payloadLen := ⟨h.tcp, h.port, by rw [h.payloadLen_eq]; omega⟩
  rw [packetProcess, h.payloadLen_eq]
  cases isTooLarge cfg (pre ++ rest).length with
  | true => simp
  | false =>
    simp only [Bool.false_eq_true, ↓reduceIte, obeys_bind]
    rw [obeys_packetIsHttp (watches_inRange _) h.payload_eq, if_pos hhttp, hstart, if_pos rfl]
    exact and_iff_right (not_endsInMethod hstart)

/-- The first `Host:` of the request is the first one in the buffer. -/
private theorem splitHost_eq (h : RequestPacket p pre rest tail) :
    splitHost (pre ++ (rest ++ tail)) = some (pre, rest ++ tail) := by
  have h6 := h.six_le
  obtain ⟨j, hj, hlen⟩ := h.first
  have hfind : findCi hostHeader (cstr (pre ++ (rest ++ tail))) = some j := by
    have htake := firstOcc_take_append (r := ((pre ++ rest ++ cstr tail).drop (j + 5)).map toLower) hj
    have h5 : (hostHeader.map toLower).length = 5 := rfl
    have hpre : (pre ++ rest).take (j + 5) = (pre ++ rest ++ cstr tail).take (j + 5) := by
      rw [List.append_assoc, ← hlen, List.take_left, List.take_left]
    rw [h5, ← List.map_take, ← List.map_append, hpre, List.take_append_drop] at htake
    rw [← List.append_assoc, cstr_append h.zero_notMem]
    exact htake
  have hnot : ¬ (pre ++ (rest ++ tail)).length < 6 := by
    simp only [List.length_append] at h6 ⊢
    omega
  rw [splitHost, hostPos, if_neg hnot, hfind, Option.map_some, ← hlen, List.take_left, List.drop_left]

/-- The HTTP branch on a request. -/
private theorem obeys_processHttp (h : RequestPacket p pre rest tail) {Q : Int × Packet → Prop} :
    Obeys InRange (processHttp cfg p) Q ↔
      (editsOn cfg → rest ++ tail ≠ []) ∧ HostEditsInside cfg (rest ++ tail) ∧
        Q (fragmentStep cfg.httpFragmentSize
          (if hostEdited cfg (rest ++ tail) then 1 else 0, p.setPayload (pre ++ editHost cfg (rest ++ tail)))) := by
  have hs := h.splitHost_eq
  have h6 := h.six_le
  have hpay : p.payload = some (pre ++ (rest ++ tail)) := by rw [h.payload_eq, List.append_assoc]
  by_cases hr : rest ++ tail = []
  · -- the buffer ends with `Host:`, and so does the payload
    have htail : tail = [] := (List.append_eq_nil_iff.1 hr).2
    have hl : p.payloadLen = (pre ++ (rest ++ tail)).length := by
      rw [h.payloadLen_eq, htail, List.append_nil]
    rw [GoodbyeDpi.obeys_processHttp (watches_inRange _) hpay hl]
    have hsearch : ¬ HostSearchInside (pre ++ (rest ++ tail)) := by
      rw [hostSearchInside_iff hs]
      exact fun hne => hne hr
    simp only [payloadEdited, editedPayload, hs, Option.elim_some]
    cases hon : editsOn cfg with
    | true => exact iff_of_false (fun hin => hsearch (hin.1 hon).1) fun hin => hin.1 rfl hr
    | false =>
      have hinside : HostEditsInside cfg (rest ++ tail) := by
        simp only [editsOn, Bool.or_eq_false_iff] at hon
        simp [HostEditsInside, hon]
      have hpayload : PayloadEditsInside cfg (pre ++ (rest ++ tail)) := fun hyes => by simp [hon] at hyes
      simp [hinside, hpayload]
  · have hself : p.setPayload (pre ++ (rest ++ tail)) = p := by
      rw [Packet.setPayload, ← hpay]
    have hsome := obeys_processHttp_of_some (watches_inRange _) cfg (by rw [h.payloadLen_eq]; exact h6) hs hr (Q := Q)
    rw [hself] at hsome
    rw [hsome]
    simp [hr]

end RequestPacket

/-! ### The bytes that count -/

section

variable {cfg : Config} {pre rest tail : List UInt8}

private theorem length_editSpaces_iff :
    (pre ++ rest).length = (editSpaces cfg pre rest).length ↔
      ((cfg.hostRemovespace ∧ hasSpace rest) ↔ cfg.additionalSpace = true) := by
  have hpos : hasSpace rest → 0 < rest.length := by
    intro h
    apply List.length_pos_iff.2
    rintro rfl
    cases h
  unfold editSpaces
  simp only [List.length_append]
  by_cases hrm : cfg.hostRemovespace = true ∧ hasSpace rest = true
  · have := hpos hrm.2
    cases hadd : cfg.additionalSpace with
    | true =>
      simp [hrm]
      omega
    | false =>
      simp [hrm]
      omega
  · have hoff : (cfg.hostRemovespace && hasSpace rest) = false := by simpa using hrm
    cases hadd : cfg.additionalSpace with
    | true => simp [hoff, hrm]
    | false => simp [hoff, hrm]

/-- With edits that cancel each other, or with none, the request is to stay as it is. -/
private theorem editSpaces_eq (h : (cfg.hostRemovespace ∧ hasSpace rest) ↔ cfg.additionalSpace = true) :
    editSpaces cfg pre rest = pre ++ rest := by
  unfold editSpaces
  cases hadd : cfg.additionalSpace with
  | true =>
    obtain ⟨hrm, hspace⟩ := h.2 hadd
    obtain ⟨t, rfl⟩ := exists_of_hasSpace hspace
    simp [hrm, hspace]
  | false =>
    have hoff : (cfg.hostRemovespace && hasSpace rest) = false := by
      rw [hadd] at h
      simpa using h
    simp [hoff]

/-- A space is removed and added again. -/
private theorem editHost_of_both (hmix : cfg.hostMixedcase = false) (hrm : cfg.hostRemovespace = true)
    (hadd : cfg.additionalSpace = true) {r : List UInt8} (hspace : hasSpace r) :
    (HostEditsInside cfg r ↔ (0 : UInt8) ∈ r.tail) ∧ ((0 : UInt8) ∈ r.tail → editHost cfg r = r) := by
  constructor
  · simp [HostEditsInside, hmix, hrm, hspace]
  · intro hz
    simp only [editHost, spaceStep, caseStep, dropSpace, hmix, hrm, hadd, hspace, Bool.false_eq_true, ↓reduceIte]
    exact addSpace_removeSpace hspace hz

/-- There is nothing to remove and nothing to add. -/
private theorem editHost_of_neither (hmix : cfg.hostMixedcase = false) (hadd : cfg.additionalSpace = false)
    {r : List UInt8} (hspace : ¬ (cfg.hostRemovespace ∧ hasSpace r)) :
    HostEditsInside cfg r ∧ editHost cfg r = r := by
  have hstep := spaceStep_of_kept hspace
  constructor
  · simp only [HostEditsInside, hmix, hadd, Bool.false_eq_true, false_imp_iff, true_and, and_true]
    intro hrm hs
    exact absurd ⟨hrm, hs⟩ hspace
  · simp [editHost, hstep, caseStep, hmix, hadd]

/-- Where the edits cancel each other or have nothing to do, they leave the request as it is, if they stay in the
buffer. -/
private theorem editHost_of_match (hmix : cfg.hostMixedcase = false) (hz : (0 : UInt8) ∉ rest)
    (h : (cfg.hostRemovespace ∧ hasSpace rest) ↔ cfg.additionalSpace = true) :
    (editsOn cfg → rest ++ tail ≠ []) ∧ HostEditsInside cfg (rest ++ tail) ∧
      (editHost cfg (rest ++ tail)).take rest.length = rest ↔ SpacesInside cfg rest tail := by
  cases hadd : cfg.additionalSpace with
  | true =>
    obtain ⟨hrm, hspace⟩ := h.2 hadd
    obtain ⟨t, rfl⟩ := exists_of_hasSpace hspace
    have hspace' : hasSpace (32 :: t ++ tail) := rfl
    have hzt : (0 : UInt8) ∈ (32 :: t ++ tail).tail ↔ (0 : UInt8) ∈ tail := by
      have ht : (0 : UInt8) ∉ t := fun hmem => hz (List.mem_cons_of_mem _ hmem)
      simp [ht]
    obtain ⟨hin, hedit⟩ := editHost_of_both hmix hrm hadd hspace'
    rw [hzt] at hin hedit
    rw [hin]
    constructor
    · intro hall
      exact ⟨fun _ => hall.2.1, fun _ => by simp, fun _ hnil => by simp at hnil⟩
    · intro hall
      refine ⟨fun _ => by simp, hall.1 hadd, ?_⟩
      rw [hedit (hall.1 hadd), List.take_left]
  | false =>
    have hkept : ¬ (cfg.hostRemovespace ∧ hasSpace rest) := by
      rw [hadd] at h
      simpa using h
    have hon : editsOn cfg = cfg.hostRemovespace := by simp [editsOn, hmix, hadd]
    rw [hon]
    cases rest with
    | nil =>
      -- the request ends with `Host:`, so the edit works behind it
      simp only [List.nil_append, List.length_nil, List.take_zero, and_true, HostEditsInside, SpacesInside, hmix, hadd,
        Bool.false_eq_true, false_imp_iff, true_and, true_imp_iff]
    | cons c t =>
      have hspace : ¬ (cfg.hostRemovespace ∧ hasSpace (c :: t ++ tail)) := hkept
      obtain ⟨hin, hedit⟩ := editHost_of_neither hmix hadd hspace
      rw [hedit, List.take_left]
      refine iff_of_true ⟨fun _ => by simp, hin, rfl⟩ ⟨fun hno => by simp [hadd] at hno, fun _ => by simp, ?_⟩
      intro _ hnil
      cases hnil

end

/-! ### The result of `packet_process` -/

/-- The length is not changed, so it must be that of the edited request. -/
private theorem holdsEdited_iff {cfg : Config} {pre rest b : List UInt8} {q : Packet}
    (hlen : q.payloadLen = (pre ++ rest).length) (hb : q.payload = some b) :
    HoldsEdited cfg pre rest q ↔ ((cfg.hostRemovespace ∧ hasSpace rest) ↔ cfg.additionalSpace = true) ∧
      b.take (pre ++ rest).length = pre ++ rest := by
  unfold HoldsEdited
  constructor
  · intro h
    obtain ⟨b', hb', hsame, htake⟩ := h
    have hmatch := length_editSpaces_iff.1 (hlen.symm.trans hsame)
    rw [hb] at hb'
    have := Option.some.inj hb'
    subst this
    rw [editSpaces_eq hmatch, hlen] at htake
    exact ⟨hmatch, htake⟩
  · intro h
    refine ⟨b, hb, hlen.trans (length_editSpaces_iff.2 h.1), ?_⟩
    rw [editSpaces_eq h.1, hlen]
    exact h.2

/-- After `packet_process` the bytes that count are the edited request exactly when the edits cancel each other or have
nothing to do, and the request is too large to be looked at or the edits stay in the buffer. -/
theorem packetProcess_spaces_iff (cfg : Config) (env : Env) (p : Packet) (pre rest tail : List UInt8)
    (hp : RequestPacket p pre rest tail) (hmix : cfg.hostMixedcase = false) :
    Obeys InRange (packetProcess cfg env p) (fun out => HoldsEdited cfg pre rest out.2) ↔
      ((cfg.hostRemovespace ∧ hasSpace rest) ↔ cfg.additionalSpace = true) ∧
        (isTooLarge cfg (pre ++ rest).length ∨ SpacesInside cfg rest tail) := by
  rw [hp.obeys_packetProcess]
  cases hbig : isTooLarge cfg (pre ++ rest).length with
  | true =>
    rw [if_pos rfl, holdsEdited_iff hp.payloadLen_eq hp.payload_eq, List.take_left]
    simp
  | false =>
    have hz : (0 : UInt8) ∉ rest := fun hmem => hp.zero_notMem (List.mem_append_right pre hmem)
    have htake : (pre ++ editHost cfg (rest ++ tail)).take (pre ++ rest).length = pre ++ rest ↔
        (editHost cfg (rest ++ tail)).take rest.length = rest := by
      rw [List.length_append, List.take_length_add_append, List.append_right_inj]
    have hlen : (p.setPayload (pre ++ editHost cfg (rest ++ tail))).payloadLen = (pre ++ rest).length :=
      hp.payloadLen_eq
    rw [if_neg (by simp), hp.obeys_processHttp, fragmentStep_eq, holdsEdited_iff hlen rfl, htake]
    constructor
    · intro h
      obtain ⟨hon, hin, hmatch, hsame⟩ := h
      exact ⟨hmatch, Or.inr ((editHost_of_match hmix hz hmatch).1 ⟨hon, hin, hsame⟩)⟩
    · intro h
      obtain ⟨hmatch, hinside⟩ := h
      obtain ⟨hon, hin, hsame⟩ := (editHost_of_match hmix hz hmatch).2 (hinside.resolve_left (by simp))
      exact ⟨hon, hin, hmatch, hsame⟩

/-- A request up to `Host:`. -/
def spacedRequestHead : List UInt8 := ascii "GET / HTTP/1.1\r\nHost:"

/-- What follows in the request. -/
def spacedRequestRest : List UInt8 := ascii " a.b\r\n\r\n"

/-- A packet with the request, in a buffer with a NUL behind it. -/
def spacedRequest : Packet :=
  { packetInit with
    type := .ipv4TcpData
    dstPort := 80
    payload := some (spacedRequestHead ++ spacedRequestRest ++ [0])
    payloadLen := 29 }

private theorem requestPacket_spacedRequest :
    RequestPacket spacedRequest spacedRequestHead spacedRequestRest [0] where
  payload_eq := rfl
  payloadLen_eq := rfl
  zero_notMem := by decide
  tcp := rfl
  port := rfl
  method := by decide
  first := ⟨16, by decide, rfl⟩

theorem packetProcess_spaces_spacedRequest :
    Obeys InRange (packetProcess { configInit with hostRemovespace := true, additionalSpace := true } plainEnv
      spacedRequest) (fun out => HoldsEdited { configInit with hostRemovespace := true, additionalSpace := true }
        spacedRequestHead spacedRequestRest out.2) :=
  (packetProcess_spaces_iff _ plainEnv _ _ _ _ requestPacket_spacedRequest rfl).2
    ⟨by decide, Or.inr ⟨fun _ => by decide, fun _ => by decide, fun _ h => absurd h (by decide)⟩⟩

/-- With the removal alone the space is removed, and the length still counts the byte behind the request.  In a buffer
without that byte the removal leaves the buffer. -/
theorem packetProcess_keeps_length :
    RequestPacket spacedRequest spacedRequestHead spacedRequestRest [0] ∧
      (∃ out b, (packetProcess { configInit with hostRemovespace := true } plainEnv spacedRequest).val = some out ∧
        out.2.payload = some b ∧ out.2.payloadLen = 29 ∧
        b.take 28 = editSpaces { configInit with hostRemovespace := true } spacedRequestHead spacedRequestRest ∧
        ¬ HoldsEdited { configInit with hostRemovespace := true } spacedRequestHead spacedRequestRest out.2) ∧
      ¬ (packetProcess { configInit with hostRemovespace := true } plainEnv
        { spacedRequest with payload := some (spacedRequestHead ++ spacedRequestRest) }).All InRange := by
  refine ⟨requestPacket_spacedRequest, ⟨_, _, rfl, rfl, rfl, by decide +kernel, fun h => ?_⟩, ?_⟩
  · obtain ⟨-, -, hlen, -⟩ := h
    exact absurd hlen (by decide +kernel)
  · unfold Traced.All
    decide +kernel

end GoodbyeDpi
