import GoodbyeDpi.PacketProcessResult

/-!
# What is reinjected

`packet_t` holds the bytes of a packet three times: the headers, the payload, and the raw packet that goes back to
the kernel.  The edits work on the payload alone, so the raw packet matches the other two exactly when the edits
change nothing.
-/

namespace GoodbyeDpi

open CSem Traced Access

/-! ### Edits that change nothing -/

/-- The edits that are on leave the bytes behind `Host:` as they are: the value is already in alternating case, and
a space is removed exactly when one is added. -/
def EditsNeutral (cfg : Config) (r : List UInt8) : Prop :=
  (cfg.hostMixedcase → alternateCase 0 (hostValue r) = hostValue r) ∧
  ((cfg.hostRemovespace ∧ hasSpace r) ↔ cfg.additionalSpace)

theorem mixValue_eq_self_iff {r : List UInt8} :
    mixValue r = r ↔ alternateCase 0 (hostValue r) = hostValue r := by
  conv_lhs => rhs; rw [split_value r]
  unfold mixValue
  rw [List.append_left_inj, List.append_right_inj]

theorem length_cstr_addSpace (r : List UInt8) : (cstr (addSpace r)).length = (cstr r).length + 1 := by
  have h : cstr (addSpace r) = 32 :: cstr r := by
    unfold addSpace
    rw [List.cons_append, cstr_cons (by decide), cstr_append (zero_notMem_cstr r)]
    simp [cstr]
  rw [h, List.length_cons]

theorem length_cstr_removeSpace {r : List UInt8} (hs : hasSpace r) :
    (cstr (removeSpace r)).length + 1 = (cstr r).length := by
  cases r with
  | nil => cases hs
  | cons c t =>
    obtain rfl : c = 32 := by simpa [hasSpace] using hs
    rw [cstr_removeSpace, List.tail_cons, cstr_cons (by decide), List.length_cons]

/-- Edits that are in range change nothing exactly when they are neutral: a space that is only removed or only added
changes the length of the string. -/
theorem editHost_eq_self_iff {cfg : Config} {r : List UInt8} (h : HostEditsInside cfg r) :
    editHost cfg r = r ↔ EditsNeutral cfg r := by
  obtain ⟨-, hspace, -⟩ := h
  have hci := map_toLower_caseStep cfg r
  have hcstr : (cstr (caseStep cfg r)).length = (cstr r).length := by
    apply length_eq_of_ci
    rw [map_toLower_cstr, map_toLower_cstr, hci]
  have hmix : caseStep cfg r = r ↔ (cfg.hostMixedcase → alternateCase 0 (hostValue r) = hostValue r) := by
    rw [caseStep, ← mixValue_eq_self_iff]
    split
    · rename_i hon
      exact ⟨fun heq _ => heq, fun heq => heq hon⟩
    · rename_i hoff
      exact ⟨fun _ hon => absurd hon hoff, fun _ => rfl⟩
  unfold EditsNeutral editHost
  rw [← hmix]
  by_cases hrm : cfg.hostRemovespace ∧ hasSpace r
  · -- the space goes; only adding one again can bring the string back to its length
    have hs₁ : hasSpace (caseStep cfg r) := by
      rw [hasSpace_congr hci]
      exact hrm.2
    have hz : (0 : UInt8) ∈ (caseStep cfg r).tail := (zero_mem_tail_congr hci).2 (hspace hrm.1 hrm.2)
    rw [spaceStep_of_removed hrm]
    by_cases hadd : cfg.additionalSpace
    · rw [if_pos hadd, addSpace_removeSpace hs₁ hz]
      simp [hrm, hadd]
    · rw [if_neg hadd]
      refine iff_of_false ?_ fun hneutral => hadd (hneutral.2.1 hrm)
      intro heq
      have hlen := length_cstr_removeSpace hs₁
      rw [heq] at hlen
      omega
  · rw [spaceStep_of_kept hrm]
    by_cases hadd : cfg.additionalSpace
    · rw [if_pos hadd]
      refine iff_of_false ?_ fun hneutral => hrm (hneutral.2.2 hadd)
      intro heq
      have hlen := length_cstr_addSpace (caseStep cfg r)
      rw [heq] at hlen
      omega
    · rw [if_neg hadd]
      simp [hrm, hadd]

/-- Where no edit is on or all edits stay inside the payload, so do those behind `Host:`. -/
theorem PayloadEditsInside.hostEditsInside {cfg : Config} {b : List UInt8} (h : PayloadEditsInside cfg b)
    {s : List UInt8 × List UInt8} (hs : s ∈ splitHost b) : HostEditsInside cfg s.2 := by
  cases hon : editsOn cfg with
  | true => exact (h hon).2 s hs
  | false =>
    simp only [editsOn, Bool.or_eq_false_iff] at hon
    obtain ⟨⟨hmix, hrm⟩, hadd⟩ := hon
    simp [HostEditsInside, hmix, hrm, hadd]

theorem length_editedPayload {cfg : Config} {b : List UInt8} (h : PayloadEditsInside cfg b) :
    (editedPayload cfg b).length = b.length := by
  unfold editedPayload
  cases hs : splitHost b with
  | none => rfl
  | some s =>
    obtain ⟨pre, r⟩ := s
    have hedit := length_editHost (h.hostEditsInside hs)
    obtain ⟨hb, -⟩ := splitHost_eq_some hs
    conv_rhs => rw [hb]
    rw [Option.elim_some, List.length_append, List.length_append, hedit]

theorem editedPayload_eq_self_iff {cfg : Config} {b : List UInt8} (h : PayloadEditsInside cfg b) :
    editedPayload cfg b = b ↔ ∀ s ∈ splitHost b, EditsNeutral cfg s.2 := by
  unfold editedPayload
  cases hs : splitHost b with
  | none => simp
  | some s =>
    obtain ⟨pre, r⟩ := s
    have hedit := editHost_eq_self_iff (h.hostEditsInside hs)
    obtain ⟨hb, -⟩ := splitHost_eq_some hs
    conv_lhs => rw [hb]
    rw [Option.elim_some, List.append_right_inj, hedit]
    simp

/-! ### The raw packet -/

/-- The first `n` bytes of a buffer, if it has them; a NULL pointer has none. -/
def firstBytes (buf : Option (List UInt8)) (n : Nat) : Option (List UInt8) :=
  if n = 0 then some [] else buf.bind fun b => if n ≤ b.length then some (b.take n) else none

/-- The raw packet consists of the headers and the payload. -/
def RawMatches (p : Packet) : Prop :=
  ∃ h b, firstBytes p.headers p.headersLen = some h ∧ firstBytes p.payload p.payloadLen = some b ∧
    firstBytes p.rawPacket p.rawPacketLen = some (h ++ b)

/-- Every buffer of the parsed packet is granted. -/
def BuffersGranted (env : Env) (pkt : TcpPacket) : Prop :=
  malloc env.mallocRaw pkt.bytes.length ∧ malloc env.mallocHeaders pkt.headers.length ∧
    (pkt.payload = [] ∨ malloc env.mallocPayload pkt.payload.length)

/-- The payload is edited as an HTTP request. -/
def IsHttpRequest (cfg : Config) (pkt : TcpPacket) : Prop :=
  isTooLarge cfg pkt.payload.length = false ∧ pkt.dstPort = 80 ∧ 3 ≤ pkt.payload.length ∧ startsWithMethod pkt.payload

/-- The condition under which the raw packet is up to date: the buffers are there, the string functions stay inside
the payload, and an HTTP request with a Host header has edits that change nothing. -/
def RawUpToDate (cfg : Config) (env : Env) (pkt : TcpPacket) : Prop :=
  BuffersGranted env pkt ∧ HttpReadsInside cfg env pkt ∧
    (IsHttpRequest cfg pkt → ∀ s ∈ splitHost pkt.payload, EditsNeutral cfg s.2)

theorem firstBytes_eq_some_iff {buf : Option (List UInt8)} {n : Nat} {b : List UInt8} (hn : n ≠ 0) :
    firstBytes buf n = some b ↔ ∃ c, buf = some c ∧ n ≤ c.length ∧ c.take n = b := by
  unfold firstBytes
  rw [if_neg hn]
  cases buf with
  | none => simp
  | some c =>
    by_cases hle : n ≤ c.length
    · simp [hle]
    · simp [hle]

section

variable (cfg : Config) (env : Env) (pkt : TcpPacket)

/-- The payload of a well-formed packet that is compared with the HTTP methods. -/
theorem examined_parsed :
    examined cfg (pkt.parsed env) =
      if pkt.hasPayload env ∧ isTooLarge cfg pkt.payload.length = false ∧ pkt.dstPort = 80 ∧ 3 ≤ pkt.payload.length
      then some pkt.payload else none := by
  unfold examined
  rw [pkt.parsed_payload, pkt.parsed_payloadLen, pkt.parsed_dstPort, pkt.packetIsTcp_parsed]
  cases pkt.hasPayload env <;> simp

theorem parsed_payloadLen_eq (b : List UInt8) (h : (pkt.parsed env).payload = some b) :
    (pkt.parsed env).payloadLen = b.length := by
  rw [pkt.parsed_payload] at h
  rw [pkt.parsed_payloadLen]
  split at h
  · rename_i hhas
    cases h
    rw [if_pos hhas]
  · cases h

/-- With the headers in place, the accesses of `packet_process` are in range when those to the payload are. -/
theorem processInside_parsed_iff (hheaders : malloc env.mallocHeaders pkt.headers.length) :
    ProcessInside cfg env (pkt.parsed env) ↔ HttpReadsInside cfg env pkt := by
  have hnot : NotHttpInside cfg env (pkt.parsed env) := by
    intro _ _ t _ _
    rw [pkt.parsed_eq, hheaders]
    exact Or.inr (Nat.le_refl _)
  unfold ProcessInside HttpReadsInside httpPayload
  rw [examined_parsed]
  split
  · rename_i hex
    cases hm : startsWithMethod pkt.payload <;> simp [hm, hex, hnot]
  · rename_i hex
    simp only [not_and] at hex
    exact iff_of_true (by simp [hnot]) fun h1 h2 h3 h4 => absurd h4 (hex h1 h2 h3)

/-- A processed packet whose raw packet matches has its raw packet and its headers in place. -/
theorem granted_of_rawMatches (h : RawMatches (processedPacket cfg (pkt.parsed env))) :
    malloc env.mallocRaw pkt.bytes.length ∧ malloc env.mallocHeaders pkt.headers.length ∧
      firstBytes (processedPacket cfg (pkt.parsed env)).payload (pkt.parsed env).payloadLen = some pkt.payload := by
  have h40 := pkt.forty_le_headersLen
  have hle := pkt.fits.2.2
  have hlen := pkt.length_headers
  obtain ⟨head, body, hhead, hbody, hraw⟩ := h
  rw [processedPacket_eq] at hhead hraw
  have hpayloadLen : (processedPacket cfg (pkt.parsed env)).payloadLen = (pkt.parsed env).payloadLen := by
    rw [processedPacket_eq]
  rw [hpayloadLen] at hbody
  simp only at hhead hraw
  rw [pkt.parsed_eq, firstBytes_eq_some_iff (by simp only; omega)] at hhead
  rw [pkt.parsed_eq, firstBytes_eq_some_iff (by simp only; omega)] at hraw
  obtain ⟨c, hc, -, hchead⟩ := hhead
  obtain ⟨d, hd, -, hdraw⟩ := hraw
  simp only at hc hd hchead hdraw
  -- both have at least 40 bytes, so neither pointer can be NULL
  by_cases hmr : malloc env.mallocRaw pkt.bytes.length
  · by_cases hmh : malloc env.mallocHeaders pkt.headers.length
    · rw [if_pos hmr] at hd
      rw [if_pos hmh] at hc
      cases hc
      cases hd
      rw [List.take_length] at hchead hdraw
      rw [← hchead, ← pkt.headers_append_payload, List.append_right_inj] at hdraw
      rw [hdraw]
      exact ⟨hmr, hmh, hbody⟩
    · rw [if_neg hmh] at hc
      cases hc
  · rw [if_neg hmr] at hd
    cases hd

/-- The HTTP request that is edited is the payload of the packet. -/
theorem mem_httpPayload_parsed {b : List UInt8} :
    b ∈ httpPayload cfg (pkt.parsed env) ↔ b = pkt.payload ∧ pkt.hasPayload env ∧ IsHttpRequest cfg pkt := by
  unfold httpPayload IsHttpRequest
  rw [Option.mem_def, Option.filter_eq_some_iff, examined_parsed]
  constructor
  · rintro ⟨hex, hm⟩
    split at hex
    · rename_i hcond
      cases hex
      exact ⟨rfl, hcond.1, hcond.2.1, hcond.2.2.1, hcond.2.2.2, hm⟩
    · cases hex
  · rintro ⟨rfl, hhas, hbig, hport, h3, hm⟩
    exact ⟨if_pos ⟨hhas, hbig, hport, h3⟩, hm⟩

theorem rawMatches_parsed (h : BuffersGranted env pkt) : RawMatches (pkt.parsed env) := by
  obtain ⟨hraw, hheaders, hpayload⟩ := h
  have h40 := pkt.forty_le_headersLen
  have hle := pkt.fits.2.2
  have hlen := pkt.length_headers
  have hbody : firstBytes (pkt.parsed env).payload (pkt.parsed env).payloadLen = some pkt.payload := by
    rw [pkt.parsed_payload, pkt.parsed_payloadLen]
    by_cases hnil : pkt.payload = []
    · simp [TcpPacket.hasPayload, hnil, firstBytes]
    · have hpos : 0 < pkt.payload.length := List.length_pos_iff.2 hnil
      have hhas : pkt.hasPayload env := by simp [TcpPacket.hasPayload, hpos, hpayload.resolve_left hnil]
      rw [if_pos hhas, if_pos hhas, firstBytes_eq_some_iff (by omega)]
      exact ⟨_, rfl, Nat.le_refl _, List.take_length⟩
  refine ⟨pkt.headers, pkt.payload, ?_, hbody, ?_⟩
  · rw [pkt.parsed_eq, firstBytes_eq_some_iff (by simp only; omega)]
    exact ⟨_, if_pos hheaders, Nat.le_refl _, List.take_length⟩
  · rw [pkt.parsed_eq, pkt.headers_append_payload, firstBytes_eq_some_iff (by simp only; omega)]
    exact ⟨_, if_pos hraw, Nat.le_refl _, List.take_length⟩

/-- The raw packet matches exactly when the buffers are there and the edits change nothing. -/
theorem rawMatches_processed_iff (hin : ProcessInside cfg env (pkt.parsed env)) :
    RawMatches (processedPacket cfg (pkt.parsed env)) ↔
      BuffersGranted env pkt ∧ ∀ b ∈ httpPayload cfg (pkt.parsed env), editedPayload cfg b = b := by
  constructor
  · intro h
    obtain ⟨hraw, hheaders, hbody⟩ := granted_of_rawMatches cfg env pkt h
    refine ⟨⟨hraw, hheaders, ?_⟩, ?_⟩
    · cases hhas : pkt.hasPayload env with
      | true => exact Or.inr (Bool.and_eq_true_iff.1 hhas).2
      | false =>
        rw [pkt.parsed_payloadLen, hhas] at hbody
        exact Or.inl (Option.some.inj hbody).symm
    · intro b hb
      obtain ⟨rfl, hhas, -, -, h3, -⟩ := (mem_httpPayload_parsed cfg env pkt).1 hb
      have hlen := length_editedPayload (hin.2.1 _ hb)
      rw [pkt.parsed_payloadLen, if_pos hhas, processedPacket, hb, Option.elim_some,
        firstBytes_eq_some_iff (by omega)] at hbody
      obtain ⟨c, hc, -, htake⟩ := hbody
      cases hc
      rwa [← hlen, List.take_length] at htake
  · rintro ⟨hgranted, hsame⟩
    have hproc : processedPacket cfg (pkt.parsed env) = pkt.parsed env := by
      unfold processedPacket
      cases hb : httpPayload cfg (pkt.parsed env) with
      | none => rfl
      | some b =>
        obtain ⟨rfl, hhas, -⟩ := (mem_httpPayload_parsed cfg env pkt).1 hb
        rw [Option.elim_some, hsame _ hb, Packet.setPayload]
        rw [← show (pkt.parsed env).payload = some pkt.payload by rw [pkt.parsed_payload, if_pos hhas]]
    rw [hproc]
    exact rawMatches_parsed env pkt hgranted

end

/-- After `packet_process` on a well-formed IPv4 TCP packet the raw packet is the headers followed by the payload
exactly when the edits are in range and change nothing. -/
theorem packetProcess_rawMatches_iff (cfg : Config) (env : Env) (pkt : TcpPacket) :
    ∃ p, (parseRun env pkt.bytes).val = some (0, p) ∧
      (((packetProcess cfg env p).All InRange ∧ ∃ r, (packetProcess cfg env p).val = some r ∧ RawMatches r.2) ↔
        RawUpToDate cfg env pkt) := by
  refine ⟨_, pkt.parseRun_val env, ?_⟩
  have hl := parsed_payloadLen_eq env pkt
  unfold TcpPacket.parsed at hl
  rw [packetProcess_returns_iff hl]
  change ProcessInside cfg env (pkt.parsed env) ∧ RawMatches (processedPacket cfg (pkt.parsed env)) ↔ _
  constructor
  · rintro ⟨hin, hraw⟩
    obtain ⟨hgranted, hsame⟩ := (rawMatches_processed_iff cfg env pkt hin).1 hraw
    refine ⟨hgranted, (processInside_parsed_iff cfg env pkt hgranted.2.1).1 hin, fun hreq => ?_⟩
    have hpos : 0 < pkt.payload.length := by
      have := hreq.2.2.1
      omega
    have hmalloc := hgranted.2.2.resolve_left (List.length_pos_iff.1 hpos)
    have hhas : pkt.hasPayload env := by simp [TcpPacket.hasPayload, hpos, hmalloc]
    have hmem := (mem_httpPayload_parsed cfg env pkt).2 ⟨rfl, hhas, hreq⟩
    exact (editedPayload_eq_self_iff (hin.2.1 _ hmem)).1 (hsame _ hmem)
  · rintro ⟨hgranted, hreads, hneutral⟩
    have hin := (processInside_parsed_iff cfg env pkt hgranted.2.1).2 hreads
    refine ⟨hin, (rawMatches_processed_iff cfg env pkt hin).2 ⟨hgranted, fun b hb => ?_⟩⟩
    obtain ⟨rfl, -, hreq⟩ := (mem_httpPayload_parsed cfg env pkt).1 hb
    exact (editedPayload_eq_self_iff (hin.2.1 _ hb)).2 (hneutral hreq)

/-- With `host_mixedcase` on, the host name of a plain request is edited in the payload and not in the raw packet. -/
theorem httpRequest_not_rawMatches :
    ∃ p r, (parseRun plainEnv httpRequest.bytes).val = some (0, p) ∧
      (packetProcess { configInit with hostMixedcase := true } plainEnv p).val = some r ∧ ¬ RawMatches r.2 := by
  have hin : (packetProcess { configInit with hostMixedcase := true } plainEnv (httpRequest.parsed plainEnv)).All
      InRange := by
    unfold Traced.All
    decide
  obtain ⟨r, hr⟩ := exists_val hin
  refine ⟨_, r, httpRequest.parseRun_val plainEnv, hr, fun hmatch => ?_⟩
  have hraw := ((packetProcess_returns_iff (parsed_payloadLen_eq plainEnv httpRequest) (Q := fun r => RawMatches r.2)).1
    ⟨hin, r, hr, hmatch⟩).2
  obtain ⟨-, -, hbody⟩ := granted_of_rawMatches { configInit with hostMixedcase := true } plainEnv httpRequest hraw
  revert hbody
  decide

end GoodbyeDpi
