import GoodbyeDpi.PacketBuffers

/-!
# What the buffers of packets hold

The packets with their allocated buffers refine the packets that hold bytes: whatever is done to any number of packet
structures, each shows the packet that the same steps give on bytes, where parsing is the run of `packet_parse` and a
copy holds what its original does.  So all buffers of a packet are parts of one captured packet.
-/

namespace GoodbyeDpi

open CSem Traced Access Function

/-! ### Packets that hold bytes -/

namespace Packet

/-- The bytes behind a pointer, and the length beside it. -/
def buffer (p : Packet) : Buffer → Option (List UInt8) × Nat
  | .payload => (p.payload, p.payloadLen)
  | .headers => (p.headers, p.headersLen)
  | .rawPacket => (p.rawPacket, p.rawPacketLen)

def withBuffer (p : Packet) (c : Option (List UInt8)) (n : Nat) : Buffer → Packet
  | .payload => { p with payload := c, payloadLen := n }
  | .headers => { p with headers := c, headersLen := n }
  | .rawPacket => { p with rawPacket := c, rawPacketLen := n }

/-- The fields that are neither a pointer nor a length. -/
def bare (p : Packet) : Packet :=
  { p with payload := none, payloadLen := 0, headers := none, headersLen := 0, rawPacket := none, rawPacketLen := 0 }

variable (p : Packet) (c : Option (List UInt8)) (n : Nat) (b : Buffer)

@[simp] theorem buffer_withBuffer : (p.withBuffer c n b).buffer b = (c, n) := by cases b <;> rfl

private theorem buffer_withBuffer_of_ne {b b' : Buffer} (hb : b' ≠ b) :
    (p.withBuffer c n b).buffer b' = p.buffer b' := by
  cases b <;> cases b' <;> first | rfl | exact absurd rfl hb

@[simp] theorem bare_withBuffer : (p.withBuffer c n b).bare = p.bare := by cases b <;> rfl

@[simp] theorem withBuffer_self : p.withBuffer (p.buffer b).1 (p.buffer b).2 b = p := by cases b <;> rfl

@[simp] theorem buffer_bare : p.bare.buffer b = (none, 0) := by cases b <;> rfl

end Packet

/-- The answer of `malloc` for a buffer. -/
def Env.granted (env : Env) : Buffer → Bool
  | .payload => env.mallocPayload
  | .headers => env.mallocHeaders
  | .rawPacket => env.mallocRaw

/-- The answers that the pointers tell. -/
def heldEnv (hp : HeapPacket) : Env :=
  ⟨decide (hp.ptr .payload ≠ 0), decide (hp.ptr .rawPacket ≠ 0), decide (hp.ptr .headers ≠ 0), true, 0, 0, 0, 0⟩

private theorem granted_heldEnv (hp : HeapPacket) (b : Buffer) : (heldEnv hp).granted b = decide (hp.ptr b ≠ 0) := by
  cases b <;> rfl

/-- One buffer in `packet_copy`. -/
def copiedBuffer (env : Env) (src : Packet) (b : Buffer) (dst : Packet) : Packet :=
  if (src.buffer b).1.isSome ∧ 0 < (src.buffer b).2 ∧ malloc (env.granted b) (src.buffer b).2 then
    dst.withBuffer (src.buffer b).1 (src.buffer b).2 b
  else dst

/-- `packet_copy`. -/
def copied (env : Env) (src : Packet) : Packet :=
  copiedBuffer env src .rawPacket (copiedBuffer env src .headers (copiedBuffer env src .payload src.bare))

/-- `packet_parse_ipv4` allocates a payload. -/
def PayloadAsked (data : List UInt8) : Prop :=
  (ipProtocol data = ipprotoTcp ∨ ipProtocol data = ipprotoUdp) ∧ 0 < wrapSub data.length (headersLen data)

instance (data : List UInt8) : Decidable (PayloadAsked data) := inferInstanceAs (Decidable (_ ∧ _))

/-- The buffers for which `packet_parse_ipv4` calls `malloc` once the sizes are checked, in this order. -/
def ipv4Asks (data : List UInt8) : List Buffer :=
  (if PayloadAsked data then [.payload] else []) ++ [.rawPacket] ++ [.headers]

/-- The buffers for which `packet_parse` calls `malloc`. -/
def parseAsks (data : List UInt8) : List Buffer :=
  if data.length < iphdrSize then []
  else if ipVersion data = 4 then
    if TransportTooShort data then []
    else ipv4Asks data
  else if ipVersion data = 6 then [.rawPacket]
  else []

/-- `packet_copy` allocates this buffer. -/
def CopyAsked (src : Packet) (b : Buffer) : Prop := (src.buffer b).1.isSome ∧ 0 < (src.buffer b).2

instance (src : Packet) (b : Buffer) : Decidable (CopyAsked src b) := inferInstanceAs (Decidable (_ ∧ _))

/-- The buffers for which `packet_copy` calls `malloc`, in this order. -/
def copyAsks (src : Packet) : List Buffer := [.payload, .headers, .rawPacket].filter fun b => CopyAsked src b

/-- One operation on packets that hold bytes, for which `malloc` gives these answers. -/
def Acts (answers : List Bool) (values : Nat → Packet) : PacketOp → (Nat → Packet) → Prop
  | .init i, values' => answers = [] ∧ values' = update values i packetInit
  | .parse i data, values' => ∃ env r, answers = (parseAsks data.bytes).map env.granted ∧
    (packetParse env data.bytes data.bytes.length (values i)).val = some r ∧ values' = update values i r.2
  | .copy i j, values' => ∃ env, answers = (copyAsks (update values j packetInit i)).map env.granted ∧
    values' = update values j (copied env (update values j packetInit i))
  | .free i, values' => answers = [] ∧ values' = update values i packetInit

/-- A sequence of them: each is given its part of the answers. -/
def Runs (values : Nat → Packet) : List PacketOp → List Bool → (Nat → Packet) → Prop
  | [], answers, values' => answers = [] ∧ values' = values
  | op :: ops, answers, values' =>
    ∃ first rest v, answers = first ++ rest ∧ Acts first values op v ∧ Runs v ops rest values'

/-! ### What a packet with allocated buffers shows -/

/-- A null pointer, or a pointer to a block with these bytes. -/
def ShowsBuffer (h : Blocks) (q n : Nat) : Option (List UInt8) → Prop
  | none => q = 0
  | some c => q ≠ 0 ∧ (q, c) ∈ h ∧ c.length = n

structure Shows (h : Blocks) (hp : HeapPacket) (p : Packet) : Prop where
  fields : hp.fields = p.bare
  len : ∀ b, hp.len b = (p.buffer b).2
  bytes : ∀ b, ShowsBuffer h (hp.ptr b) (hp.len b) (p.buffer b).1

variable {h h' : Blocks} {hp hp' : HeapPacket} {p p' : Packet} {b : Buffer} {q n : Nat} {c : List UInt8}
  {o : Option (List UInt8)}

private theorem ShowsBuffer.mono (hs : ShowsBuffer h q n o) (hkeep : ∀ c, (q, c) ∈ h → (q, c) ∈ h') :
    ShowsBuffer h' q n o := by
  cases o with
  | none => exact hs
  | some c => exact ⟨hs.1, hkeep c hs.2.1, hs.2.2⟩

private theorem ShowsBuffer.eq_none (hs : ShowsBuffer h 0 n o) : o = none := by
  cases o with
  | none => rfl
  | some c => exact absurd rfl hs.1

/-- The answer of `malloc`, with what it leads to. -/
private theorem showsBuffer_of_newBlock {k : Nat} (hnew : NewBlock h k c q h') (hc : c.length = k) {granted : Bool}
    (hg : granted = decide (q ≠ 0)) : ShowsBuffer h' q k (if malloc granted k then some c else none) := by
  rcases hnew with ⟨rfl, -⟩ | ⟨hq, -, hk, rfl⟩
  · have hfalse : granted = false := hg.trans (decide_eq_false fun hne => hne rfl)
    rw [hfalse, if_neg (by simp [malloc])]
    rfl
  · have htrue : granted = true := hg.trans (decide_eq_true hq)
    rw [htrue, if_pos (by simpa [malloc] using hk)]
    exact ⟨hq, List.mem_cons_self, hc⟩

private theorem shows_packetInit : Shows h OnHeap.packetInit packetInit where
  fields := rfl
  len b := by cases b <;> rfl
  bytes b := by cases b <;> rfl

/-- A packet without buffers. -/
private theorem shows_bare (p : Packet) : Shows h { OnHeap.packetInit with fields := p.bare } p.bare where
  fields := by cases p; rfl
  len b := (congrArg Prod.snd (p.buffer_bare b)).symm
  bytes b := by
    rw [p.buffer_bare]
    rfl

/-- The blocks of the packet are still there. -/
private theorem Shows.mono (hs : Shows h hp p) (hkeep : ∀ b c, (hp.ptr b, c) ∈ h → (hp.ptr b, c) ∈ h') :
    Shows h' hp p where
  fields := hs.fields
  len := hs.len
  bytes b := (hs.bytes b).mono (hkeep b)

/-- A change of the other fields. -/
private theorem Shows.setFields (hs : Shows h hp p) (hfields : hp'.fields = p'.bare) (hptr : hp'.ptr = hp.ptr)
    (hlen : hp'.len = hp.len) (hbuffer : p'.buffer = p.buffer) : Shows h hp' p' where
  fields := hfields
  len b := by rw [hlen, hbuffer, hs.len]
  bytes b := by
    rw [hptr, hlen, hbuffer]
    exact hs.bytes b

private theorem Shows.setBuffer (hs : Shows h hp p) (hsub : h ⊆ h') (hb : ShowsBuffer h' q n o) :
    Shows h' (hp.setBuffer b q n) (p.withBuffer o n b) where
  fields := (hs.fields.trans (p.bare_withBuffer o n b).symm)
  len b' := by
    by_cases hbb : b' = b
    · rw [hbb, HeapPacket.setBuffer_len, Packet.buffer_withBuffer]
    · rw [Packet.buffer_withBuffer_of_ne _ _ _ hbb, ← hs.len]
      exact update_of_ne hbb ..
  bytes b' := by
    by_cases hbb : b' = b
    · rw [hbb, HeapPacket.setBuffer_len, Packet.buffer_withBuffer, HeapPacket.setBuffer_ptr]
      exact hb
    · have hptr : (hp.setBuffer b q n).ptr b' = hp.ptr b' := update_of_ne hbb ..
      have hlen : (hp.setBuffer b q n).len b' = hp.len b' := update_of_ne hbb ..
      rw [Packet.buffer_withBuffer_of_ne _ _ _ hbb, hptr, hlen]
      exact (hs.bytes b').mono fun c hc => hsub hc

/-- A buffer that is null stays so when `malloc` gives nothing. -/
private theorem Shows.setNull (hs : Shows h hp p) (hsub : h ⊆ h') (hb : hp.ptr b = 0) :
    Shows h' (hp.setBuffer b 0 (hp.len b)) p := by
  have hnone : (p.buffer b).1 = none := (hb ▸ hs.bytes b : ShowsBuffer h 0 _ _).eq_none
  have hset := hs.setBuffer (b := b) (q := 0) (n := hp.len b) (o := none) hsub rfl
  rwa [← hnone, hs.len b, Packet.withBuffer_self, ← hs.len b] at hset

/-! ### The functions -/

/-- A part of a function that fills one buffer does to a packet that is shown what `f` says; it calls `malloc` where
`asks` says so. -/
structure Builds (h : Blocks) (l : List Bool) (b : Buffer) (asks : Prop) [Decidable asks] (hp : HeapPacket)
    (f : Env → Packet → Packet) (hp' : HeapPacket) (x : Blocks × List Bool) : Prop where
  keeps : h ⊆ x.1
  others : ∀ b', b' ≠ b → hp'.ptr b' = hp.ptr b'
  shows : ∀ env p, env.granted b = decide (hp'.ptr b ≠ 0) → Shows h hp p → Shows x.1 hp' (f env p)
  log : x.2 = l ++ (if asks then [b] else []).map (heldEnv hp').granted

variable {l : List Bool}

private theorem Builds.congr {asks asks' : Prop} [Decidable asks] [Decidable asks'] {f f' : Env → Packet → Packet}
    {x : Blocks × List Bool} (hbuilt : Builds h l b asks hp f hp' x) (hasks : asks ↔ asks')
    (hf : ∀ env p, Shows h hp p → f env p = f' env p) : Builds h l b asks' hp f' hp' x where
  keeps := hbuilt.keeps
  others := hbuilt.others
  shows env p hg hs := hf env p hs ▸ hbuilt.shows env p hg hs
  log := by
    rw [hbuilt.log]
    simp only [hasks]

/-- The log of a buffer that `malloc` was asked for. -/
private theorem log_setBuffer (hp : HeapPacket) (b : Buffer) (q n : Nat) (l : List Bool) :
    l ++ [decide (q ≠ 0)] = l ++ [b].map (heldEnv (hp.setBuffer b q n)).granted := by
  rw [List.map_singleton, granted_heldEnv, HeapPacket.setBuffer_ptr]

private theorem copyPayload_builds {data : List UInt8} {dataType emptyType : PacketType} {off k : Nat}
    (hb : hp.ptr .payload = 0) (hin : off + k ≤ data.length) :
    Meets (allocator.logged MemCall.granted) (OnHeap.copyPayload data dataType emptyType off k hp) (h, l)
      (Builds h l .payload (0 < k) hp fun env p => withPayload env data dataType emptyType off k p) := by
  have hlen : ((data.drop off).take k).length = k := by
    rw [List.length_take, List.length_drop]
    omega
  have htype {p : Packet} (t : PacketType) (hs : Shows h hp p) : Shows h (hp.setType t) { p with type := t } :=
    hs.setFields (by rw [HeapPacket.setType, hs.fields]; rfl) rfl rfl (by funext b; cases b <;> rfl)
  refine meets_ite.2 ⟨fun hk => meets_bind.2 ((mallocCopy_logged hlen l).imp fun q x ⟨hnew, hlog⟩ => ?_), fun hk => ?_⟩
  · refine ⟨hnew.subset, fun _ hb' => update_of_ne hb' .., fun env p hg hs => ?_, ?_⟩
    · rw [HeapPacket.setBuffer_ptr] at hg
      have hshows := showsBuffer_of_newBlock hnew hlen hg
      change Shows _ _ (if 0 < k then if malloc (env.granted .payload) k = true then _ else _ else _)
      rw [if_pos hk]
      by_cases hq : q = 0
      · have hno : ¬ malloc (env.granted .payload) k = true := by
          rw [hg, hq]
          simp [malloc]
        rw [if_neg hno, if_pos hq, hq]
        exact (htype dataType hs).setNull hnew.subset hb
      · rw [if_neg hq]
        by_cases hm : malloc (env.granted .payload) k = true
        · rw [if_pos hm] at hshows ⊢
          exact (htype dataType hs).setBuffer (b := .payload) hnew.subset hshows
        · rw [if_neg hm] at hshows
          exact absurd hshows hq
    · rw [hlog, if_pos hk]
      exact log_setBuffer ..
  · refine ⟨List.Subset.refl h, fun _ _ => rfl, fun env p _ hs => ?_, ?_⟩
    · change Shows _ _ (if 0 < k then _ else _)
      rw [if_neg hk]
      exact htype emptyType hs
    · rw [if_neg hk]
      exact (List.append_nil l).symm

private theorem Shows.buffer_eq_none (hs : Shows h hp p) (hb : hp.ptr b = 0) : (p.buffer b).1 = none := by
  have hbytes := hs.bytes b
  rw [hb] at hbytes
  exact hbytes.eq_none

private theorem storeRaw_builds (data : List UInt8) (hb : hp.ptr .rawPacket = 0) :
    Meets (allocator.logged MemCall.granted) (OnHeap.storeRaw data hp) (h, l)
      (Builds h l .rawPacket True hp fun env p => withRaw env data p) := by
  refine meets_bind.2 ((mallocCopy_logged rfl l).imp fun q x ⟨hnew, hlog⟩ => ?_)
  refine ⟨hnew.subset, fun _ hb' => update_of_ne hb' .., fun env p hg hs => ?_, ?_⟩
  · rw [HeapPacket.setBuffer_ptr] at hg
    have hnone : p.rawPacket = none := hs.buffer_eq_none hb
    have hraw : withRaw env data p =
        p.withBuffer (if malloc env.mallocRaw data.length then some data else none) data.length .rawPacket := by
      rw [withRaw, hnone]
      rfl
    rw [hraw]
    exact hs.setBuffer hnew.subset (showsBuffer_of_newBlock hnew rfl hg)
  · rw [hlog, if_pos trivial]
    exact log_setBuffer ..

private theorem storeHeaders_builds {data : List UInt8} (hb : hp.ptr .headers = 0)
    (hfit : headersLen data ≤ data.length) :
    Meets (allocator.logged MemCall.granted) (OnHeap.storeHeaders data hp) (h, l)
      (Builds h l .headers True hp fun env p => withHeaders env data p) := by
  have hlen : (data.take (headersLen data)).length = headersLen data := by
    rw [List.length_take]
    omega
  refine meets_bind.2 ((mallocCopy_logged hlen l).imp fun q x ⟨hnew, hlog⟩ => ?_)
  refine ⟨hnew.subset, fun _ hb' => update_of_ne hb' .., fun env p hg hs => ?_, ?_⟩
  · rw [HeapPacket.setBuffer_ptr] at hg
    have hnone : p.headers = none := hs.buffer_eq_none hb
    have hheaders : withHeaders env data p = p.withBuffer
        (if malloc env.mallocHeaders (headersLen data) then some (data.take (headersLen data)) else none)
        (headersLen data) .headers := by
      rw [withHeaders, hnone]
      rfl
    rw [hheaders]
    exact hs.setBuffer hnew.subset (showsBuffer_of_newBlock hnew hlen hg)
  · rw [hlog, if_pos trivial]
    exact log_setBuffer ..

private theorem Shows.setPorts (hs : Shows h hp p) (data : List UInt8) :
    Shows h { hp with fields := withPorts data hp.fields } (withPorts data p) := by
  refine hs.setFields ?_ rfl rfl ?_
  · rw [hs.fields]
    rfl
  · funext b
    cases b <;> rfl

private theorem parseTransport_builds {data : List UInt8} (hb : hp.ptr .payload = 0) (hlen : data.length < sizeMod)
    (hfit : headersLen data ≤ data.length) :
    Meets (allocator.logged MemCall.granted) (OnHeap.parseTransport data hp) (h, l)
      (Builds h l .payload (PayloadAsked data) hp fun env p => withTransport env data p) := by
  have hin := payload_inside hlen hfit
  have h120 := headersLen_le data
  have hports : ({ hp with fields := withPorts data hp.fields } : HeapPacket).ptr .payload = 0 := hb
  have hwith {asks : Prop} [Decidable asks] {f : Env → Packet → Packet} {hp' : HeapPacket} {x : Blocks × List Bool}
      (hbuilt : Builds h l .payload asks { hp with fields := withPorts data hp.fields } f hp' x) :
      Builds h l .payload asks hp (fun env p => f env (withPorts data p)) hp' x :=
    ⟨hbuilt.keeps, hbuilt.others, fun env p hg hs => hbuilt.shows env _ hg (hs.setPorts data), hbuilt.log⟩
  refine meets_ite.2 ⟨fun htcp => ?_, fun htcp => meets_ite.2 ⟨fun hudp => ?_, fun hudp => ?_⟩⟩
  · have hhl : headersLen data = ipIhl data * 4 + tcpDoff data * 4 := by rw [headersLen, transportLen, if_pos htcp]
    rw [hhl] at hin h120
    rw [wrapSub_wrapSub h120]
    refine (copyPayload_builds hports hin).imp fun hp' x hbuilt => (hwith hbuilt).congr ?_ fun env p hs => ?_
    · rw [PayloadAsked, hhl]
      exact (and_iff_right (Or.inl htcp)).symm
    · rw [withTransport, if_pos htcp, hhl]
  · have hhl : headersLen data = ipIhl data * 4 + udphdrSize := by
      rw [headersLen, transportLen, if_neg htcp, if_pos hudp]
    rw [hhl] at hin h120
    rw [wrapSub_wrapSub h120]
    refine (copyPayload_builds hports hin).imp fun hp' x hbuilt => (hwith hbuilt).congr ?_ fun env p hs => ?_
    · rw [PayloadAsked, hhl]
      exact (and_iff_right (Or.inr hudp)).symm
    · have htype : p.type = hp.fields.type := by rw [hs.fields]; rfl
      rw [withTransport, if_neg htcp, if_pos hudp, hhl, htype]
  · have hno : ¬ PayloadAsked data := fun hasked => hasked.1.elim htcp hudp
    refine ⟨List.Subset.refl h, fun _ _ => rfl, fun env p _ hs => ?_, ?_⟩
    · rw [withTransport, if_neg htcp, if_neg hudp]
      exact hs
    · rw [if_neg hno]
      exact (List.append_nil l).symm

/-- What `packet_parse` gives for a captured packet. -/
private theorem packetParse_val (env : Env) (data : Captured) (p : Packet) :
    (packetParse env data.bytes data.bytes.length p).val = some (
      if data.bytes.length < iphdrSize then (-1, p)
      else if ipVersion data.bytes = 4 then
        if TransportTooShort data.bytes then (-1, ipv4Base data.bytes) else (0, parsedIpv4 env data.bytes)
      else if ipVersion data.bytes = 6 then (0, parsedIpv6 env data.bytes)
      else (-1, p)) := by
  refine val_of_obeys_eq (P := InRange) (fun _ h => h) ((obeys_packetParse (watches_inRange _) data.short).2 ?_)
  by_cases h20 : data.bytes.length < iphdrSize
  · rw [if_pos h20, if_pos h20]
  rw [if_neg h20, if_neg h20]
  by_cases h4 : ipVersion data.bytes = 4
  · rw [if_pos h4, if_pos h4]
    refine ⟨fun hshort => by rw [if_pos hshort], fun hshort => ?_⟩
    have hfit := data.fits ⟨Nat.not_lt.1 h20, h4, hshort⟩
    exact ⟨hfit.transportInside, fun _ => ⟨trivial, trivial⟩, fun _ => Or.inr hfit.2.2, by rw [if_neg hshort]⟩
  · rw [if_neg h4, if_neg h4]
    by_cases h6 : ipVersion data.bytes = 6
    · rw [if_pos h6, if_pos h6]
    · rw [if_neg h6, if_neg h6]

/-- Pointers that have stayed tell the same answers. -/
private theorem map_heldEnv_congr {q : HeapPacket} {bs : List Buffer} (hptr : ∀ b ∈ bs, q.ptr b = hp.ptr b) :
    bs.map (heldEnv hp).granted = bs.map (heldEnv q).granted :=
  List.map_congr_left fun b hb => by rw [granted_heldEnv, granted_heldEnv, hptr b hb]

/-- Three buffers that are filled one after the other. -/
private theorem builds_three {hp₁ hp₂ hp₃ : HeapPacket} {b₁ b₂ b₃ : Buffer} {asks₁ asks₂ asks₃ : Prop} [Decidable asks₁]
    [Decidable asks₂] [Decidable asks₃] {f₁ f₂ f₃ : Env → Packet → Packet} {x₁ x₂ x₃ : Blocks × List Bool}
    (hb₁ : Builds h l b₁ asks₁ hp f₁ hp₁ x₁) (hb₂ : Builds x₁.1 x₁.2 b₂ asks₂ hp₁ f₂ hp₂ x₂)
    (hb₃ : Builds x₂.1 x₂.2 b₃ asks₃ hp₂ f₃ hp₃ x₃) (h12 : b₁ ≠ b₂) (h13 : b₁ ≠ b₃) (h23 : b₂ ≠ b₃) :
    h ⊆ x₃.1 ∧
      x₃.2 = l ++ ((if asks₁ then [b₁] else []) ++ (if asks₂ then [b₂] else []) ++
        if asks₃ then [b₃] else []).map (heldEnv hp₃).granted ∧
      ∀ p, Shows h hp p → Shows x₃.1 hp₃ (f₃ (heldEnv hp₃) (f₂ (heldEnv hp₃) (f₁ (heldEnv hp₃) p))) := by
  have hptr₁ : hp₃.ptr b₁ = hp₁.ptr b₁ := (hb₃.others _ h13).trans (hb₂.others _ h12)
  have hptr₂ : hp₃.ptr b₂ = hp₂.ptr b₂ := hb₃.others _ h23
  have hasked (asks : Prop) [Decidable asks] {b b' : Buffer} (hb : b' ∈ if asks then [b] else []) : b' = b := by
    split at hb
    · exact List.mem_singleton.1 hb
    · cases hb
  refine ⟨List.Subset.trans hb₁.keeps (List.Subset.trans hb₂.keeps hb₃.keeps), ?_, fun p hs => ?_⟩
  · have hlog₁ : (if asks₁ then [b₁] else []).map (heldEnv hp₁).granted = _ :=
      map_heldEnv_congr (q := hp₃) fun b hb => hasked asks₁ hb ▸ hptr₁
    have hlog₂ : (if asks₂ then [b₂] else []).map (heldEnv hp₂).granted = _ :=
      map_heldEnv_congr (q := hp₃) fun b hb => hasked asks₂ hb ▸ hptr₂
    rw [hb₃.log, hb₂.log, hb₁.log, hlog₁, hlog₂, List.map_append, List.map_append, List.append_assoc,
      List.append_assoc, List.append_assoc]
  · refine hb₃.shows _ _ (granted_heldEnv ..) (hb₂.shows _ _ ?_ (hb₁.shows _ _ ?_ hs))
    · rw [granted_heldEnv, hptr₂]
    · rw [granted_heldEnv, hptr₁]

/-- The three buffers of an IPv4 packet. -/
private theorem fillBuffers_shows {data : List UInt8} (hb : hp.ptr = fun _ => 0) (hlen : data.length < sizeMod)
    (hfit : headersLen data ≤ data.length) :
    Meets (allocator.logged MemCall.granted) (do
      let hp ← OnHeap.parseTransport data hp
      let hp ← OnHeap.storeRaw data hp
      let hp ← OnHeap.storeHeaders data hp
      pure ((0 : Int), hp)) (h, l) fun r x => r.1 = 0 ∧ h ⊆ x.1 ∧ ∃ env : Env,
        x.2 = l ++ (ipv4Asks data).map env.granted ∧
        ∀ p, Shows h hp p → Shows x.1 r.2 (withHeaders env data (withRaw env data (withTransport env data p))) := by
  have hb₀ (b : Buffer) : hp.ptr b = 0 := congrFun hb b
  refine meets_bind.2 ((parseTransport_builds (hb₀ _) hlen hfit).imp fun hp₁ x₁ hb₁ => ?_)
  have hraw : hp₁.ptr .rawPacket = 0 := (hb₁.others _ (by decide)).trans (hb₀ _)
  refine meets_bind.2 ((storeRaw_builds data hraw).imp fun hp₂ x₂ hb₂ => ?_)
  have hheaders : hp₂.ptr .headers = 0 :=
    (hb₂.others _ (by decide)).trans ((hb₁.others _ (by decide)).trans (hb₀ _))
  refine meets_bind.2 ((storeHeaders_builds hheaders hfit).imp fun hp₃ x₃ hb₃ => ?_)
  obtain ⟨hkeeps, hlog, hshows⟩ := builds_three hb₁ hb₂ hb₃ (by decide) (by decide) (by decide)
  rw [if_pos trivial, if_pos trivial] at hlog
  exact ⟨rfl, hkeeps, heldEnv hp₃, hlog, hshows⟩

private theorem packetParse_shows (data : Captured) (hs : Shows h hp p) :
    Meets (allocator.logged MemCall.granted) (OnHeap.packetParse data.bytes hp) (h, l) fun r x =>
      h ⊆ x.1 ∧ ∃ env v, x.2 = l ++ (parseAsks data.bytes).map env.granted ∧
        (packetParse env data.bytes data.bytes.length p).val = some (r.1, v) ∧ Shows x.1 r.2 v := by
  have hsame : h ⊆ h := List.Subset.refl h
  have hnil (env : Env) : l = l ++ ([] : List Buffer).map env.granted := (List.append_nil l).symm
  simp only [packetParse_val, parseAsks]
  refine meets_ite.2 ⟨fun h20 => ?_, fun h20 => ?_⟩
  · rw [if_pos h20]
    exact ⟨hsame, heldEnv hp, p, hnil _, by rw [if_pos h20], hs⟩
  rw [if_neg h20]
  refine meets_ite.2 ⟨fun h4 => ?_, fun h4 => meets_ite.2 ⟨fun h6 => ?_, fun h6 => ?_⟩⟩
  · refine meets_ite.2 ⟨fun h20' => absurd h20' h20, fun _ => meets_ite.2 ⟨fun h4' => absurd h4 h4', fun _ => ?_⟩⟩
    have hbase : Shows h { OnHeap.packetInit with fields := ipv4Base data.bytes } (ipv4Base data.bytes) :=
      shows_bare (ipv4Base data.bytes)
    rw [if_pos h4]
    refine meets_ite.2 ⟨fun hshort => ?_, fun hshort => ?_⟩
    · rw [if_pos hshort]
      exact ⟨hsame, heldEnv hp, _, hnil _, by rw [if_neg h20, if_pos h4, if_pos hshort], hbase⟩
    · rw [if_neg hshort]
      have hfit := (data.fits ⟨Nat.not_lt.1 h20, h4, hshort⟩).2.2
      refine (fillBuffers_shows rfl data.short hfit).imp fun r x hr => ⟨hr.2.1, ?_⟩
      obtain ⟨hcode, -, env, hlog, hshows⟩ := hr
      refine ⟨env, parsedIpv4 env data.bytes, hlog, ?_, hshows _ hbase⟩
      rw [if_neg h20, if_pos h4, if_neg hshort, hcode]
  · have hbase : Shows h { OnHeap.packetInit with fields := { packetInit with isIpv6 := true, type := .ipv6Tcp } }
        { packetInit with isIpv6 := true, type := .ipv6Tcp } :=
      shows_bare { packetInit with isIpv6 := true, type := .ipv6Tcp }
    rw [if_neg h4, if_pos h6]
    refine meets_bind.2 ((storeRaw_builds data.bytes rfl).imp fun hp₁ x₁ hb₁ => ?_)
    have hlog := hb₁.log
    rw [if_pos trivial] at hlog
    exact ⟨hb₁.keeps, heldEnv hp₁, parsedIpv6 (heldEnv hp₁) data.bytes, hlog,
      by rw [if_neg h20, if_neg h4, if_pos h6], hb₁.shows _ _ (granted_heldEnv ..) hbase⟩
  · rw [if_neg h4, if_neg h6]
    exact ⟨hsame, heldEnv hp, p, hnil _, by rw [if_neg h20, if_neg h4, if_neg h6], hs⟩

private theorem copyBuffer_builds {src : HeapPacket} {psrc : Packet} (hsrc : Shows h src psrc) (hb : hp.ptr b = 0) :
    Meets (allocator.logged MemCall.granted) (OnHeap.copyBuffer src b hp) (h, l)
      (Builds h l b (CopyAsked psrc b) hp fun env p => copiedBuffer env psrc b p) := by
  have hbytes := hsrc.bytes b
  have hlen := hsrc.len b
  refine meets_ite.2 ⟨fun hcond => ?_, fun hcond => ?_⟩
  · obtain ⟨c, hc⟩ : ∃ c, (psrc.buffer b).1 = some c := by
      cases ho : (psrc.buffer b).1 with
      | none =>
        rw [ho] at hbytes
        exact absurd hbytes hcond.1
      | some c => exact ⟨c, rfl⟩
    rw [hc] at hbytes
    have hasked : CopyAsked psrc b := by
      refine ⟨by rw [hc]; rfl, ?_⟩
      rw [← hlen]
      exact hcond.2
    refine meets_bind.2 ((mallocDup_logged hbytes.2.1 hbytes.2.2 l).imp fun q x ⟨hnew, hlog⟩ => ?_)
    refine ⟨hnew.subset, fun _ hb' => update_of_ne hb' .., fun env p hg hs => ?_, ?_⟩
    · rw [HeapPacket.setBuffer_ptr] at hg
      have hshows := showsBuffer_of_newBlock hnew hbytes.2.2 hg
      rw [copiedBuffer, hc, ← hlen]
      by_cases hm : malloc (env.granted b) (src.len b) = true
      · rw [if_pos hm] at hshows
        rw [if_neg hshows.1, if_pos ⟨rfl, hcond.2, hm⟩]
        exact hs.setBuffer hnew.subset hshows
      · rw [if_neg hm] at hshows
        have hq : q = 0 := hshows
        rw [if_pos hq, hq, if_neg fun hall => hm hall.2.2]
        exact hs.setNull hnew.subset hb
    · rw [hlog, if_pos hasked]
      exact log_setBuffer ..
  · have hno : ¬ CopyAsked psrc b := by
      rintro ⟨hsome, hpos⟩
      obtain ⟨c, hc⟩ := Option.isSome_iff_exists.1 hsome
      rw [hc] at hbytes
      rw [← hlen] at hpos
      exact hcond ⟨hbytes.1, hpos⟩
    refine ⟨List.Subset.refl h, fun _ _ => rfl, fun env p _ hs => ?_, ?_⟩
    · rw [copiedBuffer, if_neg fun hall => hno ⟨hall.1, hall.2.1⟩]
      exact hs
    · rw [if_neg hno]
      exact (List.append_nil l).symm

private theorem copyAsks_eq (src : Packet) : copyAsks src = (if CopyAsked src .payload then [.payload] else []) ++
    (if CopyAsked src .headers then [.headers] else []) ++ if CopyAsked src .rawPacket then [.rawPacket] else [] := by
  have hcons (b : Buffer) (bs : List Buffer) : (b :: bs).filter (fun b => CopyAsked src b) =
      (if CopyAsked src b then [b] else []) ++ bs.filter fun b => CopyAsked src b := by
    rw [List.filter_cons]
    by_cases hb : CopyAsked src b
    · simp only [hb, decide_true, if_true, List.cons_append, List.nil_append]
    · simp only [hb, decide_false, if_false, List.nil_append, Bool.false_eq_true]
  rw [copyAsks, hcons, hcons, hcons, List.filter_nil, List.append_nil, List.append_assoc]

private theorem packetCopy_shows {src : HeapPacket} {psrc : Packet} (hsrc : Shows h src psrc) :
    Meets (allocator.logged MemCall.granted) (OnHeap.packetCopy src) (h, l) fun dst x => h ⊆ x.1 ∧
      ∃ env : Env, x.2 = l ++ (copyAsks psrc).map env.granted ∧ Shows x.1 dst (copied env psrc) := by
  have hfields : src.copiedFields OnHeap.packetInit = { OnHeap.packetInit with fields := psrc.bare } := by
    rw [HeapPacket.copiedFields, hsrc.fields]
    rfl
  have hkeep {h' : Blocks} (hsub : h ⊆ h') : Shows h' src psrc := hsrc.mono fun _ _ hc => hsub hc
  have hbase : Shows h (src.copiedFields OnHeap.packetInit) psrc.bare := by
    rw [hfields]
    exact shows_bare psrc
  refine meets_bind.2 ((copyBuffer_builds (b := .payload) hsrc rfl).imp fun hp₁ x₁ hb₁ => ?_)
  have hheaders : hp₁.ptr .headers = 0 := hb₁.others _ (by decide)
  refine meets_bind.2 ((copyBuffer_builds (hkeep hb₁.keeps) hheaders).imp fun hp₂ x₂ hb₂ => ?_)
  have hraw : hp₂.ptr .rawPacket = 0 := (hb₂.others _ (by decide)).trans (hb₁.others _ (by decide))
  have hsub₂ := List.Subset.trans hb₁.keeps hb₂.keeps
  refine (copyBuffer_builds (hkeep hsub₂) hraw).imp fun hp₃ x₃ hb₃ => ?_
  obtain ⟨hkeeps, hlog, hshows⟩ := builds_three hb₁ hb₂ hb₃ (by decide) (by decide) (by decide)
  rw [← copyAsks_eq] at hlog
  exact ⟨hkeeps, heldEnv hp₃, hlog, hshows _ hbase⟩

/-- Other blocks stay. -/
private theorem freeBuffer_keeps (b : Buffer) (hlive : hp.ptr b ≠ 0 → hp.ptr b ∈ h.map Prod.fst) :
    Meets allocator (OnHeap.freeBuffer b hp) h fun _ h' => ∀ q c, q ≠ hp.ptr b → (q, c) ∈ h → (q, c) ∈ h' :=
  meets_ite.2 ⟨fun hb => meets_ask_bind.2 ⟨hlive hb, fun _ _ _ _ hq hc => List.mem_filter.2 ⟨hc, by simpa using hq⟩⟩,
    fun _ _ _ _ hc => hc⟩

private theorem packetFree_keeps {packets : Nat → HeapPacket} {i m : Nat} (ho : Owned (update packets i hp) m h) :
    Meets allocator (OnHeap.packetFree hp) h fun hp' h' =>
      hp' = OnHeap.packetInit ∧ ∀ q c, (∀ b, q ≠ hp.ptr b) → (q, c) ∈ h → (q, c) ∈ h' := by
  have hstep {hp : HeapPacket} {h : Blocks} (ho : Owned (update packets i hp) m h) (b : Buffer) :=
    (freeBuffer_owned ho b).and (freeBuffer_keeps b fun hb => by
      have hself : (update packets i hp i).ptr b = hp.ptr b := by rw [update_self]
      have hmem := Owns.live_mem ho (i := (i, b)) fun h0 => hb (hself.symm.trans h0)
      change (update packets i hp i).ptr b ∈ _ at hmem
      rwa [hself] at hmem)
  refine meets_bind.2 ((hstep ho .payload).imp ?_)
  rintro hp₁ h₁ ⟨⟨ho₁, hptr₁⟩, hkeep₁⟩
  refine meets_bind.2 ((hstep ho₁ .headers).imp ?_)
  rintro hp₂ h₂ ⟨⟨ho₂, hptr₂⟩, hkeep₂⟩
  refine meets_bind.2 ((hstep ho₂ .rawPacket).imp ?_)
  rintro hp₃ h₃ ⟨-, hkeep₃⟩
  refine ⟨rfl, fun q c hq hc => hkeep₃ q c ?_ (hkeep₂ q c ?_ (hkeep₁ q c (hq _) hc))⟩
  · rw [hptr₂, hptr₁]
    exact hq .rawPacket
  · rw [hptr₁]
    exact hq .headers

/-! ### Sequences -/

variable {packets : Nat → HeapPacket} {values values' : Nat → Packet} {i m : Nat}

private theorem shows_update (hs : ∀ k, k ≠ i → Shows h (packets k) (values k)) (hi : Shows h hp p) (k : Nat) :
    Shows h (update packets i hp k) (update values i p k) := by
  by_cases hk : k = i
  · rw [hk, update_self, update_self]
    exact hi
  · rw [update_of_ne hk, update_of_ne hk]
    exact hs k hk

/-- `packet_free` asks `malloc` for nothing. -/
private theorem makes_packetFree (hp : HeapPacket) :
    Makes (fun c => ∀ r, MemCall.granted c r = []) (OnHeap.packetFree hp) := by
  have hbuffer (b : Buffer) (hp : HeapPacket) :
      Makes (fun c => ∀ r, MemCall.granted c r = []) (OnHeap.freeBuffer b hp) :=
    makes_ite.2 ⟨fun _ => ⟨fun _ => rfl, fun _ => trivial⟩, fun _ => trivial⟩
  exact (hbuffer _ _).bind fun _ => (hbuffer _ _).bind fun _ => (hbuffer _ _).bind fun _ => trivial

private theorem packetOp_acts (ho : Owned packets m h) (hs : ∀ k, Shows h (packets k) (values k)) (op : PacketOp) :
    Meets (allocator.logged MemCall.granted) (packetOp packets op) (h, l) fun packets' x =>
      ∃ answers values', x.2 = l ++ answers ∧ Acts answers values op values' ∧
        ∀ k, Shows x.1 (packets' k) (values' k) := by
  have hkeep {h' : Blocks} (hsub : h ⊆ h') (k : Nat) : Shows h' (packets k) (values k) :=
    (hs k).mono fun _ _ hc => hsub hc
  cases op with
  | init i =>
    exact ⟨[], _, (List.append_nil l).symm, ⟨rfl, rfl⟩, shows_update (fun k _ => hs k) shows_packetInit⟩
  | parse i data =>
    refine meets_bind.2 ((packetParse_shows data (hs i)).imp fun r x hr => ?_)
    obtain ⟨hsub, env, v, hlog, hval, hv⟩ := hr
    exact ⟨_, _, hlog, ⟨env, (r.1, v), rfl, hval, rfl⟩, shows_update (fun k _ => hkeep hsub k) hv⟩
  | copy i j =>
    have hsrc := shows_update (i := j) (fun k _ => hs k) shows_packetInit i
    refine meets_bind.2 ((packetCopy_shows hsrc).imp fun dst x hr => ?_)
    obtain ⟨hsub, env, hlog, hdst⟩ := hr
    exact ⟨_, _, hlog, ⟨env, rfl, rfl⟩, shows_update (fun k _ => hkeep hsub k) hdst⟩
  | free i =>
    have hlog : ∀ (l' : List Bool) c r, (∀ r, MemCall.granted c r = []) → l' = l → l' ++ MemCall.granted c r = l :=
      fun l' c r hc hl => by rw [hc r, hl, List.append_nil]
    have hfree := (packetFree_keeps (ho.self i)).logged_frame (l := l) (I := fun _ l' => l' = l) (makes_packetFree _)
      (fun _ l' c r hc hl => hlog l' c r hc hl) rfl
    refine meets_bind.2 (hfree.imp ?_)
    rintro hp' ⟨h', l'⟩ ⟨⟨rfl, hkept⟩, hl⟩
    obtain rfl : l' = l := hl
    refine ⟨[], _, (List.append_nil _).symm, ⟨rfl, rfl⟩, shows_update (fun k hk => ?_) shows_packetInit⟩
    -- the blocks of the other packets are not those of the one that is freed
    refine { hs k with bytes := fun b => ?_ }
    by_cases hb : (packets k).ptr b = 0
    · rw [(hs k).buffer_eq_none hb]
      exact hb
    · refine ((hs k).bytes b).mono fun c hc => hkept _ c (fun b' heq => hk ?_) hc
      exact (Prod.mk.inj (ho.apart (k, b) (i, b') hb heq)).1

private theorem packetSession_runs (ops : List PacketOp) (packets : Nat → HeapPacket) (values : Nat → Packet) (m : Nat)
    (h : Blocks) (l : List Bool) (ho : Owned packets m h) (hs : ∀ k, Shows h (packets k) (values k)) :
    Meets (allocator.logged MemCall.granted) (packetSession packets ops) (h, l) fun r x =>
      ∃ answers values', x.2 = l ++ answers ∧ Runs values ops answers values' ∧
        ∀ k, Shows x.1 (r.1 k) (values' k) := by
  induction ops generalizing packets values m h l with
  | nil => exact ⟨[], values, (List.append_nil l).symm, ⟨rfl, rfl⟩, hs⟩
  | cons op ops ih =>
    have howned := (packetOp_owned ho op).logged MemCall.granted l
    refine meets_bind.2 ((howned.and (packetOp_acts ho hs op)).imp ?_)
    rintro packets' ⟨h', l'⟩ ⟨ho', first, v, hfirst, hacts, hv⟩
    refine meets_bind.2 ((ih packets' v _ h' l' ho' hv).imp ?_)
    rintro r ⟨h'', l''⟩ ⟨rest, values', hrest, hruns, hvalues⟩
    refine ⟨first ++ rest, values', ?_, ⟨first, rest, v, rfl, hacts, hruns⟩, hvalues⟩
    change l'' = l' ++ rest at hrest
    change l' = l ++ first at hfirst
    change l'' = _
    rw [hrest, hfirst, List.append_assoc]

/-- Whatever is done to packets, they show what the same steps give on packets that hold bytes, with the answers that
`malloc` has given. -/
theorem packet_buffers_refine (ops : List PacketOp) :
    Meets (allocator.logged MemCall.granted) (packetSession (fun _ => OnHeap.packetInit) ops) ([], []) fun r x =>
      ∃ values, Runs (fun _ => packetInit) ops x.2 values ∧ ∀ i, Shows x.1 (r.1 i) (values i) := by
  refine (packetSession_runs ops _ _ 0 [] [] owned_packetInit fun _ => shows_packetInit).imp ?_
  rintro r ⟨h, l⟩ ⟨answers, values, rfl, hruns, hs⟩
  exact ⟨values, hruns, hs⟩

/-! ### Where the bytes come from -/

/-- The part of a captured packet that goes into a buffer. -/
def part (data : List UInt8) : Buffer → List UInt8
  | .payload => data.drop (headersLen data)
  | .headers => data.take (headersLen data)
  | .rawPacket => data

/-- The packets that are parsed. -/
def captures (ops : List PacketOp) : List (List UInt8) :=
  ops.filterMap fun op => match op with
    | .parse _ data => some data.bytes
    | _ => none

/-- The buffers hold parts of this captured packet. -/
def HoldsParts (p : Packet) (data : List UInt8) : Prop := ∀ b c, (p.buffer b).1 = some c → c = part data b

/-- Nothing is held, or parts of one of the captured packets. -/
def FromCapture (captured : List (List UInt8)) (p : Packet) : Prop :=
  (∀ b, (p.buffer b).1 = none) ∨ ∃ data ∈ captured, HoldsParts p data

variable {captured : List (List UInt8)}

private theorem HoldsParts.withBuffer {data : List UInt8} (hp : HoldsParts p data)
    (ho : ∀ c, o = some c → c = part data b) :
    HoldsParts (p.withBuffer o n b) data := by
  intro b' c hc
  by_cases hb : b' = b
  · rw [hb, Packet.buffer_withBuffer] at hc
    rw [hb]
    exact ho c hc
  · rw [Packet.buffer_withBuffer_of_ne _ _ _ hb] at hc
    exact hp b' c hc

/-- A packet without buffers holds parts of any. -/
private theorem holdsParts_of_none {data : List UInt8} (hnone : ∀ b, (p.buffer b).1 = none) : HoldsParts p data := by
  intro b c hc
  rw [hnone b] at hc
  cases hc

private theorem copied_fromCapture (env : Env) (hp : FromCapture captured p) : FromCapture captured (copied env p) := by
  have hbare : ∀ b, (p.bare.buffer b).1 = none := fun b => congrArg Prod.fst (p.buffer_bare b)
  rcases hp with hnone | ⟨data, hdata, hparts⟩
  · have hskip (b : Buffer) (dst : Packet) : copiedBuffer env p b dst = dst := by
      refine if_neg fun hall => ?_
      rw [hnone b] at hall
      exact Bool.false_ne_true hall.1
    left
    rw [copied, hskip, hskip, hskip]
    exact hbare
  · have hcopy (b : Buffer) {dst : Packet} (hdst : HoldsParts dst data) :
        HoldsParts (copiedBuffer env p b dst) data := by
      unfold copiedBuffer
      split
      · exact hdst.withBuffer (hparts b)
      · exact hdst
    exact Or.inr ⟨data, hdata, hcopy _ (hcopy _ (hcopy _ (holdsParts_of_none hbare)))⟩

private theorem withRaw_holdsParts (env : Env) {data : List UInt8} (hp : HoldsParts p data) :
    HoldsParts (withRaw env data p) data := by
  have hraw : withRaw env data p =
      p.withBuffer (if malloc env.mallocRaw data.length then some data else p.rawPacket) data.length .rawPacket := rfl
  rw [hraw]
  refine hp.withBuffer fun c hc => ?_
  split at hc
  · exact (Option.some.inj hc).symm
  · exact hp .rawPacket c hc

private theorem withHeaders_holdsParts (env : Env) {data : List UInt8} (hp : HoldsParts p data) :
    HoldsParts (withHeaders env data p) data := by
  have hheaders : withHeaders env data p = p.withBuffer
      (if malloc env.mallocHeaders (headersLen data) then some (data.take (headersLen data)) else p.headers)
      (headersLen data) .headers := rfl
  rw [hheaders]
  refine hp.withBuffer fun c hc => ?_
  split at hc
  · exact (Option.some.inj hc).symm
  · exact hp .headers c hc

private theorem withTransport_holdsParts (env : Env) {data : List UInt8} (hlen : data.length < sizeMod)
    (hfit : headersLen data ≤ data.length) (hp : HoldsParts p data) : HoldsParts (withTransport env data p) data := by
  have hports : HoldsParts (withPorts data p) data := by
    intro b c hc
    refine hp b c ?_
    cases b <;> exact hc
  have hpayload {p : Packet} (t t' : PacketType) (hp : HoldsParts p data) :
      HoldsParts (withPayload env data t t' (headersLen data) (wrapSub data.length (headersLen data)) p) data := by
    have htype (t : PacketType) : HoldsParts { p with type := t } data := by
      intro b c hc
      refine hp b c ?_
      cases b <;> exact hc
    unfold withPayload
    split
    · split
      · refine (htype t).withBuffer (b := .payload) fun c hc => ?_
        have htake : ((data.drop (headersLen data)).take (wrapSub data.length (headersLen data))) =
            data.drop (headersLen data) := by
          rw [wrapSub_of_le hlen hfit, List.take_of_length_le]
          rw [List.length_drop]
        exact ((Option.some.inj hc).symm.trans htake)
      · exact htype t
    · exact htype t'
  unfold withTransport
  split
  · exact hpayload _ _ hports
  · split
    · exact hpayload _ _ hports
    · exact hp

private theorem packetParse_fromCapture {env : Env} {data : Captured} {r : Int × Packet}
    (hval : (packetParse env data.bytes data.bytes.length p).val = some r) (hp : FromCapture captured p)
    (hdata : data.bytes ∈ captured) : FromCapture captured r.2 := by
  have hnone {p : Packet} (hp : p = p.bare) (b : Buffer) : (p.buffer b).1 = none := by
    rw [hp, Packet.buffer_bare]
  rw [packetParse_val] at hval
  obtain rfl := Option.some.inj hval
  by_cases h20 : data.bytes.length < iphdrSize
  · rw [if_pos h20]
    exact hp
  rw [if_neg h20]
  by_cases h4 : ipVersion data.bytes = 4
  · rw [if_pos h4]
    have hbase : ∀ b, ((ipv4Base data.bytes).buffer b).1 = none := hnone rfl
    by_cases hshort : TransportTooShort data.bytes
    · rw [if_pos hshort]
      exact Or.inl hbase
    · rw [if_neg hshort]
      have hfit := (data.fits ⟨Nat.not_lt.1 h20, h4, hshort⟩).2.2
      exact Or.inr ⟨data.bytes, hdata, withHeaders_holdsParts env (withRaw_holdsParts env
        (withTransport_holdsParts env data.short hfit (holdsParts_of_none hbase)))⟩
  · rw [if_neg h4]
    split
    · exact Or.inr ⟨data.bytes, hdata, withRaw_holdsParts env (holdsParts_of_none (hnone rfl))⟩
    · exact hp

private theorem fromCapture_update (hv : ∀ k, FromCapture captured (values k)) (hp : FromCapture captured p) (k : Nat) :
    FromCapture captured (update values i p k) := by
  by_cases hk : k = i
  · rw [hk, update_self]
    exact hp
  · rw [update_of_ne hk]
    exact hv k

private theorem fromCapture_packetInit : FromCapture captured packetInit := Or.inl fun b => by cases b <;> rfl

private theorem acts_fromCapture {op : PacketOp} {answers : List Bool} (hacts : Acts answers values op values')
    (hop : ∀ i data, op = .parse i data → data.bytes ∈ captured) (hv : ∀ k, FromCapture captured (values k)) :
    ∀ k, FromCapture captured (values' k) := by
  cases op with
  | init i =>
    obtain ⟨-, rfl⟩ := hacts
    exact fromCapture_update hv fromCapture_packetInit
  | parse i data =>
    obtain ⟨env, r, -, hval, rfl⟩ := hacts
    exact fromCapture_update hv (packetParse_fromCapture hval (hv i) (hop i data rfl))
  | copy i j =>
    obtain ⟨env, -, rfl⟩ := hacts
    exact fromCapture_update hv (copied_fromCapture env (fromCapture_update hv fromCapture_packetInit i))
  | free i =>
    obtain ⟨-, rfl⟩ := hacts
    exact fromCapture_update hv fromCapture_packetInit

private theorem runs_fromCapture (ops : List PacketOp) (values : Nat → Packet) (answers : List Bool)
    (hruns : Runs values ops answers values')
    (hops : captures ops ⊆ captured) (hv : ∀ k, FromCapture captured (values k)) :
    ∀ k, FromCapture captured (values' k) := by
  induction ops generalizing values answers with
  | nil =>
    obtain ⟨-, rfl⟩ := hruns
    exact hv
  | cons op ops ih =>
    obtain ⟨first, rest, v, -, hacts, hruns⟩ := hruns
    refine ih v rest hruns (fun data hdata => hops ?_) (acts_fromCapture hacts (fun i data hop => hops ?_) hv)
    · obtain ⟨op', hmem, heq⟩ := List.mem_filterMap.1 hdata
      exact List.mem_filterMap.2 ⟨op', List.mem_cons_of_mem _ hmem, heq⟩
    · exact List.mem_filterMap.2 ⟨op, List.mem_cons_self, by rw [hop]⟩

/-- The buffers of a packet, however it came about, are parts of one captured packet. -/
theorem packet_buffers_captured (ops : List PacketOp) :
    Meets allocator (packetSession (fun _ => OnHeap.packetInit) ops) [] fun r h => ∀ i,
      (∀ b, (r.1 i).ptr b = 0) ∨
      ∃ data ∈ captures ops, ∀ b, (r.1 i).ptr b ≠ 0 → ((r.1 i).ptr b, part data b) ∈ h := by
  have hruns := packetSession_runs ops _ _ 0 [] [] owned_packetInit fun _ => shows_packetInit
  refine Meets.of_logged (hruns.imp fun r x ⟨answers, values, _, hruns, hs⟩ i => ?_)
  rcases runs_fromCapture ops _ answers hruns (List.Subset.refl _) (fun _ => fromCapture_packetInit) i with
    hnone | ⟨data, hdata, hparts⟩
  · refine Or.inl fun b => ?_
    have hbytes := (hs i).bytes b
    rw [hnone b] at hbytes
    exact hbytes
  · refine Or.inr ⟨data, hdata, fun b hb => ?_⟩
    have hbytes := (hs i).bytes b
    cases ho : ((values i).buffer b).1 with
    | none =>
      rw [ho] at hbytes
      exact absurd hbytes hb
    | some c =>
      rw [ho] at hbytes
      rw [← hparts b c ho]
      exact hbytes.2.1

end GoodbyeDpi
