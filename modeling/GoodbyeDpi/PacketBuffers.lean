import GoodbyeDpi.CSem.Allocator
import GoodbyeDpi.PacketParseSafety

/-!
# The buffers of packets (`src/capture/packet_utils.c`)

`packet_init`, `packet_parse`, `packet_copy` and `packet_free` with their calls of `malloc` and `free`, on any number of
packet structures.  Every buffer has one owner: nothing is freed twice or read after it was freed, a copy shares nothing
with its original, and what is allocated is what the packets hold, as long as no packet that holds a buffer is
initialized.
-/

namespace GoodbyeDpi

open CSem Function

/-- The three pointers of `packet_t`. -/
inductive Buffer where
  | payload
  | headers
  | rawPacket
deriving DecidableEq, Repr

/-- `packet_t` in memory: the pointers and the lengths beside the other fields, which are those of `fields`. -/
structure HeapPacket where
  fields : Packet
  ptr : Buffer → Nat
  len : Buffer → Nat

namespace HeapPacket

def setBuffer (hp : HeapPacket) (b : Buffer) (p n : Nat) : HeapPacket :=
  { hp with ptr := update hp.ptr b p, len := update hp.len b n }

@[simp] theorem setBuffer_ptr (hp : HeapPacket) (b : Buffer) (p n : Nat) : (hp.setBuffer b p n).ptr b = p :=
  update_self ..

@[simp] theorem setBuffer_len (hp : HeapPacket) (b : Buffer) (p n : Nat) : (hp.setBuffer b p n).len b = n :=
  update_self ..

def setType (hp : HeapPacket) (type : PacketType) : HeapPacket := { hp with fields := { hp.fields with type } }

/-- A buffer is held. -/
def Holds (hp : HeapPacket) : Prop := hp.ptr .payload ≠ 0 ∨ hp.ptr .headers ≠ 0 ∨ hp.ptr .rawPacket ≠ 0

/-- The fields that `packet_copy` copies. -/
def copiedFields (src dst : HeapPacket) : HeapPacket :=
  { dst with
    fields := { dst.fields with
      isIpv6 := src.fields.isIpv6, isOutbound := src.fields.isOutbound, type := src.fields.type
      direction := src.fields.direction, ttl := src.fields.ttl, srcPort := src.fields.srcPort
      dstPort := src.fields.dstPort, nfqueueId := src.fields.nfqueueId, srcIp := src.fields.srcIp
      dstIp := src.fields.dstIp } }

instance (hp : HeapPacket) : Decidable hp.Holds := inferInstanceAs (Decidable (_ ∨ _))

end HeapPacket

namespace OnHeap

/-- `packet_init`. -/
def packetInit : HeapPacket := ⟨GoodbyeDpi.packetInit, fun _ => 0, fun _ => 0⟩

/-- The copy of a payload of `n` bytes at `off`; the length is set only if `malloc` succeeds. -/
def copyPayload (data : List UInt8) (dataType emptyType : PacketType) (off n : Nat) (hp : HeapPacket) :
    MemProc HeapPacket := do
  if 0 < n then
    let p ← mallocCopy n ((data.drop off).take n)
    pure ((hp.setType dataType).setBuffer .payload p (if p = 0 then hp.len .payload else n))
  else pure (hp.setType emptyType)

/-- The transport layer in `packet_parse_ipv4`, behind the checks of the sizes. -/
def parseTransport (data : List UInt8) (hp : HeapPacket) : MemProc HeapPacket :=
  if ipProtocol data = ipprotoTcp then
    copyPayload data .ipv4TcpData .ipv4Tcp (ipIhl data * 4 + tcpDoff data * 4)
      (wrapSub (wrapSub data.length (ipIhl data * 4)) (tcpDoff data * 4))
      { hp with fields := withPorts data hp.fields }
  else if ipProtocol data = ipprotoUdp then
    copyPayload data .ipv4UdpData hp.fields.type (ipIhl data * 4 + udphdrSize)
      (wrapSub (wrapSub data.length (ipIhl data * 4)) udphdrSize)
      { hp with fields := withPorts data hp.fields }
  else pure hp

/-- The copy kept for reinjection. -/
def storeRaw (data : List UInt8) (hp : HeapPacket) : MemProc HeapPacket := do
  let p ← mallocCopy data.length data
  pure (hp.setBuffer .rawPacket p data.length)

/-- The copy of the headers. -/
def storeHeaders (data : List UInt8) (hp : HeapPacket) : MemProc HeapPacket := do
  let n := ipIhl data * 4 + transportLen data
  let p ← mallocCopy n (data.take n)
  pure (hp.setBuffer .headers p n)

/-- `packet_parse_ipv4`. -/
def packetParseIpv4 (data : List UInt8) (hp : HeapPacket) : MemProc (Int × HeapPacket) := do
  if data.length < iphdrSize then pure (-1, hp)
  else if ipVersion data ≠ 4 then pure (-1, hp)
  else
    let hp := { packetInit with fields := ipv4Base data }
    if TransportTooShort data then pure (-1, hp)
    else
      let hp ← parseTransport data hp
      let hp ← storeRaw data hp
      let hp ← storeHeaders data hp
      pure (0, hp)

/-- `packet_parse_ipv6`. -/
def packetParseIpv6 (data : List UInt8) : MemProc (Int × HeapPacket) := do
  let hp ← storeRaw data { packetInit with fields := { GoodbyeDpi.packetInit with isIpv6 := true, type := .ipv6Tcp } }
  pure (0, hp)

/-- `packet_parse`. -/
def packetParse (data : List UInt8) (hp : HeapPacket) : MemProc (Int × HeapPacket) :=
  if data.length < iphdrSize then pure (-1, hp)
  else if ipVersion data = 4 then packetParseIpv4 data hp
  else if ipVersion data = 6 then packetParseIpv6 data
  else pure (-1, hp)

/-- One buffer in `packet_copy`. -/
def copyBuffer (src : HeapPacket) (b : Buffer) (dst : HeapPacket) : MemProc HeapPacket := do
  if src.ptr b ≠ 0 ∧ 0 < src.len b then
    let p ← mallocDup (src.len b) (src.ptr b)
    pure (dst.setBuffer b p (if p = 0 then dst.len b else src.len b))
  else pure dst

/-- `packet_copy` to a packet that has just been initialized. -/
def packetCopy (src : HeapPacket) : MemProc HeapPacket := do
  let dst ← copyBuffer src .payload (src.copiedFields packetInit)
  let dst ← copyBuffer src .headers dst
  copyBuffer src .rawPacket dst

/-- One buffer in `packet_free`. -/
def freeBuffer (b : Buffer) (hp : HeapPacket) : MemProc HeapPacket := do
  if hp.ptr b ≠ 0 then
    let _ ← Proc.ask (MemCall.free (hp.ptr b))
    pure { hp with ptr := update hp.ptr b 0 }
  else pure hp

/-- `packet_free`. -/
def packetFree (hp : HeapPacket) : MemProc HeapPacket := do
  let hp ← freeBuffer .payload hp
  let hp ← freeBuffer .headers hp
  let _ ← freeBuffer .rawPacket hp
  pure packetInit

end OnHeap

/-- Captured bytes that contain their IP and transport headers, or that the parser rejects.  The parser does not check
that the headers end inside the bytes, so this is an assumption on what is captured. -/
structure Captured where
  bytes : List UInt8
  short : bytes.length < sizeMod
  fits : PassesSizeChecks bytes → HeadersFit bytes

inductive PacketOp where
  | init (i : Nat)
  | parse (i : Nat) (data : Captured)
  | copy (i j : Nat)
  | free (i : Nat)

/-- One operation on the packets. -/
def packetOp (packets : Nat → HeapPacket) : PacketOp → MemProc (Nat → HeapPacket)
  | .init i => pure (update packets i OnHeap.packetInit)
  | .parse i data => do
    let r ← OnHeap.packetParse data.bytes (packets i)
    pure (update packets i r.2)
  | .copy i j => do
    -- the source is read after the target has been initialized
    let dst ← OnHeap.packetCopy (update packets j OnHeap.packetInit i)
    pure (update packets j dst)
  | .free i => do
    let hp ← OnHeap.packetFree (packets i)
    pure (update packets i hp)

/-- The parser initializes the packet. -/
def Initializes (data : List UInt8) : Prop := iphdrSize ≤ data.length ∧ (ipVersion data = 4 ∨ ipVersion data = 6)

instance (data : List UInt8) : Decidable (Initializes data) := inferInstanceAs (Decidable (_ ∧ _))

/-- The initializations of a packet that holds a buffer. -/
def overwrites (packets : Nat → HeapPacket) : PacketOp → Nat
  | .init i => if (packets i).Holds then 1 else 0
  | .parse i data => if Initializes data.bytes ∧ (packets i).Holds then 1 else 0
  | .copy _ j => if (packets j).Holds then 1 else 0
  | .free _ => 0

/-- A sequence of them: the packets, and the number of the initializations of a packet that holds a buffer. -/
def packetSession (packets : Nat → HeapPacket) : List PacketOp → MemProc ((Nat → HeapPacket) × Nat)
  | [] => pure (packets, 0)
  | op :: ops => do
    let packets' ← packetOp packets op
    let r ← packetSession packets' ops
    pure (r.1, overwrites packets op + r.2)

/-! ### Ownership -/

/-- The packets own their buffers, each of the size that its length says. -/
def Owned (packets : Nat → HeapPacket) (n : Nat) (h : Blocks) : Prop :=
  Owns (fun q : Nat × Buffer => (packets q.1).ptr q.2) (fun q => (packets q.1).len q.2) n h

variable {packets : Nat → HeapPacket} {n m k p : Nat} {h h' : Blocks} {i j : Nat} {hp hp' : HeapPacket} {b : Buffer}
  {c : List UInt8}

private theorem ptr_update (q : Nat × Buffer) :
    (update packets i hp q.1).ptr q.2 = if q.1 = i then hp.ptr q.2 else (packets q.1).ptr q.2 := by
  by_cases hq : q.1 = i
  · rw [if_pos hq, hq, update_self]
  · rw [if_neg hq, update_of_ne hq]

private theorem len_update (q : Nat × Buffer) :
    (update packets i hp q.1).len q.2 = if q.1 = i then hp.len q.2 else (packets q.1).len q.2 := by
  by_cases hq : q.1 = i
  · rw [if_pos hq, hq, update_self]
  · rw [if_neg hq, update_of_ne hq]

private theorem ptr_update_buffer (hptr : hp'.ptr = update hp.ptr b p) (q : Nat × Buffer) :
    (update packets i hp' q.1).ptr q.2 =
      update (fun q : Nat × Buffer => (update packets i hp q.1).ptr q.2) (i, b) p q := by
  rw [ptr_update, hptr]
  by_cases hq : q = (i, b)
  · rw [hq, update_self, if_pos rfl, update_self]
  · rw [update_of_ne hq, ptr_update]
    by_cases hi : q.1 = i
    · rw [if_pos hi, if_pos hi, update_of_ne fun hb' => hq (Prod.ext hi hb')]
    · rw [if_neg hi, if_neg hi]

/-- A packet with a pointer that was null and is now what `malloc` has given. -/
theorem Owned.malloc (ho : Owned (update packets i hp) n h) (hb : hp.ptr b = 0) (hnew : NewBlock h k c p h')
    (hc : c.length = k) (hptr : hp'.ptr = update hp.ptr b p) (hlen : p ≠ 0 → hp'.len b = k)
    (hlen' : ∀ b', b' ≠ b → hp'.len b' = hp.len b') : Owned (update packets i hp') n h' := by
  have hptr' (q : Nat × Buffer) : (update packets i hp' q.1).ptr q.2 = _ := ptr_update_buffer hptr q
  have hlen_other (q : Nat × Buffer) (hq : q ≠ (i, b)) :
      (update packets i hp' q.1).len q.2 = (update packets i hp q.1).len q.2 := by
    rw [len_update, len_update]
    by_cases hi : q.1 = i
    · rw [if_pos hi, if_pos hi, hlen' q.2 fun hb' => hq (Prod.ext hi hb')]
    · rw [if_neg hi, if_neg hi]
  have hzero : (fun q : Nat × Buffer => (update packets i hp q.1).ptr q.2) (i, b) = 0 := by
    change (update packets i hp i).ptr b = 0
    rw [update_self, hb]
  rcases hnew with ⟨rfl, rfl⟩ | ⟨hp0, hfresh, -, rfl⟩
  · -- no block: the pointer stays null
    refine ho.congr (fun q => ?_) (fun q hq => hlen_other q ?_) id
    · rw [hptr' q]
      by_cases hq : q = (i, b)
      · rw [hq, update_self]
        exact hzero.symm
      · rw [update_of_ne hq]
    · rintro rfl
      exact hq hzero
  · refine (Owns.alloc ho (i, b) (fun h0 => ⟨h0, hzero⟩) hp0 hfresh ?_ hlen_other).congr hptr' (fun _ _ => rfl) id
    change c.length = (update packets i hp' i).len b
    rw [update_self, hlen hp0, hc]

/-- What a packet without pointers holds does not matter. -/
theorem Owned.fields (ho : Owned (update packets i hp) n h) (hptr : hp'.ptr = hp.ptr)
    (hlen : ∀ b, hp.ptr b ≠ 0 → hp'.len b = hp.len b) : Owned (update packets i hp') n h := by
  refine Owns.congr ho (fun q => ?_) (fun q hq => ?_) id
  · rw [ptr_update, ptr_update, hptr]
  · rw [ptr_update] at hq
    rw [len_update, len_update]
    by_cases hi : q.1 = i
    · rw [if_pos hi] at hq
      rw [if_pos hi, if_pos hi, hlen q.2 hq]
    · rw [if_neg hi, if_neg hi]

/-- Taking the packet out of the table and putting it back. -/
theorem Owned.self (ho : Owned packets n h) (i : Nat) : Owned (update packets i (packets i)) n h := by
  rw [update_eq_self]
  exact ho

/-- A packet that is initialized loses the buffers that it holds. -/
private theorem Owned.initialize (ho : Owned packets n h) (i : Nat) (hzero : hp.ptr = fun _ => 0)
    (hm : m = 0 → n = 0 ∧ ¬ (packets i).Holds) : Owned (update packets i hp) m h := by
  have hnull (b : Buffer) (hhold : ¬ (packets i).Holds) : (packets i).ptr b = 0 := by
    simp only [HeapPacket.Holds, not_or, not_not] at hhold
    cases b
    · exact hhold.1
    · exact hhold.2.1
    · exact hhold.2.2
  have hne {b b' : Buffer} (hbb : b ≠ b') : ((i, b) : Nat × Buffer) ≠ (i, b') := fun heq => hbb (Prod.mk.inj heq).2
  have h1 := Owns.forget ho (i, .payload) (m := m) fun h0 => ⟨(hm h0).1, hnull _ (hm h0).2⟩
  have h2 := h1.forget (i, .headers) (m := m) fun h0 =>
    ⟨h0, (update_of_ne (hne (by decide)) ..).trans (hnull _ (hm h0).2)⟩
  have h3 := h2.forget (i, .rawPacket) (m := m) fun h0 => ⟨h0, (update_of_ne (hne (by decide)) ..).trans
    ((update_of_ne (hne (by decide)) ..).trans (hnull _ (hm h0).2))⟩
  have hptr (q : Nat × Buffer) : (update packets i hp q.1).ptr q.2 =
      update (update (update (fun q : Nat × Buffer => (packets q.1).ptr q.2) (i, .payload) 0) (i, .headers) 0)
        (i, .rawPacket) 0 q := by
    obtain ⟨i', b⟩ := q
    rw [ptr_update]
    by_cases hi : i' = i
    · subst hi
      rw [if_pos rfl, hzero]
      cases b <;> simp [update]
    · rw [if_neg hi]
      simp [update, hi]
  refine h3.congr hptr (fun q hq => ?_) id
  rw [len_update, if_neg]
  rintro hi
  rw [← hptr q, ptr_update, if_pos hi, hzero] at hq
  exact hq rfl

/-! ### The functions -/

theorem freeBuffer_owned (ho : Owned (update packets i hp) n h) (b : Buffer) :
    Meets allocator (OnHeap.freeBuffer b hp) h fun hp' h' =>
      Owned (update packets i hp') n h' ∧ hp'.ptr = update hp.ptr b 0 := by
  have hself : (update packets i hp (i, b).1).ptr (i, b).2 = hp.ptr b := by
    change (update packets i hp i).ptr b = _
    rw [update_self]
  refine meets_ite.2 ⟨fun hb => ?_, fun hb => ⟨ho, ?_⟩⟩
  · have hne : (fun q : Nat × Buffer => (update packets i hp q.1).ptr q.2) (i, b) ≠ 0 := fun h0 =>
      hb (hself.symm.trans h0)
    have hmem := Owns.live_mem ho hne
    have hfree := Owns.free ho (i, b) hne
    rw [hself] at hmem hfree
    refine meets_ask_bind.2 ⟨hmem, fun _ _ => ⟨?_, rfl⟩⟩
    exact hfree.congr (ptr_update_buffer rfl) (fun q _ => by rw [len_update, len_update]) id
  · have h0 : hp.ptr b = 0 := not_not.1 hb
    rw [← h0, update_eq_self]

private theorem packetFree_owned (ho : Owned (update packets i hp) n h) :
    Meets allocator (OnHeap.packetFree hp) h fun hp' h' => Owned (update packets i hp') n h' := by
  refine meets_bind.2 ((freeBuffer_owned ho .payload).imp ?_)
  rintro hp₁ h₁ ⟨ho₁, hptr₁⟩
  refine meets_bind.2 ((freeBuffer_owned ho₁ .headers).imp ?_)
  rintro hp₂ h₂ ⟨ho₂, hptr₂⟩
  refine meets_bind.2 ((freeBuffer_owned ho₂ .rawPacket).imp ?_)
  rintro hp₃ h₃ ⟨ho₃, hptr₃⟩
  have hzero : hp₃.ptr = fun _ => 0 := by
    funext b
    rw [hptr₃, hptr₂, hptr₁]
    cases b <;> simp [update]
  refine ho₃.fields ?_ fun b hb => absurd (congrFun hzero b) hb
  rw [hzero]
  rfl

/-- The part of an operation that allocates one buffer. -/
structure Allocated (packets : Nat → HeapPacket) (i n : Nat) (h : Blocks) (b : Buffer) (hp hp' : HeapPacket)
    (h' : Blocks) : Prop where
  owned : Owned (update packets i hp') n h'
  keeps : h ⊆ h'
  others : ∀ b', b' ≠ b → hp'.ptr b' = hp.ptr b'

theorem Owned.allocated (ho : Owned (update packets i hp) n h) (hb : hp.ptr b = 0) (hnew : NewBlock h k c p h')
    (hc : c.length = k) (hptr : hp'.ptr = update hp.ptr b p) (hlen : p ≠ 0 → hp'.len b = k)
    (hlen' : ∀ b', b' ≠ b → hp'.len b' = hp.len b') : Allocated packets i n h b hp hp' h' where
  owned := ho.malloc hb hnew hc hptr hlen hlen'
  keeps := hnew.subset
  others _ hb' := by rw [hptr, update_of_ne hb']

private theorem copyPayload_allocated {data : List UInt8} {dataType emptyType : PacketType} {off : Nat}
    (ho : Owned (update packets i hp) n h) (hb : hp.ptr .payload = 0) (hin : off + k ≤ data.length) :
    Meets allocator (OnHeap.copyPayload data dataType emptyType off k hp) h
      (Allocated packets i n h .payload hp) := by
  have hlen : ((data.drop off).take k).length = k := by
    rw [List.length_take, List.length_drop]
    omega
  refine meets_ite.2 ⟨fun _ => meets_bind.2 ((meets_mallocCopy hlen).imp fun p h' hnew => ?_), fun _ => ?_⟩
  · refine ho.allocated hb hnew hlen rfl (fun hp0 => ?_) fun _ hb' => update_of_ne hb' ..
    rw [HeapPacket.setBuffer_len, if_neg hp0]
  · exact ⟨ho.fields rfl fun _ _ => rfl, List.Subset.refl h, fun _ _ => rfl⟩

private theorem storeRaw_allocated (data : List UInt8) (ho : Owned (update packets i hp) n h)
    (hb : hp.ptr .rawPacket = 0) :
    Meets allocator (OnHeap.storeRaw data hp) h (Allocated packets i n h .rawPacket hp) :=
  meets_bind.2 ((meets_mallocCopy rfl).imp fun _ _ hnew =>
    ho.allocated hb hnew rfl rfl (fun _ => HeapPacket.setBuffer_len ..) fun _ hb' => update_of_ne hb' ..)

private theorem storeHeaders_allocated {data : List UInt8} (ho : Owned (update packets i hp) n h)
    (hb : hp.ptr .headers = 0) (hfit : headersLen data ≤ data.length) :
    Meets allocator (OnHeap.storeHeaders data hp) h (Allocated packets i n h .headers hp) := by
  have hlen : (data.take (headersLen data)).length = headersLen data := by
    rw [List.length_take]
    omega
  exact meets_bind.2 ((meets_mallocCopy hlen).imp fun _ _ hnew =>
    ho.allocated hb hnew hlen rfl (fun _ => HeapPacket.setBuffer_len ..) fun _ hb' => update_of_ne hb' ..)

private theorem copyBuffer_allocated {src : HeapPacket} (b : Buffer) (ho : Owned (update packets i hp) n h)
    (hb : hp.ptr b = 0) (hsrc : src.ptr b ≠ 0 → ∃ c, (src.ptr b, c) ∈ h ∧ c.length = src.len b) :
    Meets allocator (OnHeap.copyBuffer src b hp) h (Allocated packets i n h b hp) := by
  refine meets_ite.2 ⟨fun hcond => ?_, fun _ => ⟨ho, List.Subset.refl h, fun _ _ => rfl⟩⟩
  obtain ⟨c, hmem, hlen⟩ := hsrc hcond.1
  refine meets_bind.2 ((meets_mallocDup hmem hlen).imp fun p h' hnew => ?_)
  refine ho.allocated hb hnew hlen rfl (fun hp0 => ?_) fun b' hb' => update_of_ne hb' ..
  rw [HeapPacket.setBuffer_len, if_neg hp0]

/-- The length of the payload of an IPv4 packet whose headers fit. -/
theorem payload_inside {data : List UInt8} (hlen : data.length < sizeMod) (hfit : headersLen data ≤ data.length) :
    headersLen data + wrapSub data.length (headersLen data) ≤ data.length := by
  rw [wrapSub_of_le hlen hfit]
  omega

private theorem parseTransport_allocated {data : List UInt8} (ho : Owned (update packets i hp) n h)
    (hb : hp.ptr .payload = 0) (hlen : data.length < sizeMod) (hfit : headersLen data ≤ data.length) :
    Meets allocator (OnHeap.parseTransport data hp) h (Allocated packets i n h .payload hp) := by
  have hports : Owned (update packets i { hp with fields := withPorts data hp.fields }) n h :=
    ho.fields rfl fun _ _ => rfl
  have hin := payload_inside hlen hfit
  have h120 := headersLen_le data
  refine meets_ite.2 ⟨fun htcp => ?_, fun htcp => meets_ite.2 ⟨fun hudp => ?_, fun _ => ?_⟩⟩
  · have hhl : headersLen data = ipIhl data * 4 + tcpDoff data * 4 := by rw [headersLen, transportLen, if_pos htcp]
    rw [hhl] at hin h120
    rw [wrapSub_wrapSub h120]
    exact (copyPayload_allocated hports hb hin).imp fun _ _ ha => ⟨ha.owned, ha.keeps, ha.others⟩
  · have hhl : headersLen data = ipIhl data * 4 + udphdrSize := by
      rw [headersLen, transportLen, if_neg htcp, if_pos hudp]
    rw [hhl] at hin h120
    rw [wrapSub_wrapSub h120]
    exact (copyPayload_allocated hports hb hin).imp fun _ _ ha => ⟨ha.owned, ha.keeps, ha.others⟩
  · exact ⟨ho, List.Subset.refl h, fun _ _ => rfl⟩

private theorem packetParse_owned (ho : Owned packets n h) (i : Nat) (data : Captured) :
    Meets allocator (OnHeap.packetParse data.bytes (packets i)) h fun r h' =>
      Owned (update packets i r.2) (n + overwrites packets (.parse i data)) h' := by
  have hkeep (hnot : ¬ Initializes data.bytes) :
      Owned (update packets i (packets i)) (n + overwrites packets (.parse i data)) h := by
    have h0 : overwrites packets (.parse i data) = 0 := if_neg fun hand => hnot hand.1
    rw [h0]
    exact ho.self i
  have hinit (hinit : Initializes data.bytes) (fields : Packet) :
      Owned (update packets i { OnHeap.packetInit with fields }) (n + overwrites packets (.parse i data)) h := by
    refine ho.initialize i rfl fun h0 => ⟨(Nat.add_eq_zero_iff.1 h0).1, fun hhold => ?_⟩
    have h1 : overwrites packets (.parse i data) = 1 := if_pos ⟨hinit, hhold⟩
    omega
  refine meets_ite.2 ⟨fun hshort => hkeep fun hini => absurd hini.1 (Nat.not_le.2 hshort), fun hshort => ?_⟩
  refine meets_ite.2 ⟨fun h4 => ?_, fun h4 => meets_ite.2 ⟨fun h6 => ?_, fun h6 => ?_⟩⟩
  · have hini := hinit ⟨Nat.not_lt.1 hshort, Or.inl h4⟩ (ipv4Base data.bytes)
    refine meets_ite.2 ⟨fun hs => absurd hs hshort, fun _ => meets_ite.2 ⟨fun hs => absurd h4 hs, fun _ => ?_⟩⟩
    refine meets_ite.2 ⟨fun _ => hini, fun htransport => ?_⟩
    have hfit := (data.fits ⟨Nat.not_lt.1 hshort, h4, htransport⟩).2.2
    refine meets_bind.2 ((parseTransport_allocated hini rfl data.short hfit).imp fun hp₁ h₁ ha₁ => ?_)
    have hraw : hp₁.ptr .rawPacket = 0 := ha₁.others _ (by decide)
    refine meets_bind.2 ((storeRaw_allocated data.bytes ha₁.owned hraw).imp fun hp₂ h₂ ha₂ => ?_)
    have hheaders : hp₂.ptr .headers = 0 := (ha₂.others _ (by decide)).trans (ha₁.others _ (by decide))
    exact meets_bind.2 ((storeHeaders_allocated ha₂.owned hheaders hfit).imp fun _ _ ha₃ => ha₃.owned)
  · have hini := hinit ⟨Nat.not_lt.1 hshort, Or.inr h6⟩ { packetInit with isIpv6 := true, type := .ipv6Tcp }
    exact meets_bind.2 ((storeRaw_allocated data.bytes hini rfl).imp fun _ _ ha => ha.owned)
  · exact hkeep fun hini => hini.2.elim h4 h6

private theorem packetCopy_owned {src : HeapPacket} (ho : Owned (update packets j OnHeap.packetInit) n h)
    (hsrc : ∀ b, src.ptr b ≠ 0 → ∃ c, (src.ptr b, c) ∈ h ∧ c.length = src.len b) :
    Meets allocator (OnHeap.packetCopy src) h fun dst h' => Owned (update packets j dst) n h' := by
  have hlive {h' : Blocks} (hsub : h ⊆ h') (b : Buffer) (hb : src.ptr b ≠ 0) :
      ∃ c, (src.ptr b, c) ∈ h' ∧ c.length = src.len b := by
    obtain ⟨c, hc, hlen⟩ := hsrc b hb
    exact ⟨c, hsub hc, hlen⟩
  have hfields : Owned (update packets j (src.copiedFields OnHeap.packetInit)) n h := ho.fields rfl fun _ _ => rfl
  refine meets_bind.2 ((copyBuffer_allocated .payload hfields rfl (hlive (List.Subset.refl h) _)).imp ?_)
  intro hp₁ h₁ ha₁
  have hheaders : hp₁.ptr .headers = 0 := ha₁.others _ (by decide)
  refine meets_bind.2 ((copyBuffer_allocated .headers ha₁.owned hheaders (hlive ha₁.keeps _)).imp ?_)
  intro hp₂ h₂ ha₂
  have hraw : hp₂.ptr .rawPacket = 0 := (ha₂.others _ (by decide)).trans (ha₁.others _ (by decide))
  exact (copyBuffer_allocated .rawPacket ha₂.owned hraw (hlive (List.Subset.trans ha₁.keeps ha₂.keeps) _)).imp
    fun _ _ ha₃ => ha₃.owned

theorem packetOp_owned (ho : Owned packets n h) (op : PacketOp) :
    Meets allocator (packetOp packets op) h fun packets' h' => Owned packets' (n + overwrites packets op) h' := by
  have hinit (i : Nat) (op : PacketOp) (hop : overwrites packets op = if (packets i).Holds then 1 else 0) :
      Owned (update packets i OnHeap.packetInit) (n + overwrites packets op) h := by
    refine ho.initialize i rfl fun h0 => ⟨(Nat.add_eq_zero_iff.1 h0).1, fun hhold => ?_⟩
    rw [hop, if_pos hhold] at h0
    exact Nat.succ_ne_zero n h0
  cases op with
  | init i => exact hinit i _ rfl
  | parse i data => exact meets_bind.2 ((packetParse_owned ho i data).imp fun _ _ hr => hr)
  | copy i j =>
    have hcopied := hinit j (.copy i j) rfl
    refine meets_bind.2 ((packetCopy_owned hcopied fun b hb => ?_).imp fun _ _ hr => ?_)
    · exact hcopied.live (i, b) hb
    · exact hr
  | free i => exact meets_bind.2 ((packetFree_owned (ho.self i)).imp fun _ _ hr => hr)

theorem packetSession_owned (ops : List PacketOp) (packets : Nat → HeapPacket) (n : Nat) (h : Blocks)
    (ho : Owned packets n h) :
    Meets allocator (packetSession packets ops) h fun r h' => Owned r.1 (n + r.2) h' := by
  induction ops generalizing packets n h with
  | nil => exact ho
  | cons op ops ih =>
    refine meets_bind.2 ((packetOp_owned ho op).imp fun packets' h' ho' => ?_)
    refine meets_bind.2 ((ih packets' _ h' ho').imp fun r h'' hr => ?_)
    change Owned r.1 (n + (overwrites packets op + r.2)) h''
    rw [← Nat.add_assoc]
    exact hr

/-- Packets in their first state hold nothing. -/
theorem owned_packetInit : Owned (fun _ => OnHeap.packetInit) 0 [] where
  nodup := List.nodup_nil
  nonzero _ hb := nomatch hb
  live _ hi := absurd rfl hi
  apart _ _ hi := absurd rfl hi
  all _ _ hb := nomatch hb

/-- Whatever is done to packets, the blocks that are read or freed are live, each pointer that is not null is to a block
of its own and of its length, and there are no other blocks if no packet that held a buffer was initialized. -/
theorem packet_buffers_owned (ops : List PacketOp) :
    Meets allocator (packetSession (fun _ => OnHeap.packetInit) ops) [] fun r h =>
      (∀ i b, (r.1 i).ptr b ≠ 0 → ∃ c, ((r.1 i).ptr b, c) ∈ h ∧ c.length = (r.1 i).len b) ∧
      (∀ i b i' b', (r.1 i).ptr b ≠ 0 → (r.1 i).ptr b = (r.1 i').ptr b' → i = i' ∧ b = b') ∧
      (r.2 = 0 → ∀ block ∈ h, ∃ i b, (r.1 i).ptr b = block.1) := by
  refine (packetSession_owned ops _ 0 [] owned_packetInit).imp fun r h ho => ⟨fun i b hb => ?_, ?_, fun h0 => ?_⟩
  · exact ho.live (i, b) hb
  · intro i b i' b' hb heq
    exact Prod.mk.inj (ho.apart (i, b) (i', b') hb heq)
  · intro block hblock
    obtain ⟨q, hq⟩ := ho.all (by rw [h0]) block hblock
    exact ⟨q.1, q.2, hq⟩

end GoodbyeDpi
