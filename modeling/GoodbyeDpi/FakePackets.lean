import GoodbyeDpi.PacketContents
import GoodbyeDpi.PacketProcessResult
import Mathlib.Data.Fintype.EquivFin

/-!
# Fake packets on the heap (`src/evasion/fake_packets.c`)

A fake packet is allocated, filled from the headers of the packet, sent and freed.  Whatever `malloc` answers, the heap
is in the end what it was before, and what is sent are the headers with the trailer behind them; it goes wrong only if
the headers of the packet could not be stored when it was parsed.
-/

namespace GoodbyeDpi

open CSem Traced Access Function

/-- The response that `create_fake_http_response` appends. -/
def fakeHttp : List UInt8 :=
  ascii "HTTP/1.1 200 OK\r\nContent-Type: text/html\r\nContent-Length: 0\r\nConnection: close\r\n\r\n"

/-- What a function that creates a fake packet gives: its result, and the two things it gives through pointers. -/
structure FakePacket where
  result : Int
  fakePacket : Nat
  fakePacketLen : Nat

namespace OnHeap

/-- `memcpy` of the headers to the start of `fakePacket`; nothing is read if there are none. -/
def copyHeaders (hp : HeapPacket) (fakePacket : Nat) : MemProc Unit := do
  if 0 < hp.len .headers then
    let bytes ← Proc.ask (MemCall.read (hp.ptr .headers) (hp.len .headers))
    Proc.ask (MemCall.write fakePacket 0 bytes)
  else pure ()

/-- `memcpy` of `trailer` behind the headers; a fake reset packet has none. -/
def copyTrailer (trailer : List UInt8) (hp : HeapPacket) (fakePacket : Nat) : MemProc Unit :=
  if 0 < trailer.length then Proc.ask (MemCall.write fakePacket (hp.len .headers) trailer) else pure ()

/-- A fake packet of the headers with `trailer` behind them. -/
def createFake (trailer : List UInt8) (hp : HeapPacket) : MemProc FakePacket := do
  let n := hp.len .headers + trailer.length
  let r ← Proc.ask (MemCall.malloc n)
  if r.1 = 0 then pure ⟨-1, 0, n⟩
  else
    let _ ← copyHeaders hp r.1
    let _ ← copyTrailer trailer hp r.1
    pure ⟨0, r.1, n⟩

/-- `create_fake_reset_packet`. -/
def createFakeResetPacket (hp : HeapPacket) : MemProc FakePacket := createFake [] hp

/-- `create_fake_http_response`. -/
def createFakeHttpResponse (hp : HeapPacket) : MemProc FakePacket := createFake fakeHttp hp

/-- `create_fake_dns_response`. -/
def createFakeDnsResponse (hp : HeapPacket) : MemProc FakePacket := createFake fakeDns hp

/-- The choice of the fake packet by the type of the original one. -/
def createFakeFor (cfg : Config) (hp : HeapPacket) : MemProc FakePacket :=
  if hp.fields.type = .ipv4Tcp ∨ hp.fields.type = .ipv6Tcp then
    if cfg.fakePacket then createFakeResetPacket hp else pure ⟨-1, 0, 0⟩
  else if hp.fields.type = .ipv4UdpData ∨ hp.fields.type = .ipv6UdpData then
    if hp.fields.srcPort = 53 ∨ hp.fields.dstPort = 53 then createFakeDnsResponse hp else pure ⟨-1, 0, 0⟩
  else pure ⟨-1, 0, 0⟩

/-- `send_raw_packet` on a block; `send` tells how it ends for the bytes that it gets. -/
def sendBlock (send : List UInt8 → Bool → Int) (fake : FakePacket) (isIpv6 : Bool) : MemProc Int := do
  let bytes ← Proc.ask (MemCall.read fake.fakePacket fake.fakePacketLen)
  pure (send bytes isIpv6)

/-- The fake packet is sent if one was created. -/
def sendFake (send : List UInt8 → Bool → Int) (fake : FakePacket) (isIpv6 : Bool) : MemProc Int :=
  if fake.result = 0 ∧ fake.fakePacket ≠ 0 ∧ 0 < fake.fakePacketLen then sendBlock send fake isIpv6
  else pure fake.result

/-- `free`, of a fake packet that there is. -/
def freeFake (fake : FakePacket) : MemProc Unit :=
  if fake.fakePacket ≠ 0 then Proc.ask (MemCall.free fake.fakePacket) else pure ()

/-- `evasion_inject_fake_packet`. -/
def evasionInjectFakePacket (cfg : Config) (send : List UInt8 → Bool → Int) (hp : HeapPacket) : MemProc Int := do
  let fake ← createFakeFor cfg hp
  let result ← sendFake send fake hp.fields.isIpv6
  let _ ← freeFake fake
  pure result

end OnHeap

/-- The headers of the packet are these bytes. -/
def HeadersAre (h : Blocks) (hp : HeapPacket) (c : List UInt8) : Prop :=
  c.length = hp.len .headers ∧ (0 < hp.len .headers → (hp.ptr .headers, c) ∈ h)

/-- What a function that creates a fake packet gives: none, or a new block with the headers `c` and the trailer. -/
def Created (h : Blocks) (hp : HeapPacket) (c t : List UInt8) (fake : FakePacket) (h' : Blocks) : Prop :=
  fake.result = -1 ∧ fake.fakePacket = 0 ∧ h' = h ∨
    fake.result = 0 ∧ fake.fakePacket ≠ 0 ∧ fake.fakePacket ∉ h.map Prod.fst ∧ HeadersAre h hp c ∧
      fake.fakePacketLen = (c ++ t).length ∧ (c ++ t).length < 2 ^ 63 ∧ h' = (fake.fakePacket, c ++ t) :: h

/-- The result of sending these bytes, which are not sent if there are none. -/
def sendResult (send : List UInt8 → Bool → Int) (bytes : List UInt8) (isIpv6 : Bool) : Int :=
  if bytes = [] then 0 else send bytes isIpv6

variable {h h' : Blocks} {hp : HeapPacket} {b c t bytes : List UInt8} {cfg : Config} {send : List UInt8 → Bool → Int}
  {a : Nat} {α : Type}

/-! ### Creating a fake packet -/

private theorem meets_copyHeaders (hc : HeadersAre h hp c) (ha : a ∉ h.map Prod.fst) (hb : c.length ≤ b.length) :
    Meets allocator (OnHeap.copyHeaders hp a) ((a, b) :: h) fun _ h' => h' = (a, overwrite b 0 c) :: h := by
  refine meets_ite.2 ⟨fun hpos => ?_, fun hpos => ?_⟩
  · have hmem : (hp.ptr .headers, c) ∈ (a, b) :: h := List.mem_cons_of_mem _ (hc.2 hpos)
    refine meets_ask_bind.2 ⟨⟨c, hmem, Nat.le_of_eq hc.1.symm⟩, fun bytes hbytes => ?_⟩
    obtain rfl : bytes = c := (hbytes c hmem).trans (List.take_of_length_le (Nat.le_of_eq hc.1))
    exact ⟨⟨b, List.mem_cons_self, by omega⟩, fun _ _ => next_write_new ha 0 bytes⟩
  · have hnil : c = [] := List.eq_nil_of_length_eq_zero (by have := hc.1; omega)
    have hsame : overwrite b 0 c = b := by rw [hnil]; rfl
    rw [hsame]
    exact meets_pure.2 rfl

private theorem meets_copyTrailer (hc : c.length = hp.len .headers) (ha : a ∉ h.map Prod.fst)
    (hb : b.length = c.length + t.length) :
    Meets allocator (OnHeap.copyTrailer t hp a) ((a, overwrite b 0 c) :: h) fun _ h' => h' = (a, c ++ t) :: h := by
  have hstart : overwrite b 0 c = c ++ b.drop c.length := by
    rw [overwrite, List.take_zero, List.nil_append, Nat.zero_add]
  have hrest : t.length = (b.drop c.length).length := by
    rw [List.length_drop]
    omega
  have hfilled : overwrite (c ++ b.drop c.length) c.length t = c ++ t := by
    have happend := overwrite_append c (b.drop c.length) 0 t
    rwa [Nat.add_zero, overwrite_all hrest] at happend
  rw [hstart]
  refine meets_ite.2 ⟨fun _ => ?_, fun hpos => ?_⟩
  · refine ⟨⟨_, List.mem_cons_self, ?_⟩, fun _ _ => ?_⟩
    · rw [List.length_append, ← hrest, hc]
    · rw [← hfilled, hc]
      exact next_write_new ha _ t
  · have hnil : t = [] := List.eq_nil_of_length_eq_zero (by omega)
    have hempty : b.drop c.length = [] := List.eq_nil_of_length_eq_zero (by rw [← hrest, hnil, List.length_nil])
    rw [hempty, hnil]
    exact meets_pure.2 rfl

private theorem meets_createFake (t : List UInt8) (hc : hp.len .headers + t.length < 2 ^ 63 → HeadersAre h hp c) :
    Meets allocator (OnHeap.createFake t hp) h (Created h hp c t) := by
  refine meets_ask_bind.2 ⟨trivial, fun r hr => meets_ite.2 ⟨fun h0 => ?_, fun h0 => ?_⟩⟩
  · exact Or.inl ⟨rfl, rfl, if_pos h0⟩
  · obtain ⟨hfresh, hlen, hsmall⟩ := hr h0
    have hc := hc hsmall
    have hn : hp.len .headers + t.length = (c ++ t).length := by rw [List.length_append, hc.1]
    have hnext : allocator.next h (.malloc (hp.len .headers + t.length)) r = r :: h := if_neg h0
    rw [hn, List.length_append] at hlen
    rw [hnext]
    refine meets_bind.2 ((meets_copyHeaders hc hfresh (b := r.2) (by omega)).imp ?_)
    rintro _ _ rfl
    refine meets_bind.2 ((meets_copyTrailer hc.1 hfresh hlen).imp ?_)
    rintro _ _ rfl
    exact Or.inr ⟨rfl, h0, hfresh, hc, hn, hn ▸ hsmall, rfl⟩

/-- The fake packet is freed: the heap is what it was before. -/
private theorem next_free_new (ha : a ∉ h.map Prod.fst) (b : List UInt8) :
    allocator.next ((a, b) :: h) (.free a) () = h := by
  have hkeep : ∀ c ∈ h, decide (c.1 ≠ a) = true := by
    intro c hc
    refine decide_eq_true fun heq => ha ?_
    rw [← heq]
    exact List.mem_map_of_mem hc
  change ((a, b) :: h).filter (·.1 ≠ a) = h
  rw [List.filter_cons_of_neg (by simp), List.filter_eq_self.2 hkeep]

private theorem meets_sendBlock (fake : FakePacket) {isIpv6 : Bool} (hlen : fake.fakePacketLen = bytes.length) :
    Meets allocator (OnHeap.sendBlock send fake isIpv6) ((fake.fakePacket, bytes) :: h) fun result h' =>
      result = send bytes isIpv6 ∧ h' = (fake.fakePacket, bytes) :: h := by
  refine meets_ask_bind.2 ⟨⟨bytes, List.mem_cons_self, Nat.le_of_eq hlen⟩, fun sent hsent => meets_pure.2 ⟨?_, rfl⟩⟩
  rw [hsent bytes List.mem_cons_self, List.take_of_length_le (Nat.le_of_eq hlen.symm)]

/-- The choice of the fake packet, as one expression. -/
private theorem createFakeFor_eq (cfg : Config) (hp : HeapPacket) :
    OnHeap.createFakeFor cfg hp =
      (fakeTrailer cfg hp.fields).elim (pure ⟨-1, 0, 0⟩) fun t => OnHeap.createFake t hp := by
  unfold OnHeap.createFakeFor fakeTrailer
  split_ifs <;> rfl

private theorem meets_freeFake (fake : FakePacket) (ha0 : fake.fakePacket ≠ 0) (ha : fake.fakePacket ∉ h.map Prod.fst) :
    Meets allocator (OnHeap.freeFake fake) ((fake.fakePacket, b) :: h) fun _ h' => h' = h :=
  meets_ite.2 ⟨fun _ => ⟨List.mem_map_of_mem List.mem_cons_self, fun _ _ => next_free_new ha b⟩,
    fun h0 => absurd ha0 h0⟩

private theorem meets_evasionInjectFakePacket
    (hc : ∀ t, fakeTrailer cfg hp.fields = some t → hp.len .headers + t.length < 2 ^ 63 → HeadersAre h hp c) :
    Meets allocator (OnHeap.evasionInjectFakePacket cfg send hp) h fun result h' => h' = h ∧
      (result = -1 ∨ HeadersAre h hp c ∧ ∃ t, fakeTrailer cfg hp.fields = some t ∧ (c ++ t).length < 2 ^ 63 ∧
        result = sendResult send (c ++ t) hp.fields.isIpv6) := by
  refine meets_bind.2 ?_
  rw [createFakeFor_eq]
  cases ht : fakeTrailer cfg hp.fields with
  | none => exact ⟨rfl, Or.inl rfl⟩
  | some t =>
    refine (meets_createFake t (hc t ht)).imp ?_
    rintro ⟨result, a, n⟩ h' (⟨rfl, rfl, rfl⟩ | ⟨rfl, ha0, ha, hheaders, hn, hsmall, rfl⟩)
    · exact ⟨rfl, Or.inl rfl⟩
    · have hfree {result : Int} (hsent : result = sendResult send (c ++ t) hp.fields.isIpv6) :
          Meets allocator (do
            let _ ← OnHeap.freeFake ⟨0, a, n⟩
            pure result) ((a, c ++ t) :: h) fun result h' => h' = h ∧ (result = -1 ∨ HeadersAre h hp c ∧
              ∃ t', some t = some t' ∧ (c ++ t').length < 2 ^ 63 ∧
                result = sendResult send (c ++ t') hp.fields.isIpv6) :=
        meets_bind.2 ((meets_freeFake ⟨0, a, n⟩ ha0 ha).imp fun _ _ hsame =>
          ⟨hsame, Or.inr ⟨hheaders, t, rfl, hsmall, hsent⟩⟩)
      refine meets_bind.2 (meets_ite.2 ⟨fun hpos => ?_, fun hempty => ?_⟩)
      · have hne : c ++ t ≠ [] := List.ne_nil_of_length_pos (hn ▸ hpos.2.2)
        refine (meets_sendBlock ⟨0, a, n⟩ hn).imp ?_
        rintro sent _ ⟨rfl, rfl⟩
        exact hfree (if_neg hne).symm
      · have hnil : c ++ t = [] := by
          by_contra hne
          exact hempty ⟨rfl, ha0, hn ▸ List.length_pos_of_ne_nil hne⟩
        exact hfree (if_pos hnil).symm

private theorem Shows.headersAre {p : Packet} (hs : Shows h hp p)
    (hstored : hp.len .headers = 0 ∨ hp.ptr .headers ≠ 0) :
    HeadersAre h hp (p.headers.getD []) := by
  have hbytes : ShowsBuffer h (hp.ptr .headers) (hp.len .headers) p.headers := hs.bytes .headers
  cases hheaders : p.headers with
  | none =>
    rw [hheaders] at hbytes
    have h0 : hp.len .headers = 0 := hstored.resolve_right fun hne => hne hbytes
    exact ⟨h0.symm, fun hpos => absurd h0 (Nat.ne_of_gt hpos)⟩
  | some c =>
    rw [hheaders] at hbytes
    exact ⟨hbytes.2.2, fun _ => hbytes.2.1⟩

/-- On bytes: the result of `evasion_inject_fake_packet` where the headers are stored. -/
private theorem evasionInjectFakePacket_val {env : Env} {p : Packet}
    (hlen : p.headersLen = 0 ∨ p.headersLen ≤ (p.headers.getD []).length) :
    (evasionInjectFakePacket cfg env p).val = some (if fakeSent cfg env p then 0 else -1) :=
  val_of_obeys_eq (P := InRange) (fun _ hr => hr)
    ((obeys_evasionInjectFakePacket (watches_inRange _)).2 ⟨fun _ _ _ => hlen, rfl⟩)

/-- With allocated buffers the function gives what it gives on bytes, for one answer of `malloc`. -/
theorem evasionInjectFakePacket_refines {p : Packet} (hs : Shows h hp p) (env : Env)
    (hstored : hp.len .headers = 0 ∨ hp.ptr .headers ≠ 0) :
    Meets allocator (OnHeap.evasionInjectFakePacket cfg (fun _ isIpv6 => sendRawPacket env isIpv6) hp) h
      fun result h' => h' = h ∧ ∃ mallocFake,
        (evasionInjectFakePacket cfg { env with mallocFake } p).val = some result := by
  have hheaders := hs.headersAre hstored
  have hplen : p.headersLen = (p.headers.getD []).length := (hs.len .headers).symm.trans hheaders.1.symm
  have htrailer : fakeTrailer cfg hp.fields = fakeTrailer cfg p := by rw [hs.fields]; rfl
  have hipv6 : hp.fields.isIpv6 = p.isIpv6 := by rw [hs.fields]; rfl
  refine (meets_evasionInjectFakePacket fun _ _ _ => hheaders).imp ?_
  rintro result _ ⟨rfl, rfl | ⟨-, t, ht, hsmall, rfl⟩⟩
  · refine ⟨rfl, false, ?_⟩
    rw [evasionInjectFakePacket_val (Or.inr (Nat.le_of_eq hplen))]
    have hnot : fakeSent cfg { env with mallocFake := false } p = false := by
      unfold fakeSent
      cases fakeTrailer cfg p <;> rfl
    rw [hnot]
    rfl
  · refine ⟨rfl, true, ?_⟩
    rw [evasionInjectFakePacket_val (Or.inr (Nat.le_of_eq hplen))]
    rw [htrailer] at ht
    rw [List.length_append, ← hplen] at hsmall
    have hsent : fakeSent cfg { env with mallocFake := true } p =
        (p.headersLen + t.length == 0 || sendRawPacket env p.isIpv6 == 0) := by
      unfold fakeSent
      rw [ht, Option.any_some, malloc, decide_eq_true hsmall]
      rfl
    rw [hsent, sendResult, hipv6]
    by_cases hnil : p.headers.getD [] ++ t = []
    · have h0 : p.headersLen + t.length = 0 := by rw [hplen, ← List.length_append, hnil, List.length_nil]
      rw [if_pos hnil, h0]
      rfl
    · have h0 : (p.headersLen + t.length == 0) = false := by
        rw [hplen, ← List.length_append]
        exact beq_false_of_ne fun hzero => hnil (List.eq_nil_of_length_eq_zero hzero)
      have hsend : sendRawPacket env p.isIpv6 = 0 ∨ sendRawPacket env p.isIpv6 = -1 := by
        unfold sendRawPacket
        split_ifs <;> simp
      rw [if_neg hnil, h0, Bool.false_or]
      rcases hsend with hsend | hsend <;> rw [hsend] <;> rfl

/-! ### Packets of a session -/

variable {packets : Nat → HeapPacket} {m : Nat}

/-- The bytes of the headers, where they can be copied. -/
private theorem Owned.headersAre (ho : Owned packets m h) (i : Nat) :
    ∃ c, ((packets i).len .headers = 0 ∨ (packets i).ptr .headers ≠ 0) → HeadersAre h (packets i) c := by
  by_cases h0 : (packets i).len .headers = 0
  · exact ⟨[], fun _ => ⟨h0.symm, fun hpos => absurd h0 (Nat.ne_of_gt hpos)⟩⟩
  by_cases hptr : (packets i).ptr .headers = 0
  · exact ⟨[], fun hor => absurd hor (not_or.2 ⟨h0, not_not.2 hptr⟩)⟩
  · obtain ⟨c, hc, hlen⟩ := ho.live (i, .headers) hptr
    exact ⟨c, fun _ => ⟨hlen, fun _ => hc⟩⟩

end GoodbyeDpi
