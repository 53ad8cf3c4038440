import GoodbyeDpi.PacketProcess
import GoodbyeDpi.PacketParseSafety
import GoodbyeDpi.Sni
import GoodbyeDpi.Checksum

/-!
# Changing the TTL (`packet_set_ttl`, `src/evasion/turkey_specific.c`)

The TTL of a packet is kept twice: in the packet structure and in the bytes of the raw packet.  `packet_set_ttl` writes
the field first and looks at the type of the packet afterwards; it does not touch the header checksum.  Its callers
are in `turkey_specific.c`, whose other techniques read the payload but change nothing.  The counter of the applied
techniques is only logged, and the log is left out.
-/

namespace GoodbyeDpi

open CSem Traced Access

/-! ### `packet_set_ttl` -/

/-- The offset of `ttl` in `struct iphdr`. -/
def iphdrTtl : Nat := 8

/-- The offset of `ip6_hlim` in `struct ip6_hdr`. -/
def ip6HlimOffset : Nat := 7

/-- `packet_set_ttl`. -/
def packetSetTtl (p : Packet) (ttl : UInt8) : CRun Buf (Int × Packet) :=
  match p.rawPacket with
  | none => pure (-1, p)
  | some raw =>
    -- the field is set before the type is looked at
    let p := { p with ttl := ttl }
    if p.type = .ipv4Tcp then do
      let raw ← store .rawPacket raw iphdrTtl [ttl]
      pure (0, { p with rawPacket := some raw })
    else if p.type = .ipv6Tcp then do
      let raw ← store .rawPacket raw ip6HlimOffset [ttl]
      pure (0, { p with rawPacket := some raw })
    else pure (-1, p)

/-- The new TTL for an old one. -/
def turkeyTtl (originalTtl : UInt8) : UInt8 := if originalTtl > 64 then 64 else if originalTtl > 32 then 32 else 1

/-- `turkey_ttl_manipulation`. -/
def turkeyTtlManipulation (p : Packet) : CRun Buf (Int × Packet) := packetSetTtl p (turkeyTtl p.ttl)

/-! ### The other techniques -/

/-- `MAX_HOSTNAME_LEN`. -/
def maxHostnameLen : Nat := 256

/-- What `rand` and the `malloc` of a host name answer during one call. -/
structure TurkeyEnv where
  rand : Nat
  mallocHostname : Bool
deriving DecidableEq, Repr

/-- The loop over the first bytes of the host name, `fuel` of them at most.  The byte is read before the bound is
tested. -/
def mixHostname (b : List UInt8) (hostname : Nat) : Nat → Nat → List UInt8 → CRun Buf (List UInt8)
  | 0, i, modifiedHost => do
    let _ ← load .payload b (hostname + i)
    pure modifiedHost
  | fuel + 1, i, modifiedHost => do
    let c ← load .payload b (hostname + i)
    if c = 0 then pure modifiedHost
    else
      let modifiedHost ← store .hostname modifiedHost (6 + i) [if i % 2 = 0 then toUpper c else toLower c]
      mixHostname b hostname fuel (i + 1) modifiedHost

/-- The copy of the Host header with a space in it.  The array is uninitialised in the source, and what is built in it
is thrown away. -/
def obfuscateHost (rand : Nat) (b : List UInt8) (hostHeader : Nat) : CRun Buf (List UInt8) := do
  let modifiedHost := List.replicate maxHostnameLen 0
  let start ← strncpyBytes .payload b 6 hostHeader
  let modifiedHost ← store .hostname modifiedHost 0 start
  let hostname := hostHeader + 6
  let spacePos := rand % 8 + 2
  let modifiedHost ← mixHostname b hostname spacePos 0 modifiedHost
  let modifiedHost ← store .hostname modifiedHost (6 + spacePos) [32]
  let c ← load .payload b (hostname + spacePos)
  let modifiedHost ← store .hostname modifiedHost (6 + spacePos + 1) [c]
  let rest ← strncpyBytes .payload b (maxHostnameLen - 6 - spacePos - 2) (hostname + spacePos + 1)
  store .hostname modifiedHost (6 + spacePos + 1) rest

/-- The branch of `turkey_header_obfuscation` for an HTTP packet. -/
def obfuscateHeader (cfg : Config) (rand : Nat) (b : List UInt8) : CRun Buf Int := do
  if cfg.hostMixedcase ∨ cfg.additionalSpace then pure (-1)
  else
    match ← strstr .payload b hostHeader 0 with
    | none => pure (-1)
    | some pos =>
      let hostLen ← strlen .payload b pos
      if 6 < hostLen ∧ hostLen < maxHostnameLen - 10 then
        let _ ← obfuscateHost rand b pos
        pure 0
      else pure (-1)

/-- `turkey_header_obfuscation`: the packet is not changed. -/
def turkeyHeaderObfuscation (cfg : Config) (rand : Nat) (p : Packet) : CRun Buf Int := do
  let http ← packetIsHttp p
  if http then obfuscateHeader cfg rand (p.payload.getD []) else pure (-1)

/-- `extract_sni_from_packet`: the buffer with the host name; `none` for NULL. -/
def extractSniFromPacket (env : TurkeyEnv) (p : Packet) : CRun Buf (Option (List UInt8)) :=
  match p.payload with
  | none => pure none
  | some b => do
    if p.payloadLen < 5 then pure none
    else if malloc env.mallocHostname maxHostnameLen then
      let r ← evasionExtractSni b (List.replicate maxHostnameLen 0)
      pure (if r.1 = 0 then some r.2 else none)
    else pure none

/-- `turkey_tls_obfuscation`: the packet is not changed. -/
def turkeyTlsObfuscation (env : TurkeyEnv) (p : Packet) : CRun Buf Int := do
  if packetIsHttps p then
    match ← extractSniFromPacket env p with
    | none => pure (-1)
    | some extracted =>
      let copied ← strncpyBytes .hostname extracted (maxHostnameLen - 1) 0
      pure (if copied.headD 0 = 0 then -1 else 0)
  else pure (-1)

/-- `turkey_apply_all_evasion`.  The fragmentation and the fake traffic have no effect. -/
def turkeyApplyAllEvasion (cfg : Config) (env : TurkeyEnv) (p : Packet) : CRun Buf (Int × Packet) := do
  let _ ← turkeyHeaderObfuscation cfg env.rand p
  let _ ← (if packetIsHttps p then turkeyTlsObfuscation env p else pure (-1) : CRun Buf Int)
  let r ← turkeyTtlManipulation p
  pure (0, r.2)

/-! ### What a call can do -/

/-- A byte is stored where there is room for it. -/
private theorem of_store_byte {raw raw' : List UInt8} {off : Nat} {c : UInt8}
    (h : (store Buf.rawPacket raw off [c]).val = some raw') : off < raw.length ∧ raw' = overwrite raw off [c] := by
  obtain ⟨hin, hval⟩ := Option.ite_none_right_eq_some.1 h
  have hlen : [c].length = 1 := rfl
  exact ⟨by omega, (Option.some.inj hval).symm⟩

/-- The outcomes of `packet_set_ttl`. -/
theorem packetSetTtl_cases {p : Packet} {ttl : UInt8} {out : Int × Packet} (h : (packetSetTtl p ttl).val = some out) :
    (p.rawPacket = none ∧ out = (-1, p)) ∨
      (∃ raw, p.rawPacket = some raw ∧ p.type = .ipv4Tcp ∧ iphdrTtl < raw.length ∧
        out = (0, { p with ttl := ttl, rawPacket := some (overwrite raw iphdrTtl [ttl]) })) ∨
      (∃ raw, p.rawPacket = some raw ∧ p.type = .ipv6Tcp ∧ ip6HlimOffset < raw.length ∧
        out = (0, { p with ttl := ttl, rawPacket := some (overwrite raw ip6HlimOffset [ttl]) })) ∨
      (p.rawPacket ≠ none ∧ p.type ≠ .ipv4Tcp ∧ p.type ≠ .ipv6Tcp ∧ out = (-1, { p with ttl := ttl })) := by
  unfold packetSetTtl at h
  split at h
  · rename_i hraw
    exact Or.inl ⟨hraw, (Option.some.inj h).symm⟩
  · rename_i raw hraw
    dsimp only at h
    split at h
    · rename_i h4
      obtain ⟨raw', hstore, hout⟩ := val_of_bind h
      obtain ⟨hlt, rfl⟩ := of_store_byte hstore
      exact Or.inr (Or.inl ⟨raw, hraw, h4, hlt, (Option.some.inj hout).symm⟩)
    · rename_i h4
      split at h
      · rename_i h6
        obtain ⟨raw', hstore, hout⟩ := val_of_bind h
        obtain ⟨hlt, rfl⟩ := of_store_byte hstore
        exact Or.inr (Or.inr (Or.inl ⟨raw, hraw, h6, hlt, (Option.some.inj hout).symm⟩))
      · rename_i h6
        exact Or.inr (Or.inr (Or.inr ⟨by simp [hraw], h4, h6, (Option.some.inj h).symm⟩))

/-- All that `turkey_apply_all_evasion` leaves behind is the new TTL. -/
theorem turkeyApplyAllEvasion_val {cfg : Config} {env : TurkeyEnv} {p : Packet} {out : Int × Packet}
    (h : (turkeyApplyAllEvasion cfg env p).val = some out) :
    out.1 = 0 ∧ ∃ r, (turkeyTtlManipulation p).val = some (r, out.2) := by
  obtain ⟨_, -, h1⟩ := val_of_bind h
  obtain ⟨_, -, h2⟩ := val_of_bind h1
  obtain ⟨s, hs, hout⟩ := val_of_bind h2
  have := Option.some.inj hout
  subst this
  exact ⟨rfl, s.1, hs⟩

/-! ### Failed changes -/

/-- Setting the TTL cannot fail after the field was changed. -/
def TtlChangeSafe (p : Packet) (ttl : UInt8) : Prop :=
  p.rawPacket = none ∨ p.type = .ipv4Tcp ∨ p.type = .ipv6Tcp ∨ p.ttl = ttl

instance (p : Packet) (ttl : UInt8) : Decidable (TtlChangeSafe p ttl) := inferInstanceAs (Decidable (_ ∨ _))

theorem packetSetTtl_unchanged_iff {p : Packet} {ttl : UInt8} {out : Int × Packet}
    (h : (packetSetTtl p ttl).val = some out) : (out.1 = -1 → out.2 = p) ↔ TtlChangeSafe p ttl := by
  rcases packetSetTtl_cases h with ⟨hraw, rfl⟩ | ⟨raw, hraw, h4, -, rfl⟩ | ⟨raw, hraw, h6, -, rfl⟩ | ⟨hraw, h4, h6, rfl⟩
  · simp [TtlChangeSafe, hraw]
  · simp [TtlChangeSafe, h4]
  · simp [TtlChangeSafe, h6]
  · have hfield : ({ p with ttl := ttl } : Packet) = p ↔ p.ttl = ttl := by
      constructor
      · intro he
        exact (congrArg Packet.ttl he).symm
      · rintro rfl
        rfl
    simp [TtlChangeSafe, hraw, h4, h6, hfield]

/-! ### Sequences of changes -/

/-- A call that changes the TTL. -/
inductive TtlCall where
  | packetSetTtl (ttl : UInt8)
  | turkeyApplyAllEvasion (cfg : Config) (env : TurkeyEnv)

def TtlCall.exec (p : Packet) : TtlCall → CRun Buf (Int × Packet)
  | .packetSetTtl ttl => GoodbyeDpi.packetSetTtl p ttl
  | .turkeyApplyAllEvasion cfg env => GoodbyeDpi.turkeyApplyAllEvasion cfg env p

/-- The TTL that a call sets on a packet with the TTL `ttl`. -/
def TtlCall.newTtl (ttl : UInt8) : TtlCall → UInt8
  | .packetSetTtl new => new
  | .turkeyApplyAllEvasion _ _ => turkeyTtl ttl

/-- The packet after some calls, whatever they return. -/
def runTtlCalls (p : Packet) : List TtlCall → CRun Buf Packet
  | [] => pure p
  | c :: cs => do
    let r ← c.exec p
    runTtlCalls r.2 cs

/-- The field and the byte of the raw packet are the same. -/
def TtlInSync (p : Packet) : Prop := ∀ raw, p.rawPacket = some raw → byteAt raw iphdrTtl = p.ttl.toNat

/-- Every call is `packet_set_ttl` with its new TTL. -/
theorem TtlCall.exec_val {c : TtlCall} {p : Packet} {out : Int × Packet} (h : (c.exec p).val = some out) :
    ∃ r, (GoodbyeDpi.packetSetTtl p (c.newTtl p.ttl)).val = some (r, out.2) := by
  cases c with
  | packetSetTtl ttl => exact ⟨out.1, h⟩
  | turkeyApplyAllEvasion cfg env => exact (turkeyApplyAllEvasion_val h).2

/-- The byte that was written. -/
private theorem byteAt_overwrite {raw : List UInt8} {off : Nat} {c : UInt8} (h : off < raw.length) :
    byteAt (overwrite raw off [c]) off = c.toNat := by
  have hlen : (raw.take off).length = off := List.length_take_of_le (by omega)
  have hbyte := byteAt_append_right (a := raw.take off) (b := [c] ++ raw.drop (off + [c].length)) 0
  rw [hlen, ← List.append_assoc] at hbyte
  exact hbyte

/-- The field and the byte stay the same where the type of the packet has the byte written, or nothing changes. -/
private theorem ttlInSync_packetSetTtl {p q : Packet} {ttl : UInt8} {r : Int}
    (h : (packetSetTtl p ttl).val = some (r, q)) (hsync : TtlInSync p) (h6 : p.type ≠ .ipv6Tcp)
    (hsafe : TtlChangeSafe p ttl) : TtlInSync q := by
  rcases packetSetTtl_cases h with ⟨-, ho⟩ | ⟨raw, -, -, hlt, ho⟩ | ⟨-, -, h6', -⟩ | ⟨hraw, h4, -, ho⟩
  · rw [show q = p from congrArg Prod.snd ho]
    exact hsync
  · cases ho
    intro raw' hraw'
    have := Option.some.inj hraw'
    subst this
    exact byteAt_overwrite hlt
  · exact absurd h6' h6
  · have httl : p.ttl = ttl := by
      rcases hsafe with h | h | h | h
      · exact absurd h hraw
      · exact absurd h h4
      · exact absurd h h6
      · exact h
    subst httl
    rw [show q = p from congrArg Prod.snd ho]
    exact hsync

/-- What a call leaves of a packet that is not an IPv6 one. -/
private theorem TtlCall.exec_frame {c : TtlCall} {p : Packet} {out : Int × Packet} (h : (c.exec p).val = some out)
    (h6 : p.type ≠ .ipv6Tcp) :
    out.2.type = p.type ∧ (p.rawPacket = none → out.2 = p) ∧
      (p.rawPacket ≠ none → p.type ≠ .ipv4Tcp → out.2 = { p with ttl := c.newTtl p.ttl }) := by
  obtain ⟨r, hset⟩ := TtlCall.exec_val h
  rcases packetSetTtl_cases hset with ⟨hraw, ho⟩ | ⟨raw, hraw, h4, -, ho⟩ | ⟨-, -, h6', -⟩ | ⟨hraw, h4, -, ho⟩
  · have hq : out.2 = p := congrArg Prod.snd ho
    rw [hq]
    exact ⟨rfl, fun _ => rfl, fun h _ => absurd hraw h⟩
  · have hq := congrArg Prod.snd ho
    exact ⟨by rw [hq], fun h => by simp [hraw] at h, fun _ h => absurd h4 h⟩
  · exact absurd h6' h6
  · have hq : out.2 = { p with ttl := c.newTtl p.ttl } := congrArg Prod.snd ho
    exact ⟨by rw [hq], fun h => absurd h hraw, fun _ _ => hq⟩

/-- The byte of the raw packet tells when a packet is in step after only its field was set. -/
private theorem ttlInSync_setField {p : Packet} {ttl : UInt8} (hraw : p.rawPacket ≠ none) (hsync : TtlInSync p)
    (hsync' : TtlInSync { p with ttl := ttl }) : ttl = p.ttl := by
  obtain ⟨raw, hraw⟩ := Option.ne_none_iff_exists'.1 hraw
  have h := hsync raw hraw
  have h' := hsync' raw hraw
  apply UInt8.toNat.inj
  rw [← h, ← h']

/-- The calls of a run keep the field and the byte the same. -/
def TtlCallsSafe (p : Packet) (calls : List TtlCall) : Prop :=
  p.rawPacket = none ∨ p.type = .ipv4Tcp ∨ ∀ c ∈ calls, c.newTtl p.ttl = p.ttl

/-- One call: the field and the byte are the same after it and the rest of the calls is safe, exactly when the calls
with it are safe. -/
private theorem ttlCallsSafe_cons_iff {c : TtlCall} {cs : List TtlCall} {p : Packet} {out : Int × Packet}
    (hexec : (c.exec p).val = some out) (hsync : TtlInSync p) (h6 : p.type ≠ .ipv6Tcp) :
    TtlInSync out.2 ∧ TtlCallsSafe out.2 cs ↔ TtlCallsSafe p (c :: cs) := by
  obtain ⟨htype, hnone, hfield⟩ := TtlCall.exec_frame hexec h6
  obtain ⟨r, hset⟩ := TtlCall.exec_val hexec
  have hkeep := ttlInSync_packetSetTtl hset hsync h6
  by_cases hraw : p.rawPacket = none
  · have hsame := hnone hraw
    exact iff_of_true ⟨hkeep (Or.inl hraw), Or.inl (by rw [hsame, hraw])⟩ (Or.inl hraw)
  by_cases h4 : p.type = .ipv4Tcp
  · exact iff_of_true ⟨hkeep (Or.inr (Or.inl h4)), Or.inr (Or.inl (by rw [htype, h4]))⟩ (Or.inr (Or.inl h4))
  -- the call changes the field only
  have hq := hfield hraw h4
  have hsafe : ∀ cs, TtlCallsSafe p cs ↔ ∀ c ∈ cs, c.newTtl p.ttl = p.ttl := by
    intro cs
    exact (or_iff_right hraw).trans (or_iff_right h4)
  rw [hsafe, List.forall_mem_cons]
  constructor
  · intro h
    obtain ⟨hsync', hrest⟩ := h
    have hnew : c.newTtl p.ttl = p.ttl := ttlInSync_setField hraw hsync (hq ▸ hsync')
    have hsame : out.2 = p := by rw [hq, hnew]
    rw [hsame, hsafe] at hrest
    exact ⟨hnew, hrest⟩
  · intro h
    obtain ⟨hnew, hrest⟩ := h
    have hsame : out.2 = p := by rw [hq, hnew]
    rw [hsame, hsafe]
    exact ⟨hsync, hrest⟩

/-- Whether the field and the byte are the same in every state of a run that comes to its end. -/
theorem ttlInSync_runTtlCalls_iff {calls : List TtlCall} {p : Packet} (hsync : TtlInSync p) (h6 : p.type ≠ .ipv6Tcp)
    (hret : (runTtlCalls p calls).val ≠ none) :
    (∀ pre, pre <+: calls → ∀ q, (runTtlCalls p pre).val = some q → TtlInSync q) ↔ TtlCallsSafe p calls := by
  induction calls generalizing p with
  | nil =>
    constructor
    · intro _
      exact Or.inr (Or.inr (by simp))
    · intro _ pre hpre q hq
      rw [List.prefix_nil.1 hpre] at hq
      cases hq
      exact hsync
  | cons c cs ih =>
    obtain ⟨out, hexec⟩ : ∃ out, (c.exec p).val = some out := by
      cases hv : (c.exec p).val with
      | some out => exact ⟨out, rfl⟩
      | none => exact absurd (by rw [runTtlCalls, bind_val, hv]; rfl) hret
    have hrun : ∀ cs, (runTtlCalls p (c :: cs)).val = (runTtlCalls out.2 cs).val := by
      intro cs
      rw [runTtlCalls, bind_val, hexec]
      rfl
    rw [hrun] at hret
    have h6' : out.2.type ≠ .ipv6Tcp := by rwa [(TtlCall.exec_frame hexec h6).1]
    rw [← ttlCallsSafe_cons_iff hexec hsync h6]
    constructor
    · intro hall
      have hrest : ∀ pre, pre <+: cs → ∀ q, (runTtlCalls out.2 pre).val = some q → TtlInSync q := by
        intro pre hpre q hq
        exact hall (c :: pre) (List.cons_prefix_cons.2 ⟨rfl, hpre⟩) q (by rwa [hrun])
      have hsync' := hrest [] List.nil_prefix out.2 rfl
      exact ⟨hsync', (ih hsync' h6' hret).1 hrest⟩
    · intro hsafe pre hpre q hq
      cases pre with
      | nil =>
        cases hq
        exact hsync
      | cons c' pre =>
        obtain ⟨rfl, hpre'⟩ := List.cons_prefix_cons.1 hpre
        rw [hrun] at hq
        exact (ih hsafe.1 h6' hret).2 hsafe.2 pre hpre' q hq

/-! ### Packets from the parser -/

private theorem withTransport_frame (env : Env) (data : List UInt8) (p : Packet) (h6 : p.type ≠ .ipv6Tcp) :
    (withTransport env data p).ttl = p.ttl ∧ (withTransport env data p).rawPacket = p.rawPacket ∧
      (withTransport env data p).type ≠ .ipv6Tcp := by
  unfold withTransport withPayload withPorts Packet.setPorts
  split_ifs <;> simp [h6]

private theorem parsedIpv4_frame (env : Env) (data : List UInt8) :
    (parsedIpv4 env data).ttl = UInt8.ofNat (byteAt data iphdrTtl) ∧
      (∀ raw, (parsedIpv4 env data).rawPacket = some raw → raw = data) ∧ (parsedIpv4 env data).type ≠ .ipv6Tcp := by
  have hbase : (ipv4Base data).type ≠ .ipv6Tcp := by simp [ipv4Base, packetInit]
  obtain ⟨httl, hraw, htype⟩ := withTransport_frame env data (ipv4Base data) hbase
  refine ⟨httl, ?_, htype⟩
  intro raw h
  change (if malloc env.mallocRaw data.length then some data else _) = some raw at h
  split at h
  · exact (Option.some.inj h).symm
  · rw [hraw] at h
    cases h

/-- The parser copies the byte into the field. -/
private theorem ttlInSync_parsedIpv4 (env : Env) (data : List UInt8) : TtlInSync (parsedIpv4 env data) := by
  obtain ⟨httl, hraw, -⟩ := parsedIpv4_frame env data
  intro raw h
  rw [hraw raw h, httl, UInt8.toNat_ofNat']
  exact (Nat.mod_eq_of_lt (byteAt_lt _ _)).symm

private theorem eq_parsedIpv4 {env : Env} {data : List UInt8} {packet p : Packet} (hlen : data.length < sizeMod)
    (h4 : ipVersion data = 4) (h : Obeys InRange (packetParse env data data.length packet) (· = (0, p))) :
    p = parsedIpv4 env data := by
  rw [obeys_packetParse (watches_inRange _) hlen, h4] at h
  split at h
  · cases h
  · by_cases hshort : TransportTooShort data
    · cases h.1 hshort
    · exact (congrArg Prod.snd (h.2 hshort).2.2.2).symm

/-- When a TTL change that fails leaves the packet as it was, and when the field and the byte in the raw packet are
the same in every state of a run of calls on a parsed packet. -/
theorem failedTtlChange_iff (p : Packet) (ttl : UInt8) (calls : List TtlCall) :
    (∀ out, (packetSetTtl p ttl).val = some out → ((out.1 = -1 → out.2 = p) ↔ TtlChangeSafe p ttl)) ∧
      (∀ out, (turkeyTtlManipulation p).val = some out →
        ((out.1 = -1 → out.2 = p) ↔ TtlChangeSafe p (turkeyTtl p.ttl))) ∧
      (∀ env data packet, data.length < sizeMod → ipVersion data = 4 →
        Obeys InRange (packetParse env data data.length packet) (· = (0, p)) → (runTtlCalls p calls).val ≠ none →
        ((∀ pre, pre <+: calls → ∀ q, (runTtlCalls p pre).val = some q → TtlInSync q) ↔ TtlCallsSafe p calls)) := by
  refine ⟨?_, ?_, ?_⟩
  · intro out h
    exact packetSetTtl_unchanged_iff h
  · intro out h
    exact packetSetTtl_unchanged_iff h
  · intro env data packet hlen h4 hparse hret
    have hp := eq_parsedIpv4 hlen h4 hparse
    have hsync : TtlInSync p := hp ▸ ttlInSync_parsedIpv4 env data
    have h6 : p.type ≠ .ipv6Tcp := hp ▸ (parsedIpv4_frame env data).2.2
    exact ttlInSync_runTtlCalls_iff hsync h6 hret

/-- A TCP segment with the header of `headerTtl64Sum` and no payload. -/
def segmentTtl64 : List UInt8 := headerTtl64Sum ++ [0, 80, 0, 80, 0, 0, 0, 0, 0, 0, 0, 0, 0x50, 0x10, 0, 0, 0, 0, 0, 0]

/-- A TCP segment with TTL 64 and a payload of one byte. -/
def dataSegmentTtl64 : List UInt8 :=
  [0x45, 0, 0, 41, 0x12, 0x34, 0x40, 0, 64, 6, 20, 153, 10, 0, 0, 1, 10, 0, 0, 2,
    0, 80, 0, 80, 0, 0, 0, 0, 0, 0, 0, 0, 0x50, 0x10, 0, 0, 0, 0, 0, 0, 71]

private theorem parses_segmentTtl64 :
    Obeys InRange (packetParse plainEnv segmentTtl64 segmentTtl64.length packetInit)
      (· = (0, parsedIpv4 plainEnv segmentTtl64)) := by
  rw [obeys_packetParse_inRange (by decide)]
  exact ⟨fun _ _ _ => ⟨by decide, fun _ => Or.inr (by decide)⟩, by decide⟩

private theorem parses_dataSegmentTtl64 :
    Obeys InRange (packetParse plainEnv dataSegmentTtl64 dataSegmentTtl64.length packetInit)
      (· = (0, parsedIpv4 plainEnv dataSegmentTtl64)) := by
  rw [obeys_packetParse_inRange (by decide)]
  exact ⟨fun _ _ _ => ⟨by decide, fun _ => Or.inr (by decide)⟩, by decide⟩

theorem failedTtlChange_iff_segmentTtl64 :
    ∀ pre, pre <+: [TtlCall.packetSetTtl 7] → ∀ q,
      (runTtlCalls (parsedIpv4 plainEnv segmentTtl64) pre).val = some q → TtlInSync q :=
  ((failedTtlChange_iff _ 7 [.packetSetTtl 7]).2.2 plainEnv segmentTtl64 packetInit (by decide) (by decide)
    parses_segmentTtl64 (by decide +kernel)).2 (Or.inr (Or.inl (by decide)))

/-- On a segment with a payload the change fails after the field was set, and the byte is left behind. -/
theorem failedTtlChange_dataSegmentTtl64 :
    ¬ (∀ p ttl out, (packetSetTtl p ttl).val = some out → out.1 = -1 → out.2 = p) ∧
      ¬ (∀ env data packet p calls, data.length < sizeMod → ipVersion data = 4 →
        Obeys InRange (packetParse env data data.length packet) (· = (0, p)) →
        ∀ q, (runTtlCalls p calls).val = some q → TtlInSync q) := by
  constructor
  · intro h
    have := h (parsedIpv4 plainEnv dataSegmentTtl64) 1 _ rfl rfl
    exact absurd (congrArg Packet.ttl this) (by decide)
  · intro h
    have := h plainEnv dataSegmentTtl64 packetInit _ [.packetSetTtl 1] (by decide) (by decide) parses_dataSegmentTtl64
      { parsedIpv4 plainEnv dataSegmentTtl64 with ttl := 1 } rfl
    exact absurd (this dataSegmentTtl64 rfl) (by decide)

/-! ### The header checksum -/

/-- The bytes that the header length of an IPv4 packet covers. -/
def ipv4Header (raw : List UInt8) : List UInt8 := raw.take (ipIhl raw * 4)

/-- An IPv4 packet whose header checksum verifies. -/
structure VerifiedIpv4 (p : Packet) (raw : List UInt8) : Prop where
  rawPacket_eq : p.rawPacket = some raw
  type_ne : p.type ≠ .ipv6Tcp
  size : iphdrSize ≤ raw.length
  version : ipVersion raw = 4
  fits : ipIhl raw * 4 ≤ raw.length
  verifies : calculateIpChecksum (ipv4Header raw) = 0

/-- The header of the raw packet carries the TTL, and its checksum verifies. -/
def CarriesTtl (ttl : UInt8) (p : Packet) : Prop :=
  ∃ raw, p.rawPacket = some raw ∧ byteAt raw iphdrTtl = ttl.toNat ∧ calculateIpChecksum (ipv4Header raw) = 0

/-- The TTL is not written, or it is the old one, or the checksum does not cover it. -/
def TtlKeepsChecksum (p : Packet) (raw : List UInt8) (ttl : UInt8) : Prop :=
  p.type = .ipv4Tcp → byteAt raw iphdrTtl = ttl.toNat ∨ ipIhl raw ≤ 2

private theorem take_overwrite_of_le {raw : List UInt8} {off n : Nat} (c : UInt8) (h : n ≤ off)
    (hoff : off < raw.length) : (overwrite raw off [c]).take n = raw.take n := by
  rw [overwrite, List.append_assoc, List.take_append_of_le_length (by simp; omega), List.take_take, Nat.min_eq_left h]

private theorem take_overwrite_of_lt {raw : List UInt8} {off n : Nat} (c : UInt8) (h : off < n)
    (hn : n ≤ raw.length) : (overwrite raw off [c]).take n = overwrite (raw.take n) off [c] := by
  obtain ⟨k, rfl⟩ := Nat.exists_eq_add_of_lt h
  have hlen : (raw.take off ++ [c]).length = off + 1 := by simp; omega
  rw [overwrite, overwrite, List.take_append, hlen, List.take_of_length_le (by omega), List.take_take,
    Nat.min_eq_left (by omega), List.drop_take, List.length_singleton]

/-- The header with its TTL overwritten. -/
private theorem verifies_overwrite_iff {raw : List UInt8} {ttl : UInt8} (hsize : iphdrSize ≤ raw.length)
    (hfits : ipIhl raw * 4 ≤ raw.length) (hold : calculateIpChecksum (ipv4Header raw) = 0) :
    calculateIpChecksum (ipv4Header (overwrite raw iphdrTtl [ttl])) = 0 ↔
      byteAt raw iphdrTtl = ttl.toNat ∨ ipIhl raw ≤ 2 := by
  have hroom : iphdrTtl < raw.length := by
    unfold iphdrTtl
    unfold iphdrSize at hsize
    omega
  have hihl : ipIhl (overwrite raw iphdrTtl [ttl]) = ipIhl raw := by
    have hfirst : byteAt (overwrite raw iphdrTtl [ttl]) 0 = byteAt raw 0 := by
      rw [overwrite, List.append_assoc, byteAt_append_left (by simp [iphdrTtl]; omega)]
      simp [byteAt, iphdrTtl]
    rw [ipIhl, hfirst, ipIhl]
  have hmax : ipIhl raw ≤ 15 := by
    unfold ipIhl
    omega
  rcases Nat.lt_or_ge 2 (ipIhl raw) with h | h
  · have hheader : (raw.take (ipIhl raw * 4)).length = ipIhl raw * 4 := List.length_take_of_le hfits
    have hbyte : byteAt (ipv4Header raw) iphdrTtl = byteAt raw iphdrTtl := by
      conv => rhs; rw [← List.take_append_drop (ipIhl raw * 4) raw]
      rw [byteAt_append_left (by unfold iphdrTtl; omega)]
      rfl
    rw [ipv4Header, hihl, take_overwrite_of_lt ttl (by unfold iphdrTtl; omega) hfits, ← hbyte,
      or_iff_left (by omega)]
    exact calculateIpChecksum_overwrite_byte_iff (i := 4) (by rw [hheader]; omega) (by rw [hheader]; omega) hold
  · rw [ipv4Header, hihl, take_overwrite_of_le ttl (by unfold iphdrTtl; omega) hroom]
    exact ⟨fun _ => Or.inr h, fun _ => hold⟩

/-- When `packet_set_ttl` that succeeds leaves a header with the new TTL that verifies. -/
private theorem packetSetTtl_carriesTtl_iff {p : Packet} {raw : List UInt8} {ttl : UInt8} {out : Int × Packet}
    (hp : VerifiedIpv4 p raw) (h : (packetSetTtl p ttl).val = some out) :
    (out.1 = 0 → CarriesTtl ttl out.2) ↔ TtlKeepsChecksum p raw ttl := by
  rcases packetSetTtl_cases h with ⟨hraw, -⟩ | ⟨raw', hraw, h4, hlt, rfl⟩ | ⟨-, -, h6, -⟩ | ⟨-, h4, -, rfl⟩
  · rw [hp.rawPacket_eq] at hraw
    cases hraw
  · rw [hp.rawPacket_eq] at hraw
    have := Option.some.inj hraw
    subst this
    have hcarries : CarriesTtl ttl { p with ttl := ttl, rawPacket := some (overwrite raw iphdrTtl [ttl]) } ↔
        calculateIpChecksum (ipv4Header (overwrite raw iphdrTtl [ttl])) = 0 := by
      simp [CarriesTtl, byteAt_overwrite hlt]
    have hkeeps : TtlKeepsChecksum p raw ttl ↔ byteAt raw iphdrTtl = ttl.toNat ∨ ipIhl raw ≤ 2 := by
      simp [TtlKeepsChecksum, h4]
    rw [hkeeps, ← verifies_overwrite_iff hp.size hp.fits hp.verifies, ← hcarries]
    exact ⟨fun hval => hval rfl, fun hval _ => hval⟩
  · exact absurd h6 hp.type_ne
  · simp [TtlKeepsChecksum, h4]

private theorem packetSetTtl_inRange {p : Packet} {raw : List UInt8} (hp : VerifiedIpv4 p raw) (ttl : UInt8) :
    (packetSetTtl p ttl).All InRange := by
  have hroom : iphdrTtl + 1 ≤ raw.length := hp.size.trans' (by decide)
  rw [all_iff_obeys, packetSetTtl, hp.rawPacket_eq]
  simp [hp.type_ne, obeys_store (watches_inRange _), hroom]

/-- When a change of the TTL that succeeds keeps the header of an IPv4 packet valid. -/
theorem ttlChange_keepsChecksum_iff (cfg : Config) (env : TurkeyEnv) (p : Packet) (raw : List UInt8) (ttl : UInt8)
    (hp : VerifiedIpv4 p raw) :
    Obeys InRange (packetSetTtl p ttl) (fun out => (out.1 = 0 → CarriesTtl ttl out.2) ↔ TtlKeepsChecksum p raw ttl) ∧
      Obeys InRange (turkeyTtlManipulation p) (fun out =>
        (out.1 = 0 → CarriesTtl (turkeyTtl p.ttl) out.2) ↔ TtlKeepsChecksum p raw (turkeyTtl p.ttl)) ∧
      ∀ out, (turkeyApplyAllEvasion cfg env p).val = some out →
        (((turkeyTtlManipulation p).val = some (0, out.2) → CarriesTtl (turkeyTtl p.ttl) out.2) ↔
          TtlKeepsChecksum p raw (turkeyTtl p.ttl)) := by
  refine ⟨⟨packetSetTtl_inRange hp ttl, fun out h => packetSetTtl_carriesTtl_iff hp h⟩,
    ⟨packetSetTtl_inRange hp _, fun out h => packetSetTtl_carriesTtl_iff hp h⟩, ?_⟩
  intro out h
  obtain ⟨-, r, hr⟩ := turkeyApplyAllEvasion_val h
  have hiff : (r = 0 → CarriesTtl (turkeyTtl p.ttl) out.2) ↔ TtlKeepsChecksum p raw (turkeyTtl p.ttl) :=
    packetSetTtl_carriesTtl_iff hp hr
  have hcode : (turkeyTtlManipulation p).val = some (0, out.2) ↔ r = 0 := by
    rw [hr]
    simp
  rw [hcode, hiff]

private theorem verifiedIpv4_segmentTtl64 : VerifiedIpv4 (parsedIpv4 plainEnv segmentTtl64) segmentTtl64 where
  rawPacket_eq := rfl
  type_ne := by decide
  size := by decide
  version := by decide
  fits := by decide
  verifies := by decide +kernel

theorem ttlChange_keepsChecksum_segmentTtl64 :
    Obeys InRange (packetSetTtl (parsedIpv4 plainEnv segmentTtl64) 64) (fun out =>
      (out.1 = 0 → CarriesTtl 64 out.2) ↔ TtlKeepsChecksum (parsedIpv4 plainEnv segmentTtl64) segmentTtl64 64) :=
  (ttlChange_keepsChecksum_iff configInit ⟨0, true⟩ _ segmentTtl64 64 verifiedIpv4_segmentTtl64).1

/-- TTL 64 changed to 63: the call succeeds, and the checksum is wrong. -/
theorem ttlChange_breaksChecksum :
    VerifiedIpv4 (parsedIpv4 plainEnv segmentTtl64) segmentTtl64 ∧
      ¬ Obeys InRange (packetSetTtl (parsedIpv4 plainEnv segmentTtl64) 63)
        (fun out => out.1 = 0 → CarriesTtl 63 out.2) := by
  refine ⟨verifiedIpv4_segmentTtl64, fun h => ?_⟩
  obtain ⟨raw, hraw, -, hsum⟩ := h.2 _ rfl rfl
  have := Option.some.inj hraw
  subst this
  exact absurd hsum (by decide +kernel)

end GoodbyeDpi
