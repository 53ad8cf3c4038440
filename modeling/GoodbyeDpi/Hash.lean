import GoodbyeDpi.CSem.Horner
import GoodbyeDpi.CSem.CString
import GoodbyeDpi.Checksum
import GoodbyeDpi.Packet

/-!
# Hashes (`src/utils/hash.c`)

The hashes fold bytes into 64 bits by `hash * 33 + c` and keep the lower 32 bits.  Modulo 2^32 this is Horner's rule
with the unit 33, so equal beginnings and endings of byte arrays cancel, and a hash tells whether one byte has changed.
The sum of `hash_checksum` is the sum of the bytes in ones' complement.
-/

namespace GoodbyeDpi

open CSem OnesComplement

/-- `hash = ((hash << 5) + hash) + c`. -/
def djb2Step (hash c : UInt64) : UInt64 := ((hash <<< 5) + hash) + c

def djb2 (hash : UInt64) (cs : List UInt64) : UInt64 := cs.foldl djb2Step hash

/-- A `char` that is added to an `unsigned long`: the sign is extended. -/
def charDigit (c : UInt8) : UInt64 := if c < 128 then c.toUInt64 else c.toUInt64 + 0xFFFFFFFFFFFFFF00

/-- `hash_string`; `none` is a null pointer. -/
def hashString : Option (List UInt8) → UInt32
  | none => 0
  | some str => (djb2 5381 ((cstr str).map charDigit)).toUInt32

/-- `hash_bytes`; a null pointer counts as no bytes. -/
def hashBytes (data : List UInt8) : UInt32 :=
  if data = [] then 0 else (djb2 5381 (data.map UInt8.toUInt64)).toUInt32

/-- The four bytes of a word, the lowest first. -/
def wordDigits (w : UInt32) : List UInt64 :=
  [w &&& 0xFF, (w >>> 8) &&& 0xFF, (w >>> 16) &&& 0xFF, (w >>> 24) &&& 0xFF].map UInt32.toUInt64

def portDigits (w : UInt16) : List UInt64 := [w &&& 0xFF, (w >>> 8) &&& 0xFF].map UInt16.toUInt64

/-- What `hash_connection` adds. -/
def connectionDigits (srcIp dstIp : UInt32) (srcPort dstPort : UInt16) (protocol : UInt8) : List UInt64 :=
  wordDigits srcIp ++ wordDigits dstIp ++ portDigits srcPort ++ portDigits dstPort ++ [protocol.toUInt64]

/-- What `hash_connection_ipv6` adds. -/
def connectionIpv6Digits (srcIp dstIp : Addr) (srcPort dstPort : UInt16) (protocol : UInt8) : List UInt64 :=
  wordDigits srcIp.w0 ++ wordDigits dstIp.w0 ++ wordDigits srcIp.w1 ++ wordDigits dstIp.w1 ++
    wordDigits srcIp.w2 ++ wordDigits dstIp.w2 ++ wordDigits srcIp.w3 ++ wordDigits dstIp.w3 ++
    portDigits srcPort ++ portDigits dstPort ++ [protocol.toUInt64]

def hashConnection (srcIp dstIp : UInt32) (srcPort dstPort : UInt16) (protocol : UInt8) : UInt32 :=
  (djb2 5381 (connectionDigits srcIp dstIp srcPort dstPort protocol)).toUInt32

def hashConnectionIpv6 (srcIp dstIp : Addr) (srcPort dstPort : UInt16) (protocol : UInt8) : UInt32 :=
  (djb2 5381 (connectionIpv6Digits srcIp dstIp srcPort dstPort protocol)).toUInt32

/-- The loop of `hash_checksum`. -/
def sumBytes (data : List UInt8) : UInt32 := data.foldl (fun sum c => sum + c.toUInt32) 0

/-- `hash_checksum`; a null pointer counts as no bytes. -/
def hashChecksum (data : List UInt8) : UInt16 :=
  if data = [] then 0 else (~~~ foldCarries (sumBytes data)).toUInt16

/-- The values of `packet_type_t`. -/
def PacketType.code : PacketType → UInt64
  | .unknown => 0
  | .ipv4Tcp => 1
  | .ipv4TcpData => 2
  | .ipv4UdpData => 3
  | .ipv6Tcp => 4
  | .ipv6TcpData => 5
  | .ipv6UdpData => 6

/-- The values of `packet_direction_t`. -/
def PacketDirection.code : PacketDirection → UInt64
  | .unknown => 0
  | .outbound => 1
  | .inbound => 2

/-- The protocol that `hash_packet` hashes is told by the direction. -/
def hashedProtocol (p : Packet) : UInt8 := if p.isOutbound then 6 else 17

/-- What `hash_packet` adds behind the hash of the connection. -/
def packetDigits (p : Packet) : List UInt64 := [p.type.code, p.direction.code, p.ttl.toUInt64]

/-- `hash_packet`; a null pointer gives 0. -/
def hashPacket (p : Packet) : UInt32 :=
  let connection :=
    if p.isIpv6 then hashConnectionIpv6 p.srcIp p.dstIp p.srcPort p.dstPort (hashedProtocol p)
    else hashConnection p.srcIp.w0 p.dstIp.w0 p.srcPort p.dstPort (hashedProtocol p)
  (djb2 5381 (connection.toUInt64 :: packetDigits p)).toUInt32

/-! ### The hash as Horner's rule -/

/-- The residue that is kept. -/
def residue (h : UInt64) : ZMod (2 ^ 32) := (h.toNat : ZMod (2 ^ 32))

abbrev residues (cs : List UInt64) : List (ZMod (2 ^ 32)) := cs.map residue

private theorem isUnit_thirtyThree : IsUnit (33 : ZMod (2 ^ 32)) := by
  have h := (ZMod.isUnit_iff_coprime 33 (2 ^ 32)).2 (by decide)
  exact_mod_cast h

private theorem residue_djb2Step (hash c : UInt64) : residue (djb2Step hash c) = residue hash * 33 + residue c := by
  have hdvd : 2 ^ 32 ∣ 2 ^ 64 := Nat.pow_dvd_pow 2 (by decide)
  rw [residue, djb2Step, UInt64.toNat_add, UInt64.toNat_add, UInt64.toNat_shiftLeft, natCast_mod_of_dvd hdvd,
    Nat.cast_add, natCast_mod_of_dvd hdvd, Nat.cast_add, natCast_mod_of_dvd hdvd]
  change ((hash.toNat <<< 5 : Nat) : ZMod (2 ^ 32)) + _ + _ = _
  rw [Nat.shiftLeft_eq]
  push_cast
  unfold residue
  ring

private theorem residue_djb2 (hash : UInt64) (cs : List UInt64) :
    residue (djb2 hash cs) = horner 33 (residue hash) (residues cs) := by
  induction cs generalizing hash with
  | nil => rfl
  | cons c cs ih =>
    change residue (djb2 (djb2Step hash c) cs) = horner 33 (residue hash) (residue c :: residues cs)
    rw [ih, residue_djb2Step, horner_cons]

/-- Hashes are equal when their residues are. -/
private theorem toUInt32_eq_iff (h k : UInt64) : h.toUInt32 = k.toUInt32 ↔ residue h = residue k := by
  rw [residue, residue, ZMod.natCast_eq_natCast_iff, ← UInt32.toNat_inj, UInt64.toNat_toUInt32, UInt64.toNat_toUInt32]
  exact Iff.rfl

private theorem residue_toUInt32 (h : UInt64) : residue h.toUInt32.toUInt64 = residue h := by
  rw [residue, UInt32.toNat_toUInt64, UInt64.toNat_toUInt32, natCast_mod_of_dvd (Nat.dvd_refl _), residue]

/-- The number with these digits to the base 33, the highest first. -/
def numeral (cs : List UInt64) : Nat := Nat.ofDigits 33 (cs.map UInt64.toNat).reverse

private theorem horner_residues (cs : List UInt64) : horner 33 0 (residues cs) = (numeral cs : ZMod (2 ^ 32)) := by
  have hmap : residues cs = (cs.map UInt64.toNat).map Nat.cast := (List.map_map).symm
  rw [hmap]
  exact_mod_cast horner_natCast (R := ZMod (2 ^ 32)) 33 (cs.map UInt64.toNat)

private theorem horner_residues_eq_iff {cs ds : List UInt64} :
    horner 33 0 (residues cs) = horner 33 0 (residues ds) ↔ numeral cs ≡ numeral ds [MOD 2 ^ 32] := by
  rw [horner_residues, horner_residues, ZMod.natCast_eq_natCast_iff]

private theorem numeral_singleton (c : UInt8) : numeral [c.toUInt64] = c.toNat := Nat.ofDigits_singleton

private theorem hashBytes_middle {m : List UInt8} (pre m' post : List UInt8) (hne : m ≠ [])
    (hlen : m.length = m'.length) :
    hashBytes (pre ++ m ++ post) = hashBytes (pre ++ m' ++ post) ↔
      numeral (m.map UInt8.toUInt64) ≡ numeral (m'.map UInt8.toUInt64) [MOD 2 ^ 32] := by
  have hne' : m' ≠ [] := fun h => hne (List.length_eq_zero_iff.1 (by rw [hlen, h]; rfl))
  have happ {m : List UInt8} (h : m ≠ []) : pre ++ m ++ post ≠ [] := by simp [h]
  rw [hashBytes, if_neg (happ hne), hashBytes, if_neg (happ hne'), toUInt32_eq_iff, residue_djb2, residue_djb2,
    ← horner_residues_eq_iff]
  simp only [residues, List.map_append]
  exact horner_middle_iff isUnit_thirtyThree _ _ (by simp [hlen])

/-- A change of one byte changes the hash. -/
theorem hashBytes_byte_iff (pre post : List UInt8) (c d : UInt8) :
    hashBytes (pre ++ [c] ++ post) = hashBytes (pre ++ [d] ++ post) ↔ c = d := by
  rw [hashBytes_middle pre [d] post (List.cons_ne_nil c []) rfl, List.map_singleton, List.map_singleton,
    numeral_singleton, numeral_singleton]
  constructor
  · intro h
    have hc := c.toNat_lt
    have hd := d.toNat_lt
    have heq : c.toNat = d.toNat := Nat.ModEq.eq_of_lt_of_lt h (by omega) (by omega)
    exact UInt8.toNat_inj.1 heq
  · rintro rfl
    rfl

/-- What two arrays of bytes have in common before and behind parts of one length does not matter for their hashes, and
the parts do as numbers to the base 33. -/
theorem hashBytes_middle_iff (pre m m' post : List UInt8) (hlen : m.length = m'.length) :
    hashBytes (pre ++ m ++ post) = hashBytes (pre ++ m' ++ post) ↔
      numeral (m.map UInt8.toUInt64) ≡ numeral (m'.map UInt8.toUInt64) [MOD 2 ^ 32] := by
  by_cases hm : m = []
  · obtain rfl : m' = [] := List.length_eq_zero_iff.1 (by rw [← hlen, hm]; rfl)
    rw [hm]
    exact iff_of_true rfl rfl
  · exact hashBytes_middle pre m' post hm hlen

theorem hashBytes_middle_iff_ports :
    hashBytes ([10] ++ [1, 0] ++ [6]) = hashBytes ([10] ++ [0, 33] ++ [6]) ↔
      numeral ([1, 0].map UInt8.toUInt64) ≡ numeral ([0, 33].map UInt8.toUInt64) [MOD 2 ^ 32] :=
  hashBytes_middle_iff [10] [1, 0] [0, 33] [6] rfl

/-- `hash_string` and `hash_bytes` agree on strings of ASCII characters, except for the empty one. -/
theorem hashString_of_ascii {str : List UInt8} (hne : cstr str ≠ []) (hascii : ∀ c ∈ cstr str, c < 128) :
    hashString (some str) = hashBytes (cstr str) := by
  have hdigits : (cstr str).map charDigit = (cstr str).map UInt8.toUInt64 :=
    List.map_congr_left fun c hc => if_pos (hascii c hc)
  rw [hashBytes, if_neg hne, hashString, hdigits]

/-! ### Packets -/

/-- All that `hash_packet` hashes. -/
def packetRecord (p : Packet) : List UInt64 :=
  (if p.isIpv6 then connectionIpv6Digits p.srcIp p.dstIp p.srcPort p.dstPort (hashedProtocol p)
    else connectionDigits p.srcIp.w0 p.dstIp.w0 p.srcPort p.dstPort (hashedProtocol p)) ++ packetDigits p

/-- The hash of a packet as that of its record. -/
theorem hashPacket_eq_iff {p q : Packet} {cs ds : List UInt64} (hlen : cs.length = ds.length)
    (hp : hashPacket p = (djb2 5381 ((djb2 5381 cs).toUInt32.toUInt64 :: packetDigits p)).toUInt32)
    (hq : hashPacket q = (djb2 5381 ((djb2 5381 ds).toUInt32.toUInt64 :: packetDigits q)).toUInt32) :
    hashPacket p = hashPacket q ↔ numeral (cs ++ packetDigits p) ≡ numeral (ds ++ packetDigits q) [MOD 2 ^ 32] := by
  have hrecord (cs es : List UInt64) :
      residue (djb2 5381 ((djb2 5381 cs).toUInt32.toUInt64 :: es)) =
        (residue 5381 * 33 + residue 5381 * 33 ^ cs.length) * 33 ^ es.length + horner 33 0 (residues (cs ++ es)) := by
    rw [residue_djb2, residues, List.map_cons, horner_cons, residue_toUInt32, residue_djb2, horner_eq_add,
      horner_eq_add _ (residue 5381), residues, residues, List.map_append, horner_append,
      horner_eq_add _ (horner 33 0 (cs.map residue)), List.length_map, List.length_map]
    ring
  rw [hp, hq, toUInt32_eq_iff, hrecord, hrecord, hlen, ← horner_residues_eq_iff]
  exact add_right_inj _

/-- Packets of one IP version have one hash exactly when their records are equal as numbers to the base 33. -/
theorem packet_hashes_collide_iff (p q : Packet) (hversion : p.isIpv6 = q.isIpv6) :
    hashPacket p = hashPacket q ↔ numeral (packetRecord p) ≡ numeral (packetRecord q) [MOD 2 ^ 32] := by
  by_cases h6 : p.isIpv6 = true
  · have h6' : q.isIpv6 = true := hversion.symm.trans h6
    rw [packetRecord, if_pos h6, packetRecord, if_pos h6']
    exact hashPacket_eq_iff rfl (by rw [hashPacket, if_pos h6]; rfl) (by rw [hashPacket, if_pos h6']; rfl)
  · have h6' : ¬ q.isIpv6 = true := fun h => h6 (hversion.trans h)
    rw [packetRecord, if_neg h6, packetRecord, if_neg h6']
    exact hashPacket_eq_iff rfl (by rw [hashPacket, if_neg h6]; rfl) (by rw [hashPacket, if_neg h6']; rfl)

/-- A packet of a connection to a port of one server. -/
def webPacket (dstPort : UInt16) : Packet :=
  { packetInit with
    type := .ipv4TcpData
    isOutbound := true
    ttl := 64
    srcIp := Addr.ofWord 0x0a000001
    dstIp := Addr.ofWord 0x5db8d822
    srcPort := 40000
    dstPort := dstPort }

/-- The bytes of the ports are `187, 1` and `186, 34`, which are one number to the base 33. -/
theorem packet_hashes_collide_iff_ports :
    hashPacket (webPacket 443) = hashPacket (webPacket 8890) ∧
    (hashPacket (webPacket 443) = hashPacket (webPacket 8890) ↔
      numeral (packetRecord (webPacket 443)) ≡ numeral (packetRecord (webPacket 8890)) [MOD 2 ^ 32]) :=
  ⟨by decide, packet_hashes_collide_iff (webPacket 443) (webPacket 8890) rfl⟩

/-! ### The checksum -/

/-- The sum of the bytes as a number. -/
def byteSum (data : List UInt8) : Nat := (data.map UInt8.toNat).sum

private theorem byteSum_le (data : List UInt8) : byteSum data ≤ 255 * data.length := by
  have hle := List.sum_le_card_nsmul (data.map UInt8.toNat) 255 fun n hn => by
    obtain ⟨c, -, rfl⟩ := List.mem_map.1 hn
    exact Nat.le_of_lt_succ c.toNat_lt
  rw [List.length_map, smul_eq_mul, Nat.mul_comm] at hle
  exact hle

private theorem toNat_sumBytes (data : List UInt8) : (sumBytes data).toNat = byteSum data % 2 ^ 32 := by
  have hfold (sum : UInt32) : (data.foldl (fun sum c => sum + c.toUInt32) sum).toNat =
      (sum.toNat + byteSum data) % 2 ^ 32 := by
    induction data generalizing sum with
    | nil => exact (Nat.mod_eq_of_lt sum.toNat_lt).symm
    | cons c data ih =>
      rw [List.foldl_cons, ih, UInt32.toNat_add, UInt8.toNat_toUInt32, byteSum, byteSum, List.map_cons, List.sum_cons]
      omega
  rw [sumBytes, hfold]
  exact congrArg (· % 2 ^ 32) (Nat.zero_add _)

/-- The checksum is the complement of the number that stands for the sum of the bytes. -/
theorem represents_hashChecksum {data : List UInt8} (hne : data ≠ []) (hlen : data.length ≤ 2 ^ 24) :
    Represents 65535 (65535 - (hashChecksum data).toNat) (byteSum data) := by
  have hle := byteSum_le data
  have hrep := represents_foldCarries (sumBytes data)
  have hcheck : (hashChecksum data).toNat = 65535 - (foldCarries (sumBytes data)).toNat := by
    have hle := hrep.le
    rw [hashChecksum, if_neg hne, UInt32.toNat_toUInt16, UInt32.toNat_not]
    change (4294967296 - 1 - _) % 65536 = _
    omega
  rw [toNat_sumBytes, Nat.mod_eq_of_lt (by omega)] at hrep
  rw [hcheck, Nat.sub_sub_self hrep.le]
  exact hrep

/-- Data of any two lengths has one checksum exactly when the sums of the bytes are congruent, and both are zero or
neither is. -/
theorem hashChecksum_eq_iff (data data' : List UInt8) (hne : data ≠ []) (hne' : data' ≠ [])
    (hlen : data.length ≤ 2 ^ 24) (hlen' : data'.length ≤ 2 ^ 24) :
    hashChecksum data = hashChecksum data' ↔
      byteSum data ≡ byteSum data' [MOD 65535] ∧ (byteSum data = 0 ↔ byteSum data' = 0) := by
  have hrep := represents_hashChecksum hne hlen
  have hrep' := represents_hashChecksum hne' hlen'
  constructor
  · intro heq
    rw [heq] at hrep
    exact ⟨hrep.modEq.symm.trans hrep'.modEq, hrep.eq_zero_iff.symm.trans hrep'.eq_zero_iff⟩
  · rintro ⟨hmod, hzero⟩
    have hrep'' : Represents 65535 (65535 - (hashChecksum data).toNat) (byteSum data') :=
      ⟨hrep.le, hrep.modEq.trans hmod, hrep.eq_zero_iff.trans hzero⟩
    have hsub := hrep''.unique hrep'
    have hlt := (hashChecksum data).toNat_lt
    have hlt' := (hashChecksum data').toNat_lt
    refine UInt16.toNat_inj.1 ?_
    omega

theorem hashChecksum_eq_iff_reordered :
    hashChecksum [1, 2, 255] = hashChecksum [255, 1, 2] ↔
      byteSum [1, 2, 255] ≡ byteSum [255, 1, 2] [MOD 65535] ∧ (byteSum [1, 2, 255] = 0 ↔ byteSum [255, 1, 2] = 0) :=
  hashChecksum_eq_iff [1, 2, 255] [255, 1, 2] (by decide) (by decide) (by decide) (by decide)

end GoodbyeDpi
