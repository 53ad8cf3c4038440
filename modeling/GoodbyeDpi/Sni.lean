import GoodbyeDpi.Packet

/-!
# The SNI extractor (`src/evasion/sni_extractor.c`)

`evasionExtractSni` and `parseSniExtension` read the bytes of a TLS record and write the host name.  The code
keeps a pointer `data` into the record and the counter `data_len`; a `Cursor` holds both, the pointer as an
offset.  The header structs are read in place, so their offsets and sizes are those the compiler gives them on a
little-endian host, not those of the wire format.
-/

namespace GoodbyeDpi

open CSem Traced

/-! ### The header structs -/

/-- The field sizes of `tls_record_header_t`: `uint8_t type; uint16_t version; uint16_t length`. -/
def tlsRecordHeader : List Nat := [1, 2, 2]

/-- The field sizes of `tls_handshake_header_t`: `uint8_t type; uint8_t length[3]; uint16_t version`. -/
def tlsHandshakeHeader : List Nat := [1, 1, 1, 1, 2]

theorem sizeOf_tlsRecordHeader : sizeOfStruct tlsRecordHeader = 6 := rfl

theorem offsetOf_tlsRecordHeader_version : offsetOf tlsRecordHeader 1 = 2 := rfl

theorem sizeOf_tlsHandshakeHeader : sizeOfStruct tlsHandshakeHeader = 6 := rfl

/-! ### The parser -/

/-- `data` as an offset into the record, and `data_len`. -/
structure Cursor where
  pos : Nat
  len : Nat
deriving DecidableEq, Repr

/-- The record header: handshake type and version, then past the struct. -/
def sniRecordHeader (tls : List UInt8) : CRun Buf (Option Cursor) := do
  if tls.length < sizeOfStruct tlsRecordHeader then pure none else
    let type ← loadByte .tlsData tls (offsetOf tlsRecordHeader 0)
    if type ≠ 0x16 then pure none else
      let version ← loadLe16 .tlsData tls (offsetOf tlsRecordHeader 1)
      if version ≠ 0x0301 ∧ version ≠ 0x0303 then pure none else
        let len ← subSize tls.length (sizeOfStruct tlsRecordHeader)
        pure (some ⟨sizeOfStruct tlsRecordHeader, len⟩)

/-- The handshake header: ClientHello type and 24 bit length, then past the struct. -/
def sniHandshakeHeader (tls : List UInt8) (c : Cursor) : CRun Buf (Option Cursor) := do
  if c.len < sizeOfStruct tlsHandshakeHeader then pure none else
    let type ← loadByte .tlsData tls (c.pos + offsetOf tlsHandshakeHeader 0)
    if type ≠ 0x01 then pure none else
      let l0 ← loadByte .tlsData tls (c.pos + offsetOf tlsHandshakeHeader 1)
      let l1 ← loadByte .tlsData tls (c.pos + offsetOf tlsHandshakeHeader 2)
      let l2 ← loadByte .tlsData tls (c.pos + offsetOf tlsHandshakeHeader 3)
      let len ← subSize c.len (sizeOfStruct tlsHandshakeHeader)
      -- the last check is `data_len < 1`, just before the session id
      if len < l0 * 65536 + l1 * 256 + l2 ∨ len < 1 then pure none else
        pure (some ⟨c.pos + sizeOfStruct tlsHandshakeHeader, len⟩)

/-- Skips a vector with a length prefix of `width` bytes (`1` or `2`) and checks that `next` bytes are left.  The
length is subtracted before anything is compared. -/
def sniSkipVector (width next : Nat) (tls : List UInt8) (c : Cursor) : CRun Buf (Option Cursor) := do
  let n ← if width = 1 then loadByte .tlsData tls c.pos else loadBe16 .tlsData tls c.pos
  let len ← subSize c.len (width + n)
  if len < next then pure none else pure (some ⟨c.pos + (width + n), len⟩)

def sniSkipSessionId : List UInt8 → Cursor → CRun Buf (Option Cursor) := sniSkipVector 1 2

def sniSkipCipherSuites : List UInt8 → Cursor → CRun Buf (Option Cursor) := sniSkipVector 2 1

def sniSkipCompressionMethods : List UInt8 → Cursor → CRun Buf (Option Cursor) := sniSkipVector 1 2

/-- The length of the extension block; the new cursor has the block's length in place of `data_len`. -/
def sniExtensionBlock (tls : List UInt8) (c : Cursor) : CRun Buf (Option Cursor) := do
  let n ← loadBe16 .tlsData tls c.pos
  let len ← subSize c.len 2
  if len < n then pure none else pure (some ⟨c.pos + 2, n⟩)

/-- `parse_sni_extension` on the `extLen` bytes at `ext`: the return code and the host name buffer. -/
def parseSniExtension (tls : List UInt8) (ext extLen : Nat) (hostname : List UInt8) :
    CRun Buf (Int × List UInt8) := do
  if extLen < 5 ∨ hostname.length = 0 then pure (-1, hostname) else
    let dataLen ← subSize extLen 2
    if dataLen < 3 then pure (-1, hostname) else
      let nameType ← loadByte .tlsData tls (ext + 2)
      if nameType ≠ 0x00 then pure (-1, hostname) else
        let nameLen ← loadBe16 .tlsData tls (ext + 3)
        let dataLen ← subSize dataLen 3
        if dataLen < nameLen ∨ nameLen ≥ hostname.length then pure (-1, hostname) else
          let name ← slice .tlsData tls (ext + 5) nameLen
          let hostname ← store .hostname hostname 0 name
          let hostname ← store .hostname hostname nameLen [0]
          pure (0, hostname)

/-- The loop over the extensions up to the offset `stop`, for `fuel` rounds at most: `none` when it has not ended. -/
def sniWalk (tls : List UInt8) (stop : Nat) (hostname : List UInt8) (fuel pos : Nat) :
    CRun Buf (Option (Int × List UInt8)) :=
  if ¬ pos < stop ∨ pos + 4 > stop then pure (some (-1, hostname)) else
    match fuel with
    | 0 => pure none
    | fuel + 1 => do
      let extType ← loadBe16 .tlsData tls pos
      let extLen ← loadBe16 .tlsData tls (pos + 2)
      if pos + 4 + extLen > stop then pure (some (-1, hostname)) else
        if extType = 0x0000 then
          let r ← parseSniExtension tls (pos + 4) extLen hostname
          pure (some r)
        else sniWalk tls stop hostname fuel (pos + 4 + extLen)

/-- Every round moves on by at least four bytes, so as many rounds as the block has bytes are enough. -/
theorem sniWalk_ends {tls hostname : List UInt8} {stop fuel pos : Nat} (hfuel : stop ≤ pos + fuel) :
    (sniWalk tls stop hostname fuel pos).val ≠ some none := by
  induction fuel generalizing pos with
  | zero =>
    rw [sniWalk, if_pos (by omega)]
    simp
  | succ fuel ih =>
    intro h
    rw [sniWalk] at h
    split at h
    · cases h
    · obtain ⟨extType, -, h⟩ := val_of_bind h
      obtain ⟨extLen, -, h⟩ := val_of_bind h
      split at h
      · cases h
      · split at h
        · obtain ⟨r, -, h⟩ := val_of_bind h
          cases h
        · exact ih (by omega) h

/-- `evasion_extract_sni`: the return code and the host name buffer, whose size is `hostname_len`. -/
def evasionExtractSni (tls hostname : List UInt8) : CRun Buf (Int × List UInt8) :=
  if tls.length < 5 ∨ hostname.length = 0 then pure (-1, hostname) else
    (sniRecordHeader tls).orReturn (-1, hostname) fun c =>
    (sniHandshakeHeader tls c).orReturn (-1, hostname) fun c =>
    (sniSkipSessionId tls c).orReturn (-1, hostname) fun c =>
    (sniSkipCipherSuites tls c).orReturn (-1, hostname) fun c =>
    (sniSkipCompressionMethods tls c).orReturn (-1, hostname) fun c =>
    (sniExtensionBlock tls c).orReturn (-1, hostname) fun c =>
    -- the walk ends within these rounds, so the last fallback is never taken
    (sniWalk tls (c.pos + c.len) hostname c.len c.pos).orReturn (-1, hostname) pure

end GoodbyeDpi
