import GoodbyeDpi.SniSafety

/-!
# The extractor on well-formed ClientHello records

`ClientHello` is a TLS ClientHello that fits one record and carries a `server_name` extension; `encode` is its
wire format.  On the wire the record header has five bytes and the handshake header four.  The extractor lays its
structs over the bytes instead: the padded record header has six bytes, so the byte it takes for the handshake
type is the high byte of the 24 bit handshake length.  That byte is `0` whenever the handshake fits a record, so
the extractor rejects every one of them.
-/

namespace GoodbyeDpi

open CSem Traced Access

/-! ### The wire format -/

/-- The low `n` bytes of `v`, most significant first. -/
def beBytes : Nat → Nat → List UInt8
  | 0, _ => []
  | n + 1, v => beBytes n (v / 256) ++ [UInt8.ofNat v]

theorem length_beBytes (n v : Nat) : (beBytes n v).length = n := by
  induction n generalizing v with
  | zero => rfl
  | succ n ih => simp [beBytes, ih]

/-- A block preceded by its length in `width` bytes. -/
def tlsVector (width : Nat) (body : List UInt8) : List UInt8 := beBytes width body.length ++ body

/-- An extension other than the `server_name` extension. -/
structure TlsExtension where
  type : UInt16
  body : List UInt8
  type_ne : type ≠ 0
  body_lt : body.length < 2 ^ 16

def TlsExtension.encode (e : TlsExtension) : List UInt8 := beBytes 2 e.type.toNat ++ tlsVector 2 e.body

/-- The `server_name` extension: the host name is the first entry of its list, `moreNames` are the others. -/
def serverNameExtension (hostName moreNames : List UInt8) : List UInt8 :=
  beBytes 2 0 ++ tlsVector 2 (tlsVector 2 ([0] ++ tlsVector 2 hostName ++ moreNames))

/-- A ClientHello with a `server_name` extension, sent in one record. -/
structure ClientHello where
  recordVersion : Nat
  clientVersion : UInt16
  random : List UInt8
  sessionId : List UInt8
  cipherSuites : List UInt16
  compressionMethods : List UInt8
  before : List TlsExtension
  hostName : List UInt8
  moreNames : List UInt8
  after : List TlsExtension
  version_mem : recordVersion = 0x0301 ∨ recordVersion = 0x0303
  random_length : random.length = 32
  sessionId_length : sessionId.length ≤ 32
  cipherSuites_length : 2 * cipherSuites.length < 2 ^ 16
  compression_length : compressionMethods.length < 2 ^ 8
  hostName_length : 1 ≤ hostName.length ∧ hostName.length ≤ 255

namespace ClientHello

/-- The extension block. -/
def extensions (ch : ClientHello) : List UInt8 :=
  ch.before.flatMap TlsExtension.encode ++ serverNameExtension ch.hostName ch.moreNames ++
    ch.after.flatMap TlsExtension.encode

/-- The handshake body. -/
def body (ch : ClientHello) : List UInt8 :=
  beBytes 2 ch.clientVersion.toNat ++ ch.random ++ tlsVector 1 ch.sessionId ++
    tlsVector 2 (ch.cipherSuites.flatMap fun c => beBytes 2 c.toNat) ++ tlsVector 1 ch.compressionMethods ++
    tlsVector 2 ch.extensions

/-- The handshake message: type 1 and the 24 bit length, then the body. -/
def handshake (ch : ClientHello) : List UInt8 := [0x01] ++ tlsVector 3 ch.body

/-- The record: type, version and 16 bit length, then the handshake message. -/
def encode (ch : ClientHello) : List UInt8 :=
  [0x16] ++ beBytes 2 ch.recordVersion ++ tlsVector 2 ch.handshake

/-- The handshake message fits the 16 bit length of one record. -/
def FitsRecord (ch : ClientHello) : Prop := ch.handshake.length < 2 ^ 16

instance (ch : ClientHello) : Decidable ch.FitsRecord := inferInstanceAs (Decidable (_ < _))

theorem length_handshake (ch : ClientHello) : ch.handshake.length = ch.body.length + 4 := by
  simp [handshake, tlsVector, length_beBytes]
  omega

theorem length_encode (ch : ClientHello) : ch.encode.length = ch.handshake.length + 5 := by
  simp [encode, tlsVector, length_beBytes]
  omega

/-- Byte 6 of the record is the high byte of the handshake length. -/
theorem byteAt_encode_six (ch : ClientHello) (h : ch.FitsRecord) : byteAt ch.encode 6 = 0 := by
  have hlen := ch.length_handshake
  have hdiv : ch.body.length / 256 / 256 = 0 := by
    unfold FitsRecord at h
    omega
  have hb3 : beBytes 3 ch.body.length =
      [UInt8.ofNat (ch.body.length / 256 / 256), UInt8.ofNat (ch.body.length / 256), UInt8.ofNat ch.body.length] := rfl
  have hb2 : ∀ v, beBytes 2 v = [UInt8.ofNat (v / 256), UInt8.ofNat v] := fun _ => rfl
  simp [encode, tlsVector, handshake, hb2, hb3, hdiv, byteAt]

end ClientHello

/-! ### The extractor -/

/-- A record whose seventh byte is not the ClientHello type is rejected and the host name left alone. -/
theorem evasionExtractSni_of_not_accepted {tls : List UInt8} (hostname : List UInt8) (hlen : tls.length < sizeMod)
    (h : ¬ SniHandshakeAccepted tls) : (evasionExtractSni tls hostname).val = some (-1, hostname) := by
  apply val_of_obeys_eq inRange_of_ok
  unfold evasionExtractSni
  simp only [obeys_ite, obeys_pure, implies_true, true_and, obeys_orReturn, obeys_sniRecordHeader hlen]
  intro _
  refine ⟨fun hrec => ?_, fun _ => trivial⟩
  show Obeys Ok (sniHandshakeHeader tls ⟨6, tls.length - 6⟩) _
  rw [obeys_sniHandshakeHeader hlen hrec.1]
  exact ⟨fun hacc => absurd hacc h, fun _ => trivial⟩

/-- The extractor returns 0 and stores the host name followed by a NUL. -/
def SniExtracts (ch : ClientHello) (hostname : List UInt8) : Prop :=
  ∃ out, (evasionExtractSni ch.encode hostname).val = some (0, out) ∧
    out.take (ch.hostName.length + 1) = ch.hostName ++ [0]

/-- On every ClientHello that fits a record, and whatever the size of the buffer, the extractor reports that there
is no host name and stores nothing. -/
theorem evasionExtractSni_clientHello (ch : ClientHello) (hostname : List UInt8) (hfits : ch.FitsRecord) :
    (evasionExtractSni ch.encode hostname).val = some (-1, hostname) ∧ ¬ SniExtracts ch hostname := by
  have hlen : ch.encode.length < sizeMod := by
    rw [ch.length_encode]
    unfold ClientHello.FitsRecord at hfits
    unfold sizeMod
    omega
  have hacc : ¬ SniHandshakeAccepted ch.encode := by
    intro hacc
    have h6 := hacc.2.1
    rw [ch.byteAt_encode_six hfits] at h6
    cases h6
  have hval := evasionExtractSni_of_not_accepted hostname hlen hacc
  refine ⟨hval, ?_⟩
  rintro ⟨out, hout, -⟩
  rw [hval] at hout
  cases hout

/-- A TLS 1.2 ClientHello for the host `a.io` with one cipher suite and one compression method. -/
def sampleClientHello : ClientHello where
  recordVersion := 0x0301
  clientVersion := 0x0303
  random := List.replicate 32 0
  sessionId := []
  cipherSuites := [0x1301]
  compressionMethods := [0]
  before := []
  hostName := [0x61, 0x2e, 0x69, 0x6f]
  moreNames := []
  after := []
  version_mem := Or.inl rfl
  random_length := rfl
  sessionId_length := by decide
  cipherSuites_length := by decide
  compression_length := by decide
  hostName_length := by decide

theorem sampleClientHello_not_extracted :
    sampleClientHello.FitsRecord ∧ sampleClientHello.hostName.length < (List.replicate 16 (0 : UInt8)).length ∧
      ¬ SniExtracts sampleClientHello (List.replicate 16 0) := by
  refine ⟨by decide, by decide, ?_⟩
  rintro ⟨out, hout, -⟩
  have hval : (evasionExtractSni sampleClientHello.encode (List.replicate 16 0)).val =
      some (-1, List.replicate 16 0) := by decide
  rw [hval] at hout
  cases hout

theorem evasionExtractSni_sampleClientHello :
    (evasionExtractSni sampleClientHello.encode (List.replicate 16 0)).val = some (-1, List.replicate 16 0) ∧
      ¬ SniExtracts sampleClientHello (List.replicate 16 0) :=
  evasionExtractSni_clientHello sampleClientHello (List.replicate 16 0) (by decide)

end GoodbyeDpi
