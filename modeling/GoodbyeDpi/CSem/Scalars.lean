import GoodbyeDpi.CSem.Memory

/-!
# Struct layout and multi-byte loads

Offsets and sizes of C structs with naturally aligned scalar fields, and the loads of 16 and 32 bit values from a
byte buffer: in network byte order, and in the byte order of a little-endian host.
-/

namespace CSem

/-! ### Struct layout -/

def alignUp (n a : Nat) : Nat := (n + a - 1) / a * a

/-- The offsets of the fields with the given sizes, each aligned to its own size, from `off` on. -/
def fieldOffsets : Nat → List Nat → List Nat
  | _, [] => []
  | off, s :: ss => alignUp off s :: fieldOffsets (alignUp off s + s) ss

/-- The offset of field `i`. -/
def offsetOf (fields : List Nat) (i : Nat) : Nat := (fieldOffsets 0 fields).getD i 0

/-- The size of the struct: the end of the last field, rounded up to the strictest alignment. -/
def sizeOfStruct (fields : List Nat) : Nat :=
  alignUp (offsetOf fields (fields.length - 1) + fields.getLastD 0) (fields.foldl max 1)

/-! ### The values of bytes -/

/-- The byte at `i`, as a number; `0` outside the buffer. -/
def byteAt (b : List UInt8) (i : Nat) : Nat := (b.getD i 0).toNat

/-- The big-endian 16 bit number at `i`. -/
def be16At (b : List UInt8) (i : Nat) : Nat := byteAt b i * 256 + byteAt b (i + 1)

/-- The little-endian 16 bit number at `i`. -/
def le16At (b : List UInt8) (i : Nat) : Nat := byteAt b i + byteAt b (i + 1) * 256

/-- The little-endian 32 bit number at `i`. -/
def le32At (b : List UInt8) (i : Nat) : Nat := le16At b i + le16At b (i + 2) * 65536

theorem byteAt_of_lt {b : List UInt8} {i : Nat} (h : i < b.length) : byteAt b i = b[i].toNat := by
  simp [byteAt, List.getD_eq_getElem?_getD, List.getElem?_eq_getElem h]

theorem byteAt_lt (b : List UInt8) (i : Nat) : byteAt b i < 256 := UInt8.toNat_lt _

theorem be16At_lt (b : List UInt8) (i : Nat) : be16At b i < 65536 := by
  have h1 := byteAt_lt b i
  have h2 := byteAt_lt b (i + 1)
  unfold be16At
  omega

theorem byteAt_append_left {a b : List UInt8} {i : Nat} (h : i < a.length) : byteAt (a ++ b) i = byteAt a i := by
  simp [byteAt, List.getD_eq_getElem?_getD, List.getElem?_append_left h]

theorem byteAt_append_right {a b : List UInt8} (i : Nat) : byteAt (a ++ b) (a.length + i) = byteAt b i := by
  simp [byteAt, List.getD_eq_getElem?_getD, List.getElem?_append_right]

/-- The bytes of a 16 bit number in the memory of a little-endian host. -/
def le16Bytes (w : UInt16) : List UInt8 := [UInt8.ofNat w.toNat, UInt8.ofNat (w.toNat / 256)]

/-- The bytes of a 16 bit number in network byte order. -/
def be16Bytes (n : Nat) : List UInt8 := [UInt8.ofNat (n / 256), UInt8.ofNat n]

/-- The bytes of a word in the memory of a little-endian host. -/
def le32Bytes (w : UInt32) : List UInt8 :=
  [UInt8.ofNat w.toNat, UInt8.ofNat (w.toNat / 256), UInt8.ofNat (w.toNat / 65536), UInt8.ofNat (w.toNat / 16777216)]

theorem le32At_lt (b : List UInt8) (i : Nat) : le32At b i < 4294967296 := by
  have h0 := byteAt_lt b i
  have h1 := byteAt_lt b (i + 1)
  have h2 := byteAt_lt b (i + 2)
  have h3 := byteAt_lt b (i + 2 + 1)
  unfold le32At le16At
  omega

/-- A word that was loaded has in memory the bytes it was loaded from. -/
theorem le32Bytes_le32At {b : List UInt8} {i : Nat} (h : i + 3 < b.length) :
    le32Bytes (UInt32.ofNat (le32At b i)) = (b.drop i).take 4 := by
  have hw : (UInt32.ofNat (le32At b i)).toNat = le32At b i := by
    rw [UInt32.toNat_ofNat']
    exact Nat.mod_eq_of_lt (le32At_lt b i)
  have hbyte : ∀ {j n : Nat}, (hj : j < b.length) → n % 256 = byteAt b j → UInt8.ofNat n = b[j] := by
    intro j n hj hn
    apply UInt8.toNat.inj
    rw [UInt8.toNat_ofNat', ← byteAt_of_lt hj, ← hn]
  have h0 := byteAt_lt b i
  have h1 := byteAt_lt b (i + 1)
  have h2 := byteAt_lt b (i + 2)
  have h3 := byteAt_lt b (i + 3)
  have htake : (b.drop i).take 4 = [b[i], b[i + 1], b[i + 2], b[i + 3]] := by
    rw [List.drop_eq_getElem_cons (by omega), List.drop_eq_getElem_cons (by omega),
      List.drop_eq_getElem_cons (by omega), List.drop_eq_getElem_cons (by omega)]
    rfl
  have hval : le32At b i = byteAt b i + byteAt b (i + 1) * 256 + (byteAt b (i + 2) + byteAt b (i + 3) * 256) * 65536 :=
    rfl
  rw [htake, le32Bytes, hw]
  congr 1
  · exact hbyte _ (by omega)
  congr 1
  · exact hbyte _ (by omega)
  congr 1
  · exact hbyte _ (by omega)
  congr 1
  · exact hbyte _ (by omega)

/-! ### Loads -/

section

variable {β : Type}

def loadByte (t : β) (b : List UInt8) (i : Nat) : CRun β Nat := do
  let c ← load t b i
  pure c.toNat

/-- A `uint16_t` in network byte order. -/
def loadBe16 (t : β) (b : List UInt8) (i : Nat) : CRun β Nat := do
  let hi ← loadByte t b i
  let lo ← loadByte t b (i + 1)
  pure (hi * 256 + lo)

/-- A `uint16_t` in the byte order of the host. -/
def loadLe16 (t : β) (b : List UInt8) (i : Nat) : CRun β Nat := do
  let lo ← loadByte t b i
  let hi ← loadByte t b (i + 1)
  pure (lo + hi * 256)

/-- A `uint32_t` in the byte order of the host. -/
def loadLe32 (t : β) (b : List UInt8) (i : Nat) : CRun β Nat := do
  let lo ← loadLe16 t b i
  let hi ← loadLe16 t b (i + 2)
  pure (lo + hi * 65536)

end

open Traced Access

section

variable {β : Type} {P : Access β → Prop} {t : β} {b : List UInt8} {i : Nat} {Q : Nat → Prop}

theorem obeys_loadByte (hw : Watches P t) :
    Obeys P (loadByte t b i) Q ↔ i < b.length ∧ Q (byteAt b i) := by
  simp only [loadByte, obeys_bind, obeys_pure, obeys_load hw]
  constructor
  · rintro ⟨h, hQ⟩
    exact ⟨h, by rwa [byteAt_of_lt h]⟩
  · rintro ⟨h, hQ⟩
    exact ⟨h, by rwa [← byteAt_of_lt h]⟩

theorem obeys_loadBe16 (hw : Watches P t) :
    Obeys P (loadBe16 t b i) Q ↔ i + 1 < b.length ∧ Q (be16At b i) := by
  simp only [loadBe16, obeys_bind, obeys_pure, obeys_loadByte hw, be16At]
  constructor
  · rintro ⟨-, h, hQ⟩
    exact ⟨h, hQ⟩
  · rintro ⟨h, hQ⟩
    exact ⟨by omega, h, hQ⟩

theorem obeys_loadByte_of (hi : i < b.length) (hP : P (.read t i 1 b.length)) :
    Obeys P (loadByte t b i) Q ↔ Q (byteAt b i) := by
  rw [loadByte, obeys_bind, obeys_load_of hi hP, obeys_pure, byteAt_of_lt hi]

theorem obeys_loadBe16_of (hi : i + 1 < b.length) (hP : P (.read t i 1 b.length))
    (hP' : P (.read t (i + 1) 1 b.length)) : Obeys P (loadBe16 t b i) Q ↔ Q (be16At b i) := by
  simp only [loadBe16, obeys_bind, obeys_loadByte_of (Nat.lt_of_succ_lt hi) hP, obeys_loadByte_of hi hP', obeys_pure,
    be16At]

theorem obeys_loadLe16 (hw : Watches P t) :
    Obeys P (loadLe16 t b i) Q ↔ i + 1 < b.length ∧ Q (le16At b i) := by
  simp only [loadLe16, obeys_bind, obeys_pure, obeys_loadByte hw, le16At]
  constructor
  · rintro ⟨-, h, hQ⟩
    exact ⟨h, hQ⟩
  · rintro ⟨h, hQ⟩
    exact ⟨by omega, h, hQ⟩

theorem obeys_loadLe32 (hw : Watches P t) :
    Obeys P (loadLe32 t b i) Q ↔ i + 3 < b.length ∧ Q (le32At b i) := by
  simp only [loadLe32, obeys_bind, obeys_pure, obeys_loadLe16 hw, le32At]
  constructor
  · rintro ⟨-, h, hQ⟩
    exact ⟨by omega, hQ⟩
  · rintro ⟨h, hQ⟩
    exact ⟨by omega, by omega, hQ⟩

end

end CSem
