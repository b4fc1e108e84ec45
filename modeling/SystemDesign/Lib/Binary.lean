import Mathlib.Data.UInt
import Mathlib.Tactic.Ring

/-!
Binary layouts (`struct`): numbers of a fixed width with the least significant byte first, and texts in UTF-8; and
CRC-32 as `zlib.crc32` computes it, bit by bit.

Each reader takes what it reads off the front. It succeeds exactly on what the writer wrote.
-/

namespace SystemDesign

open List

/-- A number in so many bytes, the least significant first. -/
def littleEndian : ℕ → ℕ → List UInt8
  | 0, _ => []
  | width + 1, n => UInt8.ofNat n :: littleEndian width (n / 256)

def ofLittleEndian (bytes : List UInt8) : ℕ := bytes.foldr (fun b n => b.toNat + 256 * n) 0

@[simp] theorem length_littleEndian (width n : ℕ) : (littleEndian width n).length = width := by
  induction width generalizing n with
  | zero => rfl
  | succ width ih => rw [littleEndian, length_cons, ih]

theorem ofLittleEndian_cons (b : UInt8) (bytes : List UInt8) :
    ofLittleEndian (b :: bytes) = b.toNat + 256 * ofLittleEndian bytes := rfl

theorem ofLittleEndian_lt (bytes : List UInt8) : ofLittleEndian bytes < 256 ^ bytes.length := by
  induction bytes with
  | nil => exact Nat.one_pos
  | cons b bytes ih =>
    rw [ofLittleEndian_cons, length_cons, Nat.pow_succ]
    have hb : b.toNat < 256 := b.toNat_lt
    omega

theorem ofLittleEndian_littleEndian {width n : ℕ} (h : n < 256 ^ width) :
    ofLittleEndian (littleEndian width n) = n := by
  induction width generalizing n with
  | zero =>
    rw [Nat.pow_zero] at h
    exact (Nat.lt_one_iff.mp h).symm
  | succ width ih =>
    rw [Nat.pow_succ] at h
    have hbyte : (UInt8.ofNat n).toNat = n % 256 := UInt8.toNat_ofNat'
    rw [littleEndian, ofLittleEndian_cons, ih (Nat.div_lt_of_lt_mul (by omega)), hbyte]
    omega

theorem littleEndian_ofLittleEndian (bytes : List UInt8) :
    littleEndian bytes.length (ofLittleEndian bytes) = bytes := by
  induction bytes with
  | nil => rfl
  | cons b bytes ih =>
    have hb : b.toNat < 256 := b.toNat_lt
    have hbyte : UInt8.ofNat (b.toNat + 256 * ofLittleEndian bytes) = b := by
      apply UInt8.toNat_inj.mp
      rw [UInt8.toNat_ofNat']
      omega
    have hrest : (b.toNat + 256 * ofLittleEndian bytes) / 256 = ofLittleEndian bytes := by omega
    rw [ofLittleEndian_cons, length_cons, littleEndian, hbyte, hrest, ih]

/-! ### Readers -/

/-- The next bytes, so many of them. -/
def readBytes (count : ℕ) (bytes : List UInt8) : Option (List UInt8 × List UInt8) :=
  if count ≤ bytes.length then some (bytes.take count, bytes.drop count) else none

theorem readBytes_eq_some {count : ℕ} {bytes front rest : List UInt8} :
    readBytes count bytes = some (front, rest) ↔ bytes = front ++ rest ∧ front.length = count := by
  unfold readBytes
  constructor
  · intro h
    split at h
    · rename_i hle
      cases h
      exact ⟨(take_append_drop _ _).symm, length_take_of_le hle⟩
    · cases h
  · rintro ⟨rfl, rfl⟩
    rw [if_pos (by rw [length_append]; omega), take_left, drop_left]

/-- `struct.unpack_from` of a number. -/
def readNat (width : ℕ) (bytes : List UInt8) : Option (ℕ × List UInt8) :=
  (readBytes width bytes).map fun read => (ofLittleEndian read.1, read.2)

theorem readNat_eq_some {width n : ℕ} {bytes rest : List UInt8} :
    readNat width bytes = some (n, rest) ↔ bytes = littleEndian width n ++ rest ∧ n < 256 ^ width := by
  unfold readNat
  rw [Option.map_eq_some_iff]
  constructor
  · rintro ⟨⟨front, rest'⟩, hread, heq⟩
    cases heq
    obtain ⟨rfl, rfl⟩ := readBytes_eq_some.mp hread
    exact ⟨by rw [littleEndian_ofLittleEndian], ofLittleEndian_lt front⟩
  · rintro ⟨rfl, hlt⟩
    exact ⟨(littleEndian width n, rest), readBytes_eq_some.mpr ⟨rfl, length_littleEndian width n⟩,
      by rw [ofLittleEndian_littleEndian hlt]⟩

theorem readBytes_append (front rest : List UInt8) : readBytes front.length (front ++ rest) = some (front, rest) :=
  readBytes_eq_some.mpr ⟨rfl, rfl⟩

theorem readNat_append {width n : ℕ} (h : n < 256 ^ width) (rest : List UInt8) :
    readNat width (littleEndian width n ++ rest) = some (n, rest) :=
  readNat_eq_some.mpr ⟨rfl, h⟩

/-! ### Texts -/

/-- `text.encode("utf-8")` -/
def utf8Bytes (text : String) : List UInt8 := text.toByteArray.data.toList

/-- `bytes.decode("utf-8")` -/
def ofUtf8Bytes (bytes : List UInt8) : Option String := String.fromUTF8? ⟨bytes.toArray⟩

theorem ofUtf8Bytes_eq_some {bytes : List UInt8} {text : String} :
    ofUtf8Bytes bytes = some text ↔ bytes = utf8Bytes text := by
  unfold ofUtf8Bytes String.fromUTF8?
  constructor
  · intro h
    split at h
    · cases h
      rfl
    · cases h
  · rintro rfl
    have hbytes : (⟨(utf8Bytes text).toArray⟩ : ByteArray) = text.toByteArray := by simp [utf8Bytes]
    rw [dif_pos (by rw [hbytes]; exact text.isValidUTF8)]
    exact congrArg some (String.toByteArray_inj.mp hbytes)

theorem ofUtf8Bytes_utf8Bytes (text : String) : ofUtf8Bytes (utf8Bytes text) = some text := ofUtf8Bytes_eq_some.mpr rfl

end SystemDesign

/-! ### Checksums -/

namespace SystemDesign.Crc32

def bit (c : UInt32) : UInt32 := if c &&& 1 = 1 then (0xedb88320 : UInt32) ^^^ (c >>> 1) else c >>> 1

/-- The register after one more byte. -/
def update (c : UInt32) (b : UInt8) : UInt32 := bit^[8] (c ^^^ b.toUInt32)

def crc32 (data : List UInt8) : ℕ := (data.foldl update 0xffffffff ^^^ 0xffffffff).toNat

theorem crc32_lt (data : List UInt8) : crc32 data < 2 ^ 32 := UInt32.toNat_lt _

/-- The check value of the polynomial's catalogue entry, on the digits one to nine. -/
example : crc32 [0x31, 0x32, 0x33, 0x34, 0x35, 0x36, 0x37, 0x38, 0x39] = 0xcbf43926 := by
  decide +kernel

end SystemDesign.Crc32
