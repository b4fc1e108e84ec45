import SystemDesign.Lib.Binary
import SystemDesign.Lib.Sha256

/-!
The Bloom filter of a table (`bloom_filter.py`): an added key is never denied.

MD5 and the two sizes, which the source rounds from logarithms, are parameters: nothing depends on their values.
-/

namespace SystemDesign.KvStorage

open List

/-- What the filter takes from outside: MD5, `ceil` of the optimal number of bits for so many items, and `round` of the
optimal number of hashes for so many bits and items. -/
structure BloomParameters where
  md5 : List UInt8 → List UInt8
  optimalBits : ℕ → ℤ
  optimalHashes : ℕ → ℕ → ℤ

structure BloomFilter where
  sizeBits : ℕ
  numHashFunctions : ℕ
  bitArray : List UInt8

namespace BloomFilter

variable (parameters : BloomParameters)

/-- `BloomFilter(expected_items)` -/
def new (expectedItems : ℕ) : BloomFilter :=
  let sizeBits := max 1 (parameters.optimalBits expectedItems).toNat
  { sizeBits
    numHashFunctions := max 1 (parameters.optimalHashes sizeBits expectedItems).toNat
    bitArray := List.replicate ((sizeBits + 7) / 8) 0 }

/-- `_get_hash_values` -/
def getHashValues (key : String) : ℕ × ℕ :=
  (ofLittleEndian ((parameters.md5 (utf8Bytes key)).take 8), ofLittleEndian ((Sha256.digest (utf8Bytes key)).take 8))

/-- `_get_bit_positions` -/
def getBitPositions (filter : BloomFilter) (key : String) : List ℕ :=
  (List.range filter.numHashFunctions).map fun i =>
    ((getHashValues parameters key).1 + i * (getHashValues parameters key).2) % filter.sizeBits

def setBit (filter : BloomFilter) (position : ℕ) : BloomFilter :=
  { filter with
    bitArray := filter.bitArray.modify (position / 8) fun byte => UInt8.ofNat (byte.toNat ||| 1 <<< (position % 8)) }

def getBit (filter : BloomFilter) (position : ℕ) : Bool :=
  (filter.bitArray.getD (position / 8) 0).toNat.testBit (position % 8)

def add (filter : BloomFilter) (key : String) : BloomFilter :=
  (filter.getBitPositions parameters key).foldl setBit filter

def mightContain (filter : BloomFilter) (key : String) : Bool :=
  (filter.getBitPositions parameters key).all filter.getBit

/-! ### Added keys -/

variable {parameters} {filter : BloomFilter} {position : ℕ}

/-- The array has a byte for every bit. -/
def Sized (filter : BloomFilter) : Prop := 0 < filter.sizeBits ∧ filter.bitArray.length = (filter.sizeBits + 7) / 8

theorem sized_new (expectedItems : ℕ) : (new parameters expectedItems).Sized :=
  ⟨lt_of_lt_of_le Nat.one_pos (le_max_left _ _), length_replicate⟩

theorem getBit_setBit (hposition : position / 8 < filter.bitArray.length) (i : ℕ) :
    (filter.setBit position).getBit i = (decide (i = position) || filter.getBit i) := by
  unfold getBit setBit
  rw [getD_eq_getElem?_getD, getD_eq_getElem?_getD, getElem?_modify]
  by_cases hbyte : position / 8 = i / 8
  · have hbound : i / 8 < filter.bitArray.length := hbyte ▸ hposition
    simp only [if_pos hbyte, getElem?_eq_getElem hbound, Option.map_eq_map, Option.map_some, Option.getD_some]
    rw [UInt8.toNat_ofNat', Nat.testBit_mod_two_pow, Nat.testBit_or, Nat.one_shiftLeft, Nat.testBit_two_pow]
    have hlt : i % 8 < 8 := Nat.mod_lt _ (by decide)
    have hsame : position % 8 = i % 8 ↔ i = position := by omega
    rw [decide_eq_true hlt, Bool.true_and, Bool.or_comm, decide_eq_decide.mpr hsame]
  · have hne : i ≠ position := fun heq => hbyte (by rw [heq])
    simp only [if_neg hbyte, Option.map_eq_map, Option.map_id', decide_eq_false hne, Bool.false_or]

theorem Sized.setBit (h : filter.Sized) (position : ℕ) : (filter.setBit position).Sized :=
  ⟨h.1, by rw [BloomFilter.setBit, length_modify, h.2]⟩

theorem sized_foldl (h : filter.Sized) (positions : List ℕ) : (positions.foldl BloomFilter.setBit filter).Sized ∧
      (positions.foldl BloomFilter.setBit filter).sizeBits = filter.sizeBits ∧
      (positions.foldl BloomFilter.setBit filter).numHashFunctions = filter.numHashFunctions := by
  induction positions generalizing filter with
  | nil => exact ⟨h, rfl, rfl⟩
  | cons position positions ih => exact ih (h.setBit position)

/-- The bits of the positions are set, and none is cleared. -/
theorem getBit_foldl (h : filter.Sized) (positions : List ℕ) (hpositions : ∀ p ∈ positions, p < filter.sizeBits)
    (i : ℕ) : (positions.foldl BloomFilter.setBit filter).getBit i = (decide (i ∈ positions) || filter.getBit i) := by
  induction positions generalizing filter with
  | nil => simp
  | cons position positions ih =>
    have hlt : position / 8 < filter.bitArray.length := by
      have := hpositions position mem_cons_self
      rw [h.2]
      omega
    rw [foldl_cons, ih (h.setBit position) fun p hp => hpositions p (mem_cons_of_mem _ hp), getBit_setBit hlt]
    by_cases hi : i = position <;> simp [hi]

theorem getBitPositions_lt (h : filter.Sized) (key : String) :
    ∀ p ∈ filter.getBitPositions parameters key, p < filter.sizeBits := by
  intro p hp
  obtain ⟨i, -, rfl⟩ := mem_map.mp hp
  exact Nat.mod_lt _ h.1

theorem getBitPositions_add (h : filter.Sized) (key other : String) :
    (filter.add parameters key).getBitPositions parameters other = filter.getBitPositions parameters other := by
  obtain ⟨-, hsize, hhashes⟩ := sized_foldl h (filter.getBitPositions parameters key)
  unfold getBitPositions add
  rw [hsize, hhashes]

/-- Adding a key keeps what may be contained, and adds the key. -/
theorem mightContain_add (h : filter.Sized) {key other : String}
    (hother : other = key ∨ filter.mightContain parameters other = true) :
    (filter.add parameters key).mightContain parameters other = true := by
  unfold mightContain at hother ⊢
  rw [all_eq_true, getBitPositions_add h]
  intro p hp
  rw [add, getBit_foldl h _ (getBitPositions_lt h key), Bool.or_eq_true, decide_eq_true_eq]
  rcases hother with rfl | hbits
  · exact .inl hp
  · exact .inr (all_eq_true.mp hbits p hp)

theorem mightContain_foldl_add (h : filter.Sized) (keys : List String) {key : String}
    (hkey : key ∈ keys ∨ filter.mightContain parameters key = true) :
    (keys.foldl (add parameters) filter).mightContain parameters key = true := by
  induction keys generalizing filter with
  | nil => exact hkey.resolve_left not_mem_nil
  | cons first keys ih =>
    refine ih (sized_foldl h _).1 ?_
    rcases hkey with hmem | hbits
    · rcases mem_cons.mp hmem with rfl | hmem
      · exact .inr (mightContain_add h (.inl rfl))
      · exact .inl hmem
    · exact .inr (mightContain_add h (.inr hbits))

end BloomFilter

end SystemDesign.KvStorage
