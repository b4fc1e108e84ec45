import SystemDesign.KvStorage.BloomFilter
import SystemDesign.KvStorage.Tables
import SystemDesign.Lib.Bisect

/-!
The file of a sorted table and how a key is looked up in it (`sstable.py`).

`SSTableFile` is what an `SSTable` object keeps in memory once it is loaded. `build` is the part of
`create_from_memtable` that computes it; where the blocks stand in the file, and how the footer is found again, has no
part here, and of the bytes behind the data block nothing is assumed. A timestamp is the eight bytes of its double.
-/

namespace SystemDesign.KvStorage

/-- `_INDEX_INTERVAL` -/
def indexInterval : ℕ := 16

structure IndexEntry where
  key : String
  offset : ℕ

instance : Inhabited IndexEntry := ⟨⟨"", 0⟩⟩

structure SSTableFile where
  rawData : List UInt8
  dataBlockSize : ℕ
  index : List IndexEntry
  bloomFilter : BloomFilter
  minKey : String
  maxKey : String

/-! ### Building -/

/-- An entry in the data block. -/
def packEntry (entry : Entry UInt64) : List UInt8 :=
  let keyBytes := utf8Bytes entry.key
  let valueBytes := entry.value.getD []
  littleEndian 4 keyBytes.length ++ (keyBytes ++ (littleEndian 4 valueBytes.length ++ (valueBytes ++
    (littleEndian 8 entry.timestamp.toNat ++ littleEndian 1 (if entry.isTombstone then 1 else 0)))))

/-- The key's and the value's length fit their fields; else `struct.pack` raises. -/
def Packable (entry : Entry UInt64) : Prop :=
  (utf8Bytes entry.key).length < 256 ^ 4 ∧ (entry.value.getD []).length < 256 ^ 4

instance (entry : Entry UInt64) : Decidable (Packable entry) := inferInstanceAs (Decidable (_ ∧ _))

/-- The locals of the loop over the entries. -/
structure Blocks where
  dataBlock : List UInt8
  index : List IndexEntry
  bloom : BloomFilter

/-- One round of the loop, for the `i`-th entry. -/
def addEntry (parameters : BloomParameters) (blocks : Blocks) (numbered : Entry UInt64 × ℕ) : Blocks :=
  let (entry, i) := numbered
  { dataBlock := blocks.dataBlock ++ packEntry entry
    index := if i % indexInterval = 0 then blocks.index ++ [⟨entry.key, blocks.dataBlock.length⟩] else blocks.index
    bloom := blocks.bloom.add parameters entry.key }

inductive BuildError where
  | valueError (message : String)
  | structError

/-- `behind` is what the file holds behind its data block. -/
def build (parameters : BloomParameters) (behind : List UInt8) (entries : List (Entry UInt64)) :
    Except BuildError SSTableFile :=
  match entries with
  | [] => .error (.valueError "Cannot create SSTable from empty MemTable")
  | first :: rest =>
    if ∀ entry ∈ first :: rest, Packable entry then
      let blocks := (first :: rest).zipIdx.foldl (addEntry parameters)
        ⟨[], [], BloomFilter.new parameters (max (first :: rest).length 1)⟩
      .ok
        { rawData := blocks.dataBlock ++ behind
          dataBlockSize := blocks.dataBlock.length
          index := blocks.index
          bloomFilter := blocks.bloom
          minKey := first.key
          maxKey := ((first :: rest).getLast (List.cons_ne_nil _ _)).key }
    else .error .structError

/-! ### Looking up -/

namespace SSTableFile

/-- `_read_entry_at`: the entry and where the next one stands. It fails where the data block ends within the entry, or
the key is no text. -/
def readEntryAt (table : SSTableFile) (pos : ℕ) : Option (Entry UInt64 × ℕ) := do
  let (keyLength, data) ← readNat 4 ((table.rawData.take table.dataBlockSize).drop pos)
  let (keyBytes, data) ← readBytes keyLength data
  let key ← ofUtf8Bytes keyBytes
  let (valueLength, data) ← readNat 4 data
  let (valueBytes, data) ← readBytes valueLength data
  let (timestamp, data) ← readNat 8 data
  let (tombstone, _) ← readNat 1 data
  let isTombstone := tombstone = 1
  return (⟨key, if isTombstone then none else some valueBytes, UInt64.ofNat timestamp, isTombstone⟩,
    pos + 4 + keyLength + 4 + valueLength + 8 + 1)

theorem readEntryAt_lt {table : SSTableFile} {pos next : ℕ} {entry : Entry UInt64}
    (h : table.readEntryAt pos = some (entry, next)) : pos < next := by
  unfold readEntryAt at h
  simp only [Option.bind_eq_bind, Option.bind_eq_some_iff, Option.pure_def, Option.some.injEq, Prod.mk.injEq] at h
  obtain ⟨_, _, _, _, _, _, _, _, _, _, _, _, _, _, -, rfl⟩ := h
  omega

/-- `_scan_data_block` -/
def scanDataBlock (table : SSTableFile) (key : String) (pos endOffset : ℕ) : Option (Entry UInt64) :=
  if pos < endOffset then
    match _hread : table.readEntryAt pos with
    | none => none
    | some (entry, next) =>
      if entry.key = key then some entry
      else if key < entry.key then none
      else table.scanDataBlock key next endOffset
  else none
termination_by endOffset - pos
decreasing_by
  have := readEntryAt_lt _hread
  omega

/-- `_find_scan_range` -/
def findScanRange (table : SSTableFile) (key : String) : ℕ × ℕ :=
  if table.index.isEmpty then (0, table.dataBlockSize)
  else
    let resultIdx := searchLast (fun mid => (table.index.getD mid default).key ≤ key) 0 (table.index.length - 1) 0
    ((table.index.getD resultIdx default).offset,
      if resultIdx + 1 < table.index.length then (table.index.getD (resultIdx + 1) default).offset
      else table.dataBlockSize)

def get (parameters : BloomParameters) (table : SSTableFile) (key : String) : Option (Entry UInt64) :=
  if ¬ table.bloomFilter.mightContain parameters key then none
  else if key < table.minKey ∨ table.maxKey < key then none
  else
    let (startOffset, endOffset) := table.findScanRange key
    table.scanDataBlock key startOffset endOffset

/-- The loop of `entries`. -/
def entriesFrom (table : SSTableFile) (pos : ℕ) : List (Entry UInt64) :=
  if pos < table.dataBlockSize then
    match _hread : table.readEntryAt pos with
    | none => []
    | some (entry, next) => entry :: table.entriesFrom next
  else []
termination_by table.dataBlockSize - pos
decreasing_by
  have := readEntryAt_lt _hread
  omega

def entries (table : SSTableFile) : List (Entry UInt64) := table.entriesFrom 0

end SSTableFile

end SystemDesign.KvStorage
