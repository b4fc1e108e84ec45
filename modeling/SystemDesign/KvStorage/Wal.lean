import SystemDesign.KvStorage.Tables
import SystemDesign.Lib.Binary

/-!
The write-ahead log (`wal.py`): the frame of an entry, reading a file of frames back, and what the engine's start does
with the entries.

A file is its bytes, or `none` where there is no file. A timestamp is the eight bytes of its double. Reading works
from the front: what is left of the data stands for the offset, and `completeEnd` counts from the front of what is left.
-/

namespace SystemDesign.KvStorage.Wal

inductive WALEntryType where
  | put
  | delete
deriving DecidableEq

structure WALEntry where
  sequenceNumber : ℕ
  entryType : WALEntryType
  key : String
  value : Option (List UInt8)
  timestamp : UInt64
deriving DecidableEq

inductive WalError where
  | unicodeDecodeError
deriving DecidableEq

/-- `_ENTRY_TYPE_TO_BYTE` -/
def entryTypeToByte : WALEntryType → ℕ
  | .put => 0
  | .delete => 1

/-- `_BYTE_TO_ENTRY_TYPE` -/
def byteToEntryType : ℕ → Option WALEntryType
  | 0 => some .put
  | 1 => some .delete
  | _ => none

/-! ### Frames -/

/-- What the checksum covers: the sequence number through the timestamp. -/
def checksummedData (entry : WALEntry) : List UInt8 :=
  let keyBytes := utf8Bytes entry.key
  let valueBytes := entry.value.getD []
  littleEndian 8 entry.sequenceNumber ++ (littleEndian 1 (entryTypeToByte entry.entryType) ++
    (littleEndian 4 keyBytes.length ++ (keyBytes ++ (littleEndian 4 valueBytes.length ++ (valueBytes ++
      littleEndian 8 entry.timestamp.toNat)))))

def payloadOf (entry : WALEntry) : List UInt8 :=
  checksummedData entry ++ littleEndian 4 (Crc32.crc32 (checksummedData entry))

/-- `_serialize_entry`; nothing where a field does not fit its format (`struct.error`). -/
def serializeEntry (entry : WALEntry) : Option (List UInt8) :=
  if entry.sequenceNumber < 256 ^ 8 ∧ (utf8Bytes entry.key).length < 256 ^ 4 ∧ (entry.value.getD []).length < 256 ^ 4
      ∧ (payloadOf entry).length < 256 ^ 4 then
    some (littleEndian 4 (payloadOf entry).length ++ payloadOf entry)
  else none

/-! ### Reading back -/

/-- The part of `_deserialize_entry` behind the checksum. -/
def parseChecksummed (data : List UInt8) : Except WalError (Option WALEntry) :=
  match readNat 8 data with
  | none => .ok none
  | some (sequenceNumber, data) =>
  match readNat 1 data with
  | none => .ok none
  | some (entryTypeByte, data) =>
  match byteToEntryType entryTypeByte with
  | none => .ok none
  | some entryType =>
  match readNat 4 data with
  | none => .ok none
  | some (keyLength, data) =>
  match readBytes keyLength data with
  | none => .ok none
  | some (keyBytes, data) =>
  match ofUtf8Bytes keyBytes with
  | none => .error .unicodeDecodeError
  | some key =>
  match readNat 4 data with
  | none => .ok none
  | some (valueLength, data) =>
  match readBytes valueLength data with
  | none => .ok none
  | some (valueBytes, data) =>
  match readNat 8 data with
  | none => .ok none
  | some (timestamp, _) =>
    let value := if valueLength > 0 then some valueBytes else none
    .ok (some ⟨sequenceNumber, entryType, key, value, UInt64.ofNat timestamp⟩)

/-- The data in front of the checksum, and the stored checksum. -/
def splitChecksum (entryData : List UInt8) : List UInt8 × ℕ :=
  (entryData.take (entryData.length - 4), ofLittleEndian (entryData.drop (entryData.length - 4)))

def deserializeEntry (entryData : List UInt8) : Except WalError (Option WALEntry) :=
  if entryData.length < 4 then .ok none
  else if Crc32.crc32 (splitChecksum entryData).1 ≠ (splitChecksum entryData).2 then .ok none
  else parseChecksummed (splitChecksum entryData).1

/-- The loop of `_read_all_entries`: the entries, and the end of the last complete frame. -/
def readFrames (data : List UInt8) : Except WalError (List WALEntry × ℕ) :=
  match _hlength : readNat 4 data with
  -- nothing left, or a length field cut short
  | none => .ok ([], 0)
  | some (entryLength, rest) =>
    match _hentry : readBytes entryLength rest with
    -- an entry cut short
    | none => .ok ([], 0)
    | some (entryData, rest) => do
      let entry ← deserializeEntry entryData
      let (entries, completeEnd) ← readFrames rest
      return (entry.toList ++ entries, 4 + entryLength + completeEnd)
termination_by data.length
decreasing_by
  obtain ⟨rfl, -⟩ := readNat_eq_some.mp _hlength
  obtain ⟨rfl, -⟩ := readBytes_eq_some.mp _hentry
  simp only [List.length_append, length_littleEndian]
  omega

/-- `_read_all_entries`: the entries and the file it leaves. -/
def readAllEntries (file : Option (List UInt8)) : Except WalError (List WALEntry × Option (List UInt8)) :=
  match file with
  | none => .ok ([], none)
  | some data => do
    let (entries, completeEnd) ← readFrames data
    return (entries, some (if completeEnd < data.length then data.take completeEnd else data))

/-! ### The engine's start -/

variable {τ : Type} [LinearOrder τ]

/-- One entry of the replay; `time` reads a timestamp. -/
def replayEntry (time : UInt64 → τ) (memtable : MemTable τ) (entry : WALEntry) : MemTable τ :=
  match entry.entryType with
  | .put => memtable.put entry.key (entry.value.getD []) (time entry.timestamp)
  | .delete => memtable.delete entry.key (time entry.timestamp)

def replayInto (time : UInt64 → τ) (entries : List WALEntry) (memtable : MemTable τ) : MemTable τ :=
  entries.foldl (replayEntry time) memtable

end SystemDesign.KvStorage.Wal
