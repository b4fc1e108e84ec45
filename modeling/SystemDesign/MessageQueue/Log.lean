import SystemDesign.Lib.Sha256
import SystemDesign.Lib.Binary
import SystemDesign.Lib.Json
import SystemDesign.Lib.Locked
import SystemDesign.Lib.SortedMap

/-!
The log of a partition (`log.py`): frames in segment files, the index over them, and reading, appending, aligning,
retaining and synchronizing.

A segment file is named by a number with twenty digits, so that the names sort as the numbers do; `segments` are the
files in this order. The disk does not fail. Of the index files, which are only written, nothing is kept, and of a
value only what the log looks at besides the value itself.
-/

namespace SystemDesign.MessageQueue.Partition

abbrev Bytes := List UInt8

/-- `Error`, its subclass `Corruption` and the exceptions of Python that the checks of a value raise. -/
inductive LogError where
  | error (status : ℕ) (message : String)
  | corruption (message : String)
  | valueError (message : String)
  | keyError (key : String)
  | overflowError
deriving DecidableEq

/-- `HEADER.size` -/
def headerSize : ℕ := 12

def maxFrameBytes : ℕ := 2 * 1024 * 1024

def maxBatchBytes : ℕ := 24 * 1024 * 1024

def maxBatchRecords : ℕ := 10000

/-! ### Values -/

def integer (value minimum : ℤ) : Except LogError Unit :=
  require (minimum ≤ value ∧ value ≤ 2 ^ 53 - 1) (.valueError "invalid integer")

def isHash (text : String) : Bool := text.toList.length = 64 && text.toList.all fun c => c ∈ "0123456789abcdef".toList

def checkHash (text : String) : Except LogError Unit := require (isHash text) (.valueError "invalid chain hash")

/-- `ZERO` -/
def zero : String := String.ofList (List.replicate 64 '0')

structure Envelope where
  value : Json
  offset : ℤ
  timestamp : Json
  previous : String
  hash : String

/-- `value[key]` -/
def item (value : Json) (key : String) : Except LogError Json :=
  match value.get? key with
  | some field => .ok field
  | none => .error (.keyError key)

/-- `integer(record["offset"])` -/
def offsetOf (record : Json) : Except LogError ℤ := do
  match ← item record "offset" with
  | .int offset => do
    integer offset 0
    return offset
  | _ => .error (.valueError "invalid integer")

/-- A finite number; `math.isfinite` raises for an integer beyond the floats. -/
def checkTimestamp : Json → Except LogError Unit
  | .float _ => .ok ()
  | .int n => if 2 ^ 1024 - 2 ^ 970 ≤ n.natAbs then .error .overflowError else .ok ()
  | _ => .error (.valueError "invalid record timestamp")

def hashOf (value : Json) (key : String) : Except LogError String := do
  match ← item value key with
  | .str text => do
    checkHash text
    return text
  | _ => .error (.valueError "invalid chain hash")

def envelope (record : Json) (previous : String) : Json :=
  .obj [("record", record), ("previous", .str previous), ("hash", .str (Sha256.hexdigest (previous ++ record.encode)))]

/-- `set(value) == {"record", "previous", "hash"}` of an object -/
def hasFields (value : Json) : Bool :=
  match value.keys? with
  | some keys => keys.all (· ∈ ["record", "previous", "hash"]) && ["record", "previous", "hash"].all (· ∈ keys)
  | none => false

/-- `_value` -/
def valueOf (payload : Bytes) : Except LogError Envelope :=
  match (ofUtf8Bytes payload).bind Json.loads with
  | none => .error (.valueError "invalid JSON")
  | some value => do
    require (hasFields value) (.valueError "invalid envelope")
    let record ← item value "record"
    require record.keys?.isSome (.valueError "record object required")
    let offset ← offsetOf record
    let timestamp ← item record "timestamp"
    checkTimestamp timestamp
    let previous ← hashOf value "previous"
    let hash ← hashOf value "hash"
    -- of the fields of `envelope(record, previous)` the hash is the one that may differ
    require (Sha256.hexdigest (previous ++ record.encode) = hash) (.valueError "invalid envelope/hash")
    return ⟨value, offset, timestamp, previous, hash⟩

/-- A value and its payload, of a length that a frame may have. -/
structure Stored where
  value : Envelope
  payload : Bytes
  parsed : valueOf payload = .ok value
  bounded : 0 < payload.length ∧ payload.length ≤ maxFrameBytes

/-- The size of the record's frame. -/
def Stored.size (stored : Stored) : ℕ := headerSize + stored.payload.length

/-- The loop of `_prepare`. -/
def prepareFrom : List Json → ℤ → String → ℕ → Except LogError (List Stored)
  | [], _, _, _ => .ok []
  | source :: rest, base, previous, total =>
    let payload := utf8Bytes source.encode
    let total := total + (headerSize + payload.length)
    if hbounded : (0 < payload.length ∧ payload.length ≤ maxFrameBytes) ∧ total ≤ maxBatchBytes then
      match hparsed : valueOf payload with
      | .error e => .error e
      | .ok value => do
        require (value.offset = base ∧ value.previous = previous) (.error 409 "offset/hash append conflict")
        let prepared ← prepareFrom rest (base + 1) value.hash total
        return ⟨value, payload, hparsed, hbounded.1⟩ :: prepared
    else .error (.error 413 "record batch exceeds reference byte limit")

/-- `_prepare` -/
def prepare (values : List Json) (base : ℤ) (previous : String) : Except LogError (List Stored) :=
  if values.length > maxBatchRecords then .error (.valueError "record batch exceeds reference limit")
  else prepareFrom values base previous 0

/-! ### The log -/

structure Entry where
  path : ℤ
  position : ℕ
  size : ℕ
  hash : String
  timestamp : Json

structure Manifest where
  base : ℤ
  baseHash : String
  epoch : ℤ
  committed : ℤ

structure PartitionLog where
  segmentBytes : ℕ
  manifest : Manifest
  segments : List (ℤ × Bytes)
  entries : SortedMap ℤ Entry
  nextOffset : ℤ
  failed : Bool

/-- The `entry` of a value in a frame. -/
def entryOf (path : ℤ) (position : ℕ) (value : Envelope) (size : ℕ) : Entry :=
  ⟨path, position, headerSize + size, value.hash, value.timestamp⟩

/-! ### Frames -/

/-- `MQ01` -/
def magic : Bytes := [0x4d, 0x51, 0x30, 0x31]

def frame (payload : Bytes) : Bytes :=
  magic ++ (Sha256.bigEndian 4 payload.length ++ (Sha256.bigEndian 4 (Crc32.crc32 payload) ++ payload))

/-- What stands at the front of the data. -/
inductive FrameRead where
  | done
  | torn
  | corrupt (message : String)
  | frame (payload rest : Bytes)

def readFrame (data : Bytes) : FrameRead :=
  let header := data.take headerSize
  let size := ofBigEndian ((header.drop 4).take 4)
  let payload := (data.drop headerSize).take size
  if header.isEmpty then .done
  else if header.length ≠ headerSize then .torn
  else if header.take 4 ≠ magic ∨ ¬ (0 < size ∧ size ≤ maxFrameBytes) then .corrupt "invalid log frame header"
  else if payload.length ≠ size then .torn
  else if Crc32.crc32 payload ≠ ofBigEndian (header.drop 8) then .corrupt "log CRC mismatch"
  else .frame payload ((data.drop headerSize).drop size)

/-! ### Scanning -/

/-- The locals of `_scan`. -/
structure Scan where
  entries : SortedMap ℤ Entry
  expected : ℤ
  previous : String

/-- One frame of `_scan`. -/
def scanFrame (base path : ℤ) (position : ℕ) (payload : Bytes) (scan : Scan) : Except LogError Scan :=
  match valueOf payload with
  | .error _ => .error (.corruption "invalid envelope/hash")
  | .ok value =>
    if value.offset < base then .ok scan
    else if value.offset ≠ scan.expected ∨ value.previous ≠ scan.previous then
      .error (.corruption "noncontiguous offset/hash chain")
    else
      .ok ⟨scan.entries.insert value.offset (entryOf path position value payload.length), scan.expected + 1, value.hash⟩

/-- The frames of one file from a position on, and where they end; only the last file may end within a frame. The
fuel is one more than the number of bytes. -/
def scanFile (base path : ℤ) (active : Bool) : ℕ → Bytes → ℕ → Scan → Except LogError (Scan × ℕ)
  | 0, _, position, scan => .ok (scan, position)
  | fuel + 1, data, position, scan =>
    match readFrame data with
    | .done => .ok (scan, position)
    | .torn => if active then .ok (scan, position) else .error (.corruption "torn non-active segment")
    | .corrupt message => .error (.corruption message)
    | .frame payload rest => do
      let scan ← scanFrame base path position payload scan
      scanFile base path active fuel rest (position + (headerSize + payload.length)) scan

/-- The files in order, and what is left of them. -/
def scanSegments (base : ℤ) : List (ℤ × Bytes) → Scan → Except LogError (Scan × List (ℤ × Bytes))
  | [], scan => .ok (scan, [])
  | (path, data) :: rest, scan => do
    let (scan, stop) ← scanFile base path rest.isEmpty (data.length + 1) data 0 scan
    let (scan, segments) ← scanSegments base rest scan
    return (scan, (path, data.take stop) :: segments)

open Locked

/-- `_scan` -/
def scan : Locked LogError PartitionLog Unit := do
  let log ← Locked.read id
  let (scan, segments) ← lift (scanSegments log.manifest.base log.segments
    ⟨SortedMap.empty, log.manifest.base, log.manifest.baseHash⟩)
  effect fun log => { log with segments }
  lift (require (log.manifest.committed < scan.expected) (.corruption "committed prefix was truncated"))
  effect fun log => { log with entries := scan.entries, nextOffset := scan.expected }

/-- `except (OSError, Corruption): self._failed = True` -/
def failing {α : Type} (program : Locked LogError PartitionLog α) : Locked LogError PartitionLog α :=
  ExceptT.mk fun log =>
    match program.exec log with
    | (.error (.corruption message), log) => (.error (.corruption message), { log with failed := true })
    | result => result

/-- `_serialized` -/
def checkAvailable : Locked LogError PartitionLog Unit := do
  let failed ← Locked.read PartitionLog.failed
  lift (require (failed = false) (.corruption "partition requires reopening after a failed disk update"))

/-! ### Operations -/

def PartitionLog.hashAt (log : PartitionLog) (offset : ℤ) : Option String :=
  if offset = log.manifest.base - 1 then some log.manifest.baseHash else (log.entries.get? offset).map Entry.hash

/-- `hash_at` -/
def hashAt (offset : ℤ) : Locked LogError PartitionLog (Option String) := do
  checkAvailable
  lift (integer offset (-1))
  Locked.read fun log => log.hashAt offset

/-- A partition that has just been made. -/
def PartitionLog.new (segmentBytes : ℕ) : PartitionLog :=
  { segmentBytes
    manifest := ⟨0, zero, 0, -1⟩
    segments := []
    entries := SortedMap.empty
    nextOffset := 0
    failed := false }

/-- The bytes of the file that an entry names, from its position on. -/
def PartitionLog.dataAt (log : PartitionLog) (entry : Entry) : Bytes :=
  ((log.segments.lookup entry.path).getD []).drop entry.position

/-- What `read` does with one entry. -/
def PartitionLog.readEntry (log : PartitionLog) (entry : Entry) : Except LogError Envelope :=
  match readFrame (log.dataAt entry) with
  | .done => .error (.corruption "log truncated after indexing")
  | .torn => .error (.corruption "log changed/corrupted after indexing")
  | .corrupt message => .error (.corruption message)
  | .frame payload _ =>
    if headerSize + payload.length ≠ entry.size then .error (.corruption "log frame changed after indexing")
    else
      match valueOf payload with
      | .error _ => .error (.corruption "invalid envelope after indexing")
      | .ok value =>
        if value.hash ≠ entry.hash then .error (.corruption "log hash mismatch after indexing") else .ok value

/-- The loop of `read` over the numbers. -/
def PartitionLog.readNumbers (log : PartitionLog) : List ℤ → ℕ → Except LogError (List Envelope)
  | [], _ => .ok []
  | number :: rest, total =>
    match log.entries.get? number with
    | none => .error (.keyError (toString number))
    | some entry =>
      if total + entry.size > maxBatchBytes then .ok []
      else do
        let value ← log.readEntry entry
        let values ← log.readNumbers rest (total + entry.size)
        return value :: values

def numbersFrom (start : ℤ) : ℕ → List ℤ
  | 0 => []
  | count + 1 => start :: numbersFrom (start + 1) count

/-- `range(start, stop)` -/
def numbers (start stop : ℤ) : List ℤ := numbersFrom start (stop - start).toNat

def read (offset : ℤ) (limit : ℤ) : Locked LogError PartitionLog (List Envelope) := do
  checkAvailable
  lift (integer offset 0)
  lift (require (1 ≤ limit ∧ limit ≤ maxBatchRecords) (.valueError "invalid integer"))
  let log ← Locked.read id
  lift (require (log.manifest.base ≤ offset) (.error 410 "offset expired by retention"))
  failing (lift (log.readNumbers (numbers offset (min log.nextOffset (offset + limit))) 0))

/-- Where each record goes: behind the last one of the current file, or to the front of a new file. -/
def placeRows (segmentBytes : ℕ) : Option ℤ → ℕ → List Stored → List (ℤ × ℕ × Stored)
  | _, _, [] => []
  | path, position, stored :: rest =>
    match path with
    | none => (stored.value.offset, 0, stored) ::
        placeRows segmentBytes (some stored.value.offset) stored.size rest
    | some path =>
      if position + stored.size > segmentBytes then
        (stored.value.offset, 0, stored) :: placeRows segmentBytes (some stored.value.offset) stored.size rest
      else (path, position, stored) :: placeRows segmentBytes (some path) (position + stored.size) rest

/-- `path.open("ab")` and a write -/
def appendFile (path : ℤ) (data : Bytes) : List (ℤ × Bytes) → List (ℤ × Bytes)
  | [] => [(path, data)]
  | (other, content) :: rest =>
    if path < other then (path, data) :: (other, content) :: rest
    else if path = other then (path, content ++ data) :: rest
    else (other, content) :: appendFile path data rest

/-- A row's frame is written and its entry is noted. -/
def writeRow (log : PartitionLog) (row : ℤ × ℕ × Stored) : PartitionLog :=
  { log with
    segments := appendFile row.1 (frame row.2.2.payload) log.segments
    entries := log.entries.insert row.2.2.value.offset (entryOf row.1 row.2.1 row.2.2.value row.2.2.payload.length)
    nextOffset := log.nextOffset + 1 }

/-- `_append_prepared` -/
def appendPrepared (prepared : List Stored) (log : PartitionLog) : PartitionLog :=
  let last := log.segments.getLast?
  (placeRows log.segmentBytes (last.map Prod.fst) ((last.map fun file => file.2.length).getD 0) prepared).foldl
    writeRow log

/-- The files up to the one of the entry, which ends at its position. -/
def truncateAt (entry : Entry) (segments : List (ℤ × Bytes)) : List (ℤ × Bytes) :=
  (segments.filter fun file => file.1 ≤ entry.path).map fun file =>
    if file.1 = entry.path then (file.1, file.2.take entry.position) else file

/-- The suffix from the cutoff on is removed from the files. -/
def truncateSuffix (cutoff : ℤ) : Locked LogError PartitionLog Unit := do
  let log ← Locked.read id
  if cutoff < log.nextOffset then
    match log.entries.get? cutoff with
    | none => lift (.error (.keyError (toString cutoff)))
    | some entry => effect fun log => { log with segments := truncateAt entry log.segments }
  else lift (.ok ())

def align (epoch committed : ℤ) (committedHash : String) : Locked LogError PartitionLog Unit := do
  checkAvailable
  lift (integer epoch 0)
  lift (integer committed (-1))
  lift (checkHash committedHash)
  let log ← Locked.read id
  lift (require (log.manifest.epoch ≤ epoch) (.error 409 "stale leader epoch"))
  lift (require (log.manifest.committed ≤ committed) (.error 409 "committed checkpoint cannot move backwards"))
  let known ← hashAt committed
  lift (require (known = some committedHash) (.error 409 "committed prefix mismatch; snapshot catchup required"))
  effect fun log => { log with manifest := { log.manifest with epoch, committed } }
  failing do
    truncateSuffix (committed + 1)
    scan

/-- The files that hold an entry from the base on, and the last file. -/
def keepNeeded (base : ℤ) (entries : SortedMap ℤ Entry) (segments : List (ℤ × Bytes)) : List (ℤ × Bytes) :=
  (segments.dropLast.filter fun file =>
    entries.entries.any fun e => decide (base ≤ e.1) && decide (e.2.path = file.1)) ++ segments.getLast?.toList

def retain (base : ℤ) (baseHash : String) : Locked LogError PartitionLog Unit := do
  checkAvailable
  lift (integer base 0)
  lift (checkHash baseHash)
  let log ← Locked.read id
  let known ← hashAt (base - 1)
  lift (require ((log.manifest.base ≤ base ∧ base ≤ log.nextOffset) ∧ known = some baseHash)
    (.error 409 "invalid retention checkpoint"))
  effect fun log => { log with
    manifest := { log.manifest with base, baseHash, committed := max log.manifest.committed (base - 1) } }
  failing do
    effect fun log => { log with segments := keepNeeded base log.entries log.segments }
    scan

def append (values : List Json) : Locked LogError PartitionLog Unit := do
  checkAvailable
  let log ← Locked.read id
  let previous ← hashAt (log.nextOffset - 1)
  -- the hash before the next offset is always there; values are compared with it
  let prepared ← lift (prepare values log.nextOffset (previous.getD ""))
  effect (appendPrepared prepared)

/-- `if base > self.base: self.retain(base, base_hash)` -/
def advanceBase (base : ℤ) (baseHash : String) : Locked LogError PartitionLog Unit := do
  let log ← Locked.read id
  if log.manifest.base < base then retain base baseHash else lift (.ok ())

def synchronize (epoch committed : ℤ) (committedHash : String) (base : ℤ) (baseHash : String) (values : List Json) :
    Locked LogError PartitionLog Unit := do
  checkAvailable
  lift (integer committed (-1))
  lift (integer base 0)
  lift (checkHash committedHash)
  lift (checkHash baseHash)
  let prepared ← lift (prepare values (committed + 1) committedHash)
  let log ← Locked.read id
  lift (require (log.manifest.base ≤ base ∧ base ≤ committed + 1) (.error 409 "invalid sync retention checkpoint"))
  let known ← hashAt (base - 1)
  lift (require (known = some baseHash) (.error 409 "invalid sync retention checkpoint"))
  -- everything incoming is validated before a provisional suffix is truncated
  align epoch committed committedHash
  advanceBase base baseHash
  effect (appendPrepared prepared)

end SystemDesign.MessageQueue.Partition
