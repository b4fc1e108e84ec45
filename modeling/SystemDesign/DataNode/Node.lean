import SystemDesign.Lib.Binary
import SystemDesign.Lib.Dict
import SystemDesign.Lib.Durable
import SystemDesign.Lib.Sha256

/-!
A data node (`node.py`): small chunks in an append file, large ones in files of their own.

A chunk is named by the bytes of its digest, which the program writes in hexadecimal;
times are the bit patterns of the doubles that `struct` packs, and `aged` is the comparison
`created <= now - grace` of one `collect` call. `index.sqlite` survives a crash and its
transactions are atomic, as are `os.replace`, `touch` and `unlink`; an append is one effect a
byte. Temporary files are not modelled: nothing reads them. A call that meets no crash
meets no other failure of the file system, so `_needs_recovery` is false between calls.
-/

namespace SystemDesign.DataNode

abbrev Chunk := List UInt8

abbrev ChunkKey := List UInt8

/-- Exceptions: `Error(status, message)`, `ValueError` and those of the file system. -/
inductive NodeError where
  | error (status : ℕ) (message : String)
  | valueError (message : String)
  | fileNotFound (name : String)
  | fileExists (name : String)

inductive ChunkKind where
  | pack
  | large
deriving DecidableEq

/-- A row of `chunks`. -/
structure ChunkRow where
  kind : ChunkKind
  offset : ℕ
  size : ℕ
  created : UInt64

structure LargeFile where
  data : Chunk
  mtime : UInt64

structure NodeDisk where
  current : Option String
  packs : Dict String (List UInt8)
  large : Dict ChunkKey LargeFile
  index : Dict ChunkKey ChunkRow

abbrev Node (α : Type) := Durable NodeError NodeDisk α

def chunkLimit : ℕ := 256 * 1024

def small : ℕ := 64 * 1024

def headerSize : ℕ := 48

def footerSize : ℕ := 4

def checksum (key : ChunkKey) : Except NodeError Unit :=
  if key.length = 32 then .ok () else .error (.valueError "expected lowercase SHA256")

/-- Finite and not below zero; minus zero is not. -/
def validTime (t : UInt64) : Bool := t < 0x7ff0000000000000 || t = 0x8000000000000000

def checkNow (now : UInt64) : Except NodeError Unit :=
  if validTime now then .ok () else .error (.valueError "invalid node clock")

/-! ### Records -/

/-- The inverse of `Sha256.bigEndian`. -/
def fromBigEndian (bytes : List UInt8) : ℕ := bytes.foldl (fun n b => 256 * n + b.toNat) 0

/-- `S3P1` -/
def putMagic : List UInt8 := [0x53, 0x33, 0x50, 0x31]

/-- `S3D1` -/
def deleteMagic : List UInt8 := [0x53, 0x33, 0x44, 0x31]

/-- `HEADER.pack` of `>4sI32sd` -/
def header (magic : List UInt8) (size : ℕ) (key : ChunkKey) (created : UInt64) : List UInt8 :=
  magic ++ Sha256.bigEndian 4 size ++ key ++ Sha256.bigEndian 8 created.toNat

def record (key : ChunkKey) (data : Chunk) (created : UInt64) (delete : Bool) : List UInt8 :=
  let h := header (if delete then deleteMagic else putMagic) data.length key created
  h ++ data ++ Sha256.bigEndian 4 (Crc32.crc32 (h ++ data))

/-! ### Reading -/

/-- What `get` reads of the file that a row names. -/
def readRow (d : NodeDisk) (pack : String) (key : ChunkKey) (row : ChunkRow) :
    Except NodeError Chunk :=
  match row.kind with
  | .large =>
    match d.large.get? key with
    | none => .error (.error 404 "chunk file missing")
    | some f => .ok (f.data.take (chunkLimit + 1))
  | .pack =>
    match d.packs.get? pack with
    | none => .error (.fileNotFound pack)
    | some bytes => .ok ((bytes.drop row.offset).take row.size)

/-- The part of `get` inside the transaction. -/
def getIndexed (d : NodeDisk) (pack : String) (key : ChunkKey) : Except NodeError Chunk :=
  match d.index.get? key with
  | none => .error (.error 404 "chunk missing")
  | some row =>
    if row.size > chunkLimit then .error (.error 409 "invalid chunk index") else do
    let data ← readRow d pack key row
    if data.length ≠ row.size ∨ Sha256.digest data ≠ key
    then .error (.error 409 "chunk integrity check failed") else .ok data

def get (d : NodeDisk) (pack : String) (key : ChunkKey) : Except NodeError Chunk := do
  checksum key
  getIndexed d pack key

/-! ### Writing -/

def setPack (pack : String) (bytes : List UInt8) (d : NodeDisk) : NodeDisk := { d with packs := d.packs.set pack bytes }

def appendByte (pack : String) (b : UInt8) (d : NodeDisk) : NodeDisk :=
  setPack pack ((d.packs.get? pack).getD [] ++ [b]) d

def writeBytes (pack : String) (bytes : List UInt8) : Node Unit :=
  Durable.each (fun b => Durable.effect (appendByte pack b)) bytes

/-- `_append`: where the data of the new record is. -/
def append (pack : String) (key : ChunkKey) (data : Chunk) (created : UInt64) (delete : Bool) :
    Node ℕ := do
  let d ← Durable.read
  match d.packs.get? pack with
  | none => Durable.lift (.error (.fileNotFound pack))
  | some bytes => do
    writeBytes pack (record key data created delete)
    pure (bytes.length + headerSize)

def setRow (key : ChunkKey) (row : ChunkRow) (d : NodeDisk) : NodeDisk := { d with index := d.index.set key row }

def eraseRow (key : ChunkKey) (d : NodeDisk) : NodeDisk := { d with index := d.index.erase key }

def setLarge (key : ChunkKey) (f : LargeFile) (d : NodeDisk) : NodeDisk := { d with large := d.large.set key f }

def eraseLarge (key : ChunkKey) (d : NodeDisk) : NodeDisk := { d with large := d.large.erase key }

/-- The part of `put` that writes. -/
def store (pack : String) (key : ChunkKey) (data : Chunk) (now mtime : UInt64) : Node Unit := do
  Durable.lift (checkNow now)
  if data.length ≤ small then do
    let offset ← append pack key data now false
    Durable.effect (setRow key ⟨.pack, offset, data.length, now⟩)
  else do
    Durable.effect (setLarge key ⟨data, mtime⟩)
    Durable.effect (setRow key ⟨.large, 0, data.length, now⟩)

/-- Whether the chunk was there already. -/
def put (pack : String) (key : ChunkKey) (data : Chunk) (now mtime : UInt64) : Node Bool := do
  Durable.lift (checksum key)
  if data.length > chunkLimit ∨ Sha256.digest data ≠ key then
    Durable.lift (.error (.error 400 "chunk size/checksum mismatch"))
  else do
    let d ← Durable.read
    match get d pack key with
    | .ok old =>
      if old = data then pure true else do
      store pack key data now mtime
      pure false
    | .error (.error status message) =>
      if status ≠ 404 ∧ status ≠ 409 then Durable.lift (.error (.error status message)) else do
      store pack key data now mtime
      pure false
    | .error e => Durable.lift (.error e)

/-- The rows that a `collect` picks. -/
def candidates (d : NodeDisk) (live : List ChunkKey) (aged : UInt64 → Bool) : List (ChunkKey × ChunkRow) :=
  d.index.entries.filter fun e => aged e.2.created && !live.contains e.1

def removeRow (pack : String) (now : UInt64) (e : ChunkKey × ChunkRow) : Node Unit := do
  match e.2.kind with
  | .pack => do
    let _ ← append pack e.1 [] now true
    Durable.effect (eraseRow e.1)
  | .large => do
    Durable.effect (eraseLarge e.1)
    Durable.effect (eraseRow e.1)

/-- `generation` is what the caller captured, `own` what the node has now. -/
def collect (pack own : String) (live : List ChunkKey) (aged : UInt64 → Bool) (grace : ℤ)
    (generation : Option String) (now : UInt64) : Node ℕ := do
  Durable.lift (if 0 ≤ grace ∧ grace ≤ 86400 then .ok () else .error (.valueError "invalid grace"))
  Durable.lift (if live.length ≤ 50000 then .ok ()
    else .error (.valueError "live references require at most 50000 hashes"))
  Durable.lift (if live.all fun k => k.length = 32 then .ok ()
    else .error (.valueError "expected lowercase SHA256"))
  Durable.lift (if generation.all fun g => g = own then .ok ()
    else .error (.error 409 "GC generation changed; rebuild live references"))
  Durable.lift (checkNow now)
  let d ← Durable.read
  Durable.each (removeRow pack now) (candidates d live aged)
  pure (candidates d live aged).length

/-! ### Recovery -/

/-- The loop of `_recover`: the rows of the records read, and where the last one ends. -/
def scan : ℕ → ℕ → List UInt8 → Dict ChunkKey ChunkRow → Except NodeError (Dict ChunkKey ChunkRow × ℕ)
  | 0, start, _, index => .ok (index, start)
  | fuel + 1, start, rest, index =>
    let head := rest.take headerSize
    -- the end of the file, or a header that was cut off
    if head.length < headerSize then .ok (index, start) else
    let magic := head.take 4
    let size := fromBigEndian ((head.drop 4).take 4)
    let key := (head.drop 8).take 32
    let created := UInt64.ofNat (fromBigEndian (head.drop 40))
    if (magic ≠ putMagic ∧ magic ≠ deleteMagic) ∨ size > small ∨ (magic = deleteMagic ∧ size ≠ 0) ∨
        validTime created = false then
      .error (.error 409 "pack header corrupt; operator recovery required")
    else
    let data := (rest.drop headerSize).take size
    let footer := (rest.drop (headerSize + size)).take footerSize
    if data.length ≠ size ∨ footer.length ≠ footerSize then .ok (index, start) else
    let after := rest.drop (headerSize + size + footerSize)
    let next := start + (headerSize + size + footerSize)
    if fromBigEndian footer ≠ Crc32.crc32 (head ++ data) then scan fuel next after (index.erase key)
    else if magic = deleteMagic then scan fuel next after (index.erase key)
    else if Sha256.digest data = key then
      scan fuel next after (index.set key ⟨.pack, start + headerSize, size, created⟩)
    else scan fuel next after index

/-- The large files are rows of their own. -/
def indexLarge (large : Dict ChunkKey LargeFile) (index : Dict ChunkKey ChunkRow) :
    Dict ChunkKey ChunkRow :=
  large.entries.foldl (fun index e =>
    let data := e.2.data.take (chunkLimit + 1)
    if data.length ≤ chunkLimit ∧ Sha256.digest data = e.1
    then index.set e.1 ⟨.large, 0, data.length, e.2.mtime⟩ else index) index

/-- `_recover`; a file without a torn record is not truncated, to the same effect. -/
def recover (pack : String) : Node Unit := do
  let d ← Durable.read
  match d.packs.get? pack with
  | none => Durable.lift (.error (.fileNotFound pack))
  | some bytes => do
    let r ← Durable.lift (scan (bytes.length + 1) 0 bytes .empty)
    Durable.effect (setPack pack (bytes.take r.2))
    Durable.effect fun d => { d with index := indexLarge d.large r.1 }

def packName (hex : String) : String := "pack-" ++ hex ++ ".bin"

def validName (name : String) : Bool :=
  "pack-".toList.isPrefixOf name.toList && ".bin".toList.isSuffixOf name.toList && !decide ('/' ∈ name.toList)

/-- `switch`: the replacement of `CURRENT`. -/
def switch (name : String) : Node Unit := do
  let d ← Durable.read
  if validName name = false ∨ d.packs.get? name = none then
    Durable.lift (.error (.error 409 "invalid pack generation"))
  else Durable.effect fun d => { d with current := some name }

def touch (name : String) (d : NodeDisk) : NodeDisk :=
  match d.packs.get? name with
  | some _ => d
  | none => setPack name [] d

/-- The first generation, where there is none. -/
def firstPack (hex : String) (current : Option String) : Node String :=
  match current with
  | some name => pure name
  | none => do
    Durable.effect (touch (packName hex))
    switch (packName hex)
    pure (packName hex)

/-- `__init__`: the file the node then writes to. -/
def openNode (hex : String) : Node String := do
  let d ← Durable.read
  let name ← firstPack hex d.current
  if validName name = false then Durable.lift (.error (.error 409 "invalid pack generation"))
  else do
    recover name
    pure name

/-! ### Compaction -/

def packRows (d : NodeDisk) : List (ChunkKey × ChunkRow) :=
  (d.index.entries.filter fun e => e.2.kind = .pack).insertionSort fun a b => a.1 ≤ b.1

def copyRow (pack new : String) (e : ChunkKey × ChunkRow) : Node Unit := do
  let d ← Durable.read
  let data ← Durable.lift (get d pack e.1)
  writeBytes new (record e.1 data e.2.created false)

def unlinkPack (name : String) (d : NodeDisk) : NodeDisk := { d with packs := d.packs.erase name }

def compact (pack hex : String) : Node Unit := do
  let d ← Durable.read
  if (d.packs.get? (packName hex)).isSome then Durable.lift (.error (.fileExists (packName hex)))
  else do
    Durable.effect (setPack (packName hex) [])
    Durable.each (copyRow pack (packName hex)) (packRows d)
    switch (packName hex)
    recover (packName hex)
    let d ← Durable.read
    Durable.each (fun name => Durable.effect (unlinkPack name)) (d.packs.keys.filter fun name => name ≠ packName hex)

end SystemDesign.DataNode
