import SystemDesign.Lib.Json
import SystemDesign.Lib.Py
import SystemDesign.Lib.Sha256
import SystemDesign.Lib.Transaction

/-!
Checked values of the object store (`common.py`, `metadata_records.py`).

What a table keeps as JSON text is kept here as the value the text reads back as.
-/

namespace SystemDesign.ObjectStore

def dumps (value : Json) : String := value.encode

/-- `sha(data)` of bytes. -/
def sha (data : List UInt8) : String := String.ofList ((Sha256.digest data).flatMap Sha256.hexByte)

def digest (value : Json) : String := Sha256.hexdigest (dumps value)

def chunkSize : ℕ := 256 * 1024

def maxObjectBytes : ℕ := 64 * 1024 * 1024

def maxChunks : ℕ := 256

/-! ### Checks -/

/-- `[A-Za-z0-9_-]{1,80}` -/
def isIdentifier (s : String) : Bool :=
  1 ≤ s.toList.length && s.toList.length ≤ 80 && s.toList.all fun c => c.isAlphanum || c = '_' || c = '-'

def identifier (value : String) : Py Unit := require (isIdentifier value = true) (.valueError "invalid identifier")

/-- `[a-f0-9]{64}` -/
def isChecksum (s : String) : Bool := s.toList.length = 64 && s.toList.all fun c => c.isDigit || ('a' ≤ c && c ≤ 'f')

def checksum (value : String) : Py Unit := require (isChecksum value = true) (.valueError "expected lowercase SHA256")

def isObjectKey (s : String) : Bool := s ≠ "" && s.utf8ByteSize ≤ 512 && s.toList.all fun c => 32 ≤ c.toNat

def objectKey (value : String) : Py Unit :=
  require (isObjectKey value = true) (.valueError "object key requires 1..512 UTF-8 bytes without controls")

def integer (value : ℤ) (name : String) (low high : ℤ) : Py Unit :=
  require (low ≤ value ∧ value ≤ high) (.valueError ("invalid " ++ name))

def hexValue (c : Char) : ℕ := if c.isDigit then c.toNat - 48 else c.toNat - 87

/-- `int(digest([bucket, key])[:16], 16) % count` -/
def shardFor (bucket key : String) (count : ℕ) : ℕ :=
  ((digest (.arr [.str bucket, .str key])).toList.take 16).foldl (fun n c => n * 16 + hexValue c) 0 % count

/-! ### Manifests -/

structure ChunkRef where
  hash : String
  size : ℕ

def ChunkRef.toJson (c : ChunkRef) : Json := .obj [("hash", .str c.hash), ("size", .int c.size)]

def manifestJson (manifest : List ChunkRef) : Json := .arr (manifest.map ChunkRef.toJson)

def checkChunk (c : ChunkRef) : Py Unit := do
  checksum c.hash
  integer c.size "chunk size" 1 chunkSize

def manifestCopy (manifest : List ChunkRef) : Py (List ChunkRef) := do
  require (manifest.length ≤ maxChunks) (.valueError "invalid manifest")
  manifest.forM checkChunk
  return manifest

def manifestBytes (manifest : List ChunkRef) : ℕ := (manifest.map ChunkRef.size).sum

/-- What a publication is told apart by. -/
structure Identity where
  bucket : String
  key : String
  request : String
deriving DecidableEq

/-- A version that is to be published. -/
structure Payload where
  id : Identity
  manifest : List ChunkRef
  size : ℕ
  sha : String
  marker : Bool

def Payload.toJson (p : Payload) : Json :=
  .obj [("bucket", .str p.id.bucket), ("key", .str p.id.key), ("request", .str p.id.request),
    ("manifest", manifestJson p.manifest), ("size", .int p.size), ("sha", .str p.sha),
    ("marker", .bool p.marker)]

/-- The fingerprint of a publication intent. -/
def Payload.digest (p : Payload) : String := ObjectStore.digest p.toJson

/-- `digest([manifest, size, sha, marker])`, the fingerprint of a metadata receipt. -/
def Payload.contentDigest (p : Payload) : String :=
  ObjectStore.digest (.arr [manifestJson p.manifest, .int p.size, .str p.sha, .bool p.marker])

/-- `sha(b"")` -/
@[irreducible] def emptySha : String := sha []

def publication (p : Payload) : Py (List ChunkRef) := do
  identifier p.id.bucket
  objectKey p.id.key
  identifier p.id.request
  checksum p.sha
  integer p.size "size" 0 maxObjectBytes
  let frozen ← manifestCopy p.manifest
  require (manifestBytes frozen = p.size) (.valueError "manifest size mismatch")
  require (¬ (p.marker = true ∧ (frozen ≠ [] ∨ p.size ≠ 0))) (.valueError "delete marker cannot contain data")
  require (¬ (p.size = 0 ∧ p.sha ≠ emptySha)) (.valueError "empty object checksum mismatch")
  return frozen

end SystemDesign.ObjectStore
