import SystemDesign.ObjectStore.Records

/-!
The catalog (`catalog.py`): buckets, multipart uploads and publication intents.

The parts of an upload are kept with it, by number. Ids are drawn at random by the
caller, and clock readings are timestamps. Snapshots of listings are left out.
-/

namespace SystemDesign.ObjectStore

structure Bucket where
  id : String
  user : String

inductive UploadState where
  | active
  | completing
  | complete
  | aborted
deriving DecidableEq

structure Part where
  sha : String
  size : ℕ
  manifest : List ChunkRef

/-- The answer of the metadata service to a publication. -/
structure Receipt where
  version : String
  duplicate : Bool

structure Upload (τ : Type) where
  id : Identity
  user : String
  sha : String
  size : ℕ
  state : UploadState
  expires : τ
  result : Option Receipt
  manifest : Option (List ChunkRef)
  parts : SortedMap ℕ Part

structure Intent (τ : Type) where
  hash : String
  payload : Payload
  done : Bool
  created : τ

structure Catalog (τ : Type) where
  buckets : Dict String Bucket
  uploads : Dict String (Upload τ)
  publications : Dict Identity (Intent τ)

section

variable {τ : Type} [LinearOrder τ] [Add τ] [NatCast τ]

/-! ### Buckets -/

/-- `[a-z0-9][a-z0-9-]{1,61}[a-z0-9]` -/
def isBucketName (s : String) : Bool :=
  let plain (c : Char) : Bool := c.isDigit || ('a' ≤ c && c ≤ 'z')
  3 ≤ s.toList.length && s.toList.length ≤ 63 && s.toList.all (fun c => plain c || c = '-') &&
    s.toList.head?.any plain && s.toList.getLast?.any plain

def create (cat : Catalog τ) (name user fresh : String) : Py (Catalog τ × Bucket) := do
  require (isBucketName name = true) (.valueError "bucket requires 3..63 lowercase letters/digits/hyphens")
  identifier user
  match cat.buckets.get? name with
  | some old =>
    if old.user ≠ user then .error (.http 409 "bucket name unavailable")
    else return (cat, old)
  | none => do
    require ((cat.buckets.values.filter fun b => b.user = user).length < 1000)
      (.http 422 "owner bucket budget exceeded")
    return ({ cat with buckets := cat.buckets.set name ⟨fresh, user⟩ }, ⟨fresh, user⟩)

def ownedBucket (cat : Catalog τ) (bucket user : String) : Py Unit :=
  require (cat.buckets.values.any (fun b => b.id = bucket && b.user = user) = true) (.http 404 "bucket missing")

/-! ### Uploads -/

def getUpload (cat : Catalog τ) (upload user : String) : Py (Upload τ) :=
  match cat.uploads.get? upload with
  | some u => if u.user = user then .ok u else .error (.http 404 "upload missing")
  | none => .error (.http 404 "upload missing")

/-- The upload of a request, if there is one. -/
def findUpload (cat : Catalog τ) (id : Identity) : Option (String × Upload τ) :=
  cat.uploads.entries.find? fun e => e.2.id = id

def start (cat : Catalog τ) (now : τ) (id : Identity) (user expected : String) (size : ℤ)
    (fresh : String) : Py (Catalog τ × String) := do
  identifier id.bucket
  identifier user
  objectKey id.key
  identifier id.request
  checksum expected
  integer size "size" 0 maxObjectBytes
  require (¬ (size = 0 ∧ expected ≠ emptySha)) (.valueError "empty object checksum mismatch")
  ownedBucket cat id.bucket user
  match findUpload cat id with
  | some old =>
    if (old.2.sha, (old.2.size : ℤ), old.2.user) ≠ (expected, size, user) then
      .error (.http 409 "upload idempotency content conflict")
    else return (cat, old.1)
  | none =>
    let u : Upload τ :=
      { id, user, sha := expected, size := size.toNat, state := .active,
        expires := now + ((3600 : ℕ) : τ), result := none, manifest := none, parts := .empty }
    return ({ cat with uploads := cat.uploads.set fresh u }, fresh)

/-- The chunks of a manifest cover the data, piece by piece. -/
def coverPart : List ChunkRef → List UInt8 → Py Unit
  | [], rest => require (rest = []) (.http 400 "part manifest size mismatch")
  | chunk :: chunks, rest => do
    require (sha (rest.take chunk.size) = chunk.hash) (.http 400 "part manifest checksum mismatch")
    coverPart chunks (rest.drop chunk.size)

def partBytes (u : Upload τ) : ℕ := (u.parts.values.map Part.size).sum

def addPart (cat : Catalog τ) (now : τ) (upload user : String) (number : ℕ) (data : List UInt8)
    (manifest : List ChunkRef) : Py (Catalog τ) := do
  identifier upload
  identifier user
  integer number "part number" 1 64
  require (1 ≤ data.length ∧ data.length ≤ 1024 * 1024) (.valueError "part requires 1..1048576 bytes")
  let manifest ← manifestCopy manifest
  coverPart manifest data
  let u ← getUpload cat upload user
  require (u.state = .active ∧ now < u.expires) (.http 409 "upload is not active")
  match u.parts.get? number with
  | some old =>
    if (old.sha, old.size) ≠ (sha data, data.length) then
      .error (.http 409 "part number content is immutable")
    else return cat
  | none => do
    require (partBytes u + data.length ≤ u.size) (.http 409 "parts exceed declared object size")
    let u := { u with parts := u.parts.insert number ⟨sha data, data.length, manifest⟩ }
    return { cat with uploads := cat.uploads.set upload u }

/-! ### Publication intents -/

/-- An immutable recovery intent, written before the metadata service is called. -/
def preparePublication (cat : Catalog τ) (now : τ) (p : Payload) : Py (Catalog τ) := do
  let frozen ← publication p
  let payload := { p with manifest := frozen }
  match cat.publications.get? p.id with
  | some prior =>
    if prior.hash ≠ payload.digest then
      .error (.http 409 "publication idempotency content conflict")
    else return cat
  | none =>
    return { cat with publications := cat.publications.set p.id ⟨payload.digest, payload, false, now⟩ }

def finishPublication (cat : Catalog τ) (id : Identity) : Py (Catalog τ) := do
  identifier id.bucket
  objectKey id.key
  identifier id.request
  match cat.publications.get? id with
  | none => .error (.http 404 "publication intent missing")
  | some row => return { cat with publications := cat.publications.set id { row with done := true } }

/-- A stored intent that reads back as what it was made for. -/
def checkIntent (row : Identity × Intent τ) : Py Payload :=
  let invalid : PyError := .http 409 "invalid publication intent; collection blocked"
  if row.2.payload.id ≠ row.1 then .error invalid
  else
    match publication row.2.payload with
    | .error _ => .error invalid
    | .ok frozen =>
      let payload := { row.2.payload with manifest := frozen }
      if payload.digest ≠ row.2.hash then .error invalid else .ok payload

/-- The pending intents in the order of their creation. -/
def pendingRows (cat : Catalog τ) : List (Identity × Intent τ) :=
  let key (e : Identity × Intent τ) : τ ×ₗ (String ×ₗ (String ×ₗ String)) :=
    toLex (e.2.created, toLex (e.1.bucket, toLex (e.1.key, e.1.request)))
  (cat.publications.entries.filter fun e => !e.2.done).insertionSort fun a b => key a ≤ key b

def pendingPublications (cat : Catalog τ) : Py (List Payload) := do
  require ((pendingRows cat).length ≤ 128) (.http 422 "pending publication budget exceeded; collection blocked")
  (pendingRows cat).mapM checkIntent

end

end SystemDesign.ObjectStore
