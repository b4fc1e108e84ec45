import SystemDesign.Lib.Json
import SystemDesign.Lib.Py
import SystemDesign.Lib.Sha256
import SystemDesign.Lib.Transaction

/-!
A profile store and its change log (`profiles.py`, `replication.py`, with `contracts.py`).

A value whose fields have other types is refused before a transaction begins and is not represented.
Sessions and outbox jobs, which nothing here reads, are left out.
-/

namespace SystemDesign.ScaleFromZero

/-! ### Records -/

structure Profile where
  displayName : String
  city : String
deriving DecidableEq

/-- What an update returns. -/
structure Record where
  user : String
  version : ℕ
  profile : Profile
deriving DecidableEq

structure Change where
  seq : ℕ
  record : Record

/-- A row of `changes`. -/
structure Row where
  change : Change
  hash : String

structure UpdateBody where
  requestId : String
  expectedVersion : ℕ
  displayName : String
  city : String

/-- A reply of `changes`. -/
structure Feed where
  changes : List Row
  sourceId : String
  after : ℕ
  previousHash : String
  count : ℕ
  head : String

structure Store where
  identity : String
  source : Option String
  topology : Option (ℕ × ℕ)
  users : Dict String (ℕ × Profile)
  changes : List Row
  requests : Dict (String × String) (String × Record)

/-! ### Hashes and checks -/

def checksum (value : Json) : String := Sha256.hexdigest value.encode

def Profile.json (profile : Profile) : Json :=
  .obj [("display_name", .str profile.displayName), ("city", .str profile.city)]

/-- The checksum of a row covers the row alone. -/
def Change.checksum (change : Change) : String :=
  ScaleFromZero.checksum (.obj [("seq", .int change.seq), ("user", .str change.record.user),
    ("version", .int change.record.version), ("profile", change.record.profile.json)])

def UpdateBody.fingerprint (body : UpdateBody) : String :=
  ScaleFromZero.checksum (.obj [("request_id", .str body.requestId), ("expected_version", .int body.expectedVersion),
    ("display_name", .str body.displayName), ("city", .str body.city)])

/-- The hash before the first row. -/
def zeros : String := String.ofList (List.replicate 64 '0')

def isIdentifier (value : String) : Bool :=
  1 ≤ value.toList.length && value.toList.length ≤ 80 && value.toList.all fun c => c.isAlphanum || c = '_' || c = '-'

def identifier (value : String) : Py Unit :=
  require (isIdentifier value = true) (.valueError "identifier must be 1..80 ASCII letters, digits, underscores or hyphens")

def integer (value minimum maximum : ℕ) : Py Unit :=
  require (minimum ≤ value ∧ value ≤ maximum) (.valueError "integer cents/sequence outside reference limits")

def Profile.validate (profile : Profile) : Py Unit :=
  require (profile.displayName.length ≤ 128 ∧ profile.city.length ≤ 128)
    (.valueError "profile strings are limited to 128 characters")

def UpdateBody.validate (body : UpdateBody) : Py Unit := do
  identifier body.requestId
  integer body.expectedVersion 0 (10 ^ 12)
  (⟨body.displayName, body.city⟩ : Profile).validate

/-- `contracts.change`. -/
def Row.validate (row : Row) : Py Unit := do
  integer row.change.seq 1 1000
  identifier row.change.record.user
  integer row.change.record.version 1 1000
  row.change.record.profile.validate
  require (row.change.checksum = row.hash) (.valueError "replication checksum mismatch")

def isSourceId (value : String) : Bool := value.toList.length = 32 && value.toList.all fun c => c.isDigit || ('a' ≤ c && c ≤ 'f')

/-! ### Reading -/

/-- `partition`: the digest of a user, as a number. -/
def partition (user : String) (count : ℕ) : ℕ :=
  (Sha256.digest user.toUTF8.toList).foldl (fun n byte => n * 256 + byte.toNat) 0 % count

def Store.checkPartition (user : String) (s : Store) : Py Unit :=
  require (∀ topology ∈ s.topology, partition user topology.1 = topology.2) (.http 409 "wrong database shard")

/-- `coalesce(max(seq),0)`. -/
def Store.lastSeq (s : Store) : ℕ := s.changes.getLast?.elim 0 fun row => row.change.seq

def Store.head (s : Store) : String := s.changes.getLast?.elim zeros Row.hash

def Store.version (user : String) (s : Store) : ℕ := (s.users.get? user).elim 0 Prod.fst

/-- `changes`. -/
def Store.feed (after : ℕ) (s : Store) : Py Feed := do
  integer after 0 (10 ^ 12)
  require (after ≤ s.lastSeq) (.http 409 "replica cursor ahead of source")
  let previous := if after = 0 then none else s.changes.find? fun row => row.change.seq = after
  return {
    changes := (s.changes.filter fun row => after < row.change.seq).take 100
    sourceId := s.source.getD s.identity
    after := after
    previousHash := previous.elim zeros Row.hash
    count := s.lastSeq
    head := s.head }

/-! ### Writing -/

/-- The two statements that write one row. -/
def Store.append (row : Row) (s : Store) : Store :=
  { s with
    users := s.users.set row.change.record.user (row.change.record.version, row.change.record.profile)
    changes := s.changes ++ [row] }

/-- An update that was not made before: the store, what it returns and what it publishes. -/
def Store.write (user : String) (body : UpdateBody) (s : Store) : Py (Store × Record × Option ℕ) := do
  require (s.version user = body.expectedVersion) (.http 409 "profile version conflict")
  require (s.lastSeq + 1 ≤ 1000) (.http 429 "reference history limit reached")
  let result : Record := ⟨user, s.version user + 1, ⟨body.displayName, body.city⟩⟩
  let change : Change := ⟨s.lastSeq + 1, result⟩
  return ({ s.append ⟨change, change.checksum⟩ with
    requests := s.requests.set (user, body.requestId) (body.fingerprint, result) }, result, some (s.lastSeq + 1))

/-- `update`, between the two ends of its transaction. A request that was made before publishes nothing. -/
def Store.update (user : String) (body : UpdateBody) (s : Store) : Py (Store × Record × Option ℕ) := do
  identifier user
  body.validate
  s.checkPartition user
  match s.requests.get? (user, body.requestId) with
  | some (hash, result) => do
    require (hash = body.fingerprint) (.http 409 "request key changed content")
    return (s, result, none)
  | none => s.write user body

/-- `_replicate`. -/
def Store.replicateRow (s : Store) (row : Row) : Py Store := do
  s.checkPartition row.change.record.user
  if row.change.seq ≤ s.lastSeq then do
    require (((s.changes.find? fun old => old.change.seq = row.change.seq).any fun old => old.hash = row.hash) = true)
      (.http 409 "replica prefix conflict")
    return s
  else do
    require (row.change.seq = s.lastSeq + 1) (.http 409 "replica sequence gap")
    require (row.change.record.version = s.version row.change.record.user + 1)
      (.http 409 "replica user version gap or regression")
    return s.append row

/-- `replicate`: whatever the contract refuses is an invalid record. -/
def Store.replicate (row : Row) (s : Store) : Py Store :=
  match row.validate with
  | .error _ => .error (.http 409 "invalid replication record")
  | .ok _ => s.replicateRow row

/-- `apply_feed`. -/
def Store.applyFeed (feed : Feed) (s : Store) : Py (Store × ℕ) := do
  integer feed.after 0 (10 ^ 12)
  integer feed.count feed.after 1000
  require (isSourceId feed.sourceId = true) (.valueError "source database identity required")
  require (feed.changes.length ≤ 100) (.valueError "bounded changes list required")
  feed.changes.forM Row.validate
  require (feed.changes.map (fun row => row.change.seq) =
    List.range' (feed.after + 1) (min feed.count (feed.after + 100) - feed.after)) (.http 409 "source omitted or reordered changes")
  require (∀ old ∈ s.source, old = feed.sourceId) (.http 409 "replication source identity changed; migration required")
  require (feed.after = s.lastSeq ∧ feed.previousHash = s.head) (.http 409 "replication source prefix differs from retained replica")
  let written ← feed.changes.foldlM Store.replicateRow s
  require (feed.count ≤ feed.after + 100 → (feed.changes.getLast?.elim s.head Row.hash) = feed.head)
    (.http 409 "replication head mismatch")
  return ({ written with source := some (s.source.getD feed.sourceId) }, feed.changes.length)

end SystemDesign.ScaleFromZero
