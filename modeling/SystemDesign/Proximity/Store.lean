import SystemDesign.Lib.Py
import SystemDesign.Lib.Sha256
import SystemDesign.Lib.Transaction
import SystemDesign.Lib.Transitions

/-!
The proximity store (`store.py`, with `validate_business` and the geohash `encode`).

Rows hold the business that their JSON text is of. Coordinates are rationals, as floats are;
the bounds of a geohash are dyadic parts of 180 and 90, so its arithmetic is exact. Days are
numbers: the ISO dates of four-digit years are ordered as their days are. A transaction may
read the clock several times, and each reading is an argument.
-/

namespace SystemDesign.Proximity

/-! ### Businesses -/

structure Window where
  day : ℤ
  start : ℤ
  stop : ℤ

/-- A value in the body of a request; a window that is not three integers is `none`. -/
inductive Value where
  | text (value : String)
  | number (value : ℚ)
  | windows (value : List (Option Window))
  | other

structure Business where
  name : String
  address : String
  category : String
  latitude : ℚ
  longitude : ℚ
  hours : List Window

def isIdChar (ch : Char) : Bool :=
  ('A' ≤ ch && ch ≤ 'Z') || ('a' ≤ ch && ch ≤ 'z') || ('0' ≤ ch && ch ≤ '9') || ch = '_' || ch = '-'

/-- The pattern of an identifier. -/
def isIdentifier (value : String) : Bool := value.toList.all isIdChar && 1 ≤ value.length && value.length ≤ 64

def coordinates (latitude longitude : ℚ) : Py (ℚ × ℚ) := do
  require (-90 ≤ latitude ∧ latitude ≤ 90 ∧ -180 ≤ longitude ∧ longitude ≤ 180)
    (PyError.valueError "coordinates outside valid range")
  return (latitude, longitude)

/-- One of the texts of a business. -/
def validText (key : String) (value : Option Value) : Py String :=
  match value with
  | some (.text value) => do
    require (value.length ≤ 500 ∧ (key ≠ "address" → isBlank value = false)) (PyError.valueError ("invalid " ++ key))
    return value
  | _ => .error (.valueError ("invalid " ++ key))

def validWindow (window : Option Window) : Py Window :=
  match window with
  | some window => do
    require (0 ≤ window.day ∧ window.day ≤ 6 ∧ 0 ≤ window.start ∧ window.start < window.stop ∧ window.stop ≤ 1440)
      (PyError.valueError "hours require UTC day 0..6 and 0 <= start < end <= 1440")
    return window
  | none => .error (.valueError "hours require UTC day 0..6 and 0 <= start < end <= 1440")

def fields : List String := ["name", "latitude", "longitude", "address", "category", "hours"]

def validateBusiness (body : Dict String Value) : Py Business := do
  require (body.keys.all (fun key => key ∈ fields) = true) (PyError.valueError "invalid business fields")
  let name ← validText "name" (body.get? "name")
  let address ← validText "address" (some ((body.get? "address").getD (.text "")))
  let category ← validText "category" (some ((body.get? "category").getD (.text "other")))
  match body.get? "latitude", body.get? "longitude" with
  | some (.number latitude), some (.number longitude) => do
    let place ← coordinates latitude longitude
    match (body.get? "hours").getD (.windows []) with
    | .windows hours => do
      require (hours.length ≤ 100) (PyError.valueError "invalid hours")
      let hours ← hours.mapM validWindow
      return ⟨name, address, category, place.1, place.2, hours⟩
    | _ => .error (.valueError "invalid hours")
  | _, _ => .error (.valueError "business coordinates must be numbers")

/-- The JSON object of a business. -/
def Business.body (business : Business) : Dict String Value :=
  (((((Dict.empty.set "name" (.text business.name)).set "address" (.text business.address)).set
    "category" (.text business.category)).set "latitude" (.number business.latitude)).set
      "longitude" (.number business.longitude)).set "hours" (.windows (business.hours.map some))

/-! ### Geohashes -/

def alphabet : List Char := "0123456789bcdefghjkmnpqrstuvwxyz".toList

/-- The bounds of the two axes, longitude first. -/
structure Bounds where
  west : ℚ
  east : ℚ
  south : ℚ
  north : ℚ

/-- The bits from the `i`-th on. -/
def geoBits (lat lon : ℚ) : ℕ → ℕ → Bounds → List Bool
  | 0, _, _ => []
  | n + 1, i, bounds =>
    if i % 2 = 0 then
      let mid := (bounds.west + bounds.east) / 2
      if mid ≤ lon then true :: geoBits lat lon n (i + 1) { bounds with west := mid }
      else false :: geoBits lat lon n (i + 1) { bounds with east := mid }
    else
      let mid := (bounds.south + bounds.north) / 2
      if mid ≤ lat then true :: geoBits lat lon n (i + 1) { bounds with south := mid }
      else false :: geoBits lat lon n (i + 1) { bounds with north := mid }

/-- `encode`. -/
def encode (lat lon : ℚ) (precision : ℕ) : String :=
  let bits := geoBits lat lon (precision * 5) 0 ⟨-180, 180, -90, 90⟩
  String.ofList ((List.range precision).map fun k =>
    alphabet.getD (((bits.drop (5 * k)).take 5).foldl (fun n bit => 2 * n + bit.toNat) 0) '0')

/-! ### Tables -/

structure Draft where
  owner : String
  body : Business
  deleted : Bool

structure Response where
  id : String
  status : String
  effectiveAfterUtcDay : ℕ

/-- A row of `replay`. -/
structure Replay (τ : Type) where
  fingerprint : String
  response : Response
  created : τ

abbrev Row := String × Business

structure Geo where
  precision : ℕ
  cell : String
  shard : ℕ
  id : String

/-- What a generation consists of. -/
structure Content where
  publicRows : List Row
  geo : List Geo
  contentHash : String

structure Head where
  version : ℕ
  day : ℕ
  lineage : String
deriving DecidableEq

/-- The clock and what is computed from texts. -/
structure Setup (τ : Type) [LinearOrder τ] where
  dayOf : τ → ℕ
  dayOf_mono : Monotone dayOf
  /-- Seven days before. -/
  weekBefore : τ → τ
  fingerprint : String → Option String → Dict String Value ⊕ Business → String
  /-- The digest of the canonical text of the sorted businesses. -/
  digest : List Row → String
  /-- `uuid4().hex`. -/
  uuid : ℕ → String
  uuid_identifier : ∀ n, isIdentifier (uuid n) = true
  /-- A text that `uuid.UUID` prints as it is. -/
  isLineage : String → Bool

/-- `_prepare`, for a number of shards. -/
def geoRows (shards : ℕ) (row : Row) : List Geo :=
  (List.range 6).map fun p =>
    let cell := String.ofList ((encode row.2.latitude row.2.longitude 6).toList.take (p + 1))
    ⟨p + 1, cell, (((Sha256.digest cell.toUTF8.data.toList).take 4).foldl (fun n b => 256 * n + b.toNat) 0) % shards, row.1⟩

variable {τ : Type} [LinearOrder τ] (c : Setup τ)

def prepare (shards : ℕ) (businesses : List Row) : Content :=
  ⟨businesses, businesses.flatMap (geoRows shards), c.digest businesses⟩

structure Primary (τ : Type) where
  head : Head
  draftRevision : ℕ
  shards : ℕ
  drafts : Dict String Draft
  content : Content
  replay : Dict (String × String) (Replay τ)

/-- `SELECT id,body FROM drafts WHERE deleted=0 ORDER BY id`. -/
def undeleted (drafts : Dict String Draft) : List Row :=
  (drafts.sorted.entries.filter fun entry => entry.2.deleted = false).map fun entry => (entry.1, entry.2.body)

/-! ### Mutations -/

/-- What a mutation does to the drafts. -/
inductive Change where
  | put (id owner : String) (body : Business)
  | delete (id : String)

/-- The statements on `drafts`; an existing row keeps its owner. -/
def Change.apply (drafts : Dict String Draft) : Change → Dict String Draft
  | .put id owner body => drafts.set id (match drafts.get? id with
    | some draft => { draft with body := body, deleted := false }
    | none => ⟨owner, body, false⟩)
  | .delete id => match drafts.get? id with
    | some draft => drafts.set id { draft with deleted := true }
    | none => drafts

structure Request where
  owner : String
  method : String
  identifier : Option String
  body : Dict String Value
  key : String

/-- The checks before the transaction: the validated body, unless it is a deletion. -/
def checkRequest (request : Request) : Py (Dict String Value ⊕ Business) := do
  require (1 ≤ request.owner.length ∧ request.owner.length ≤ 200) (PyError.http 400 "invalid owner")
  require (request.method ∈ ["POST", "PUT", "DELETE"]) (PyError.http 405 "unsupported mutation")
  require (request.method = "POST" ↔ request.identifier = none) (PyError.http 400 "business ID does not match mutation")
  require (1 ≤ request.key.length ∧ request.key.length ≤ 128)
    (PyError.http 400 "Idempotency-Key required (1..128 characters)")
  require (∀ id ∈ request.identifier, isIdentifier id = true) (PyError.http 400 "invalid business ID")
  if request.method = "DELETE" then return .inl request.body
  else do
    let business ← validateBusiness request.body
    return .inr business

/-- The readings of the clock in a mutation: the guard, the expiry of replays, the day of
the response, the time of its record. -/
structure Readings (τ : Type) where
  guard : τ
  expiry : τ
  effective : τ
  created : τ

/-- The guard `_publication`. -/
def publication (now : τ) (head : Head) : Py Unit :=
  require (¬ head.day < c.dayOf now) (PyError.http 503 "snapshot publication is due; retry")

/-- The target of a mutation that is no replay, and what is done to it. -/
def targetOf (request : Request) (body : Dict String Value ⊕ Business) (n : ℕ) (drafts : Dict String Draft) :
    Py (String × Change) := do
  match request.identifier with
  | none => match body with
    | .inr business => return (c.uuid n, .put (c.uuid n) request.owner business)
    | .inl _ => return (c.uuid n, .delete (c.uuid n))
  | some id => match drafts.get? id with
    | none => .error (.http 404 "business not found")
    | some draft => do
      require (draft.deleted = false) (PyError.http 404 "business not found")
      require (draft.owner = request.owner) (PyError.http 403 "business belongs to another owner")
      match body with
      | .inr business => return (id, .put id request.owner business)
      | .inl _ => return (id, .delete id)

/-- The write transaction of `mutate`: the response, what it changed in the drafts and the
tables after it. -/
def mutate (readings : Readings τ) (request : Request) (n : ℕ) (s : Primary τ) :
    Py (Response × Option Change × Primary τ) := do
  let body ← checkRequest request
  publication c readings.guard s.head
  let cutoff := c.weekBefore readings.expiry
  let replay := s.replay.keys.foldl (fun replay key => match s.replay.get? key with
    | some row => if row.created < cutoff then replay.erase key else replay
    | none => replay) s.replay
  let fingerprint := c.fingerprint request.method request.identifier body
  match replay.get? (request.owner, request.key) with
  | some row => do
    require (row.fingerprint = fingerprint) (PyError.http 409 "idempotency key reused with a different request")
    return (row.response, none, { s with replay := replay })
  | none => do
    let (id, change) ← targetOf c request body n s.drafts
    let response : Response := ⟨id, "pending", c.dayOf readings.effective⟩
    return (response, some change, { s with
      drafts := change.apply s.drafts
      draftRevision := s.draftRevision + 1
      replay := replay.set (request.owner, request.key) ⟨fingerprint, response, readings.created⟩ })

/-! ### Publications -/

/-- What a publication holds between its transactions: the attempts left, the day it is for,
and what it read. -/
inductive Phase where
  /-- Unforced, before the first look at the day. -/
  | checking
  | starting (left : ℕ)
  | targeted (left : ℕ) (day : ℕ)
  | prepared (left : ℕ) (day : ℕ) (head : Head) (revision : ℕ) (content : Content)

structure Publisher where
  force : Bool
  phase : Phase

/-- A step of `publish` returns, raises or goes on. -/
inductive Outcome where
  | returned (head : Head)
  | raised (error : PyError)
  | goesOn (phase : Phase)

/-- The first transaction of an unforced publication. -/
def checkDay (now : τ) (s : Primary τ) : Outcome :=
  if c.dayOf now ≤ s.head.day then .returned s.head else .goesOn (.starting 3)

/-- The next attempt: `target_day`. -/
def target (now : τ) : ℕ → Outcome
  | 0 => .raised (.http 503 "drafts changed during snapshot build; retry")
  | left + 1 => .goesOn (.targeted left (c.dayOf now))

/-- The transaction that reads the drafts, and the preparation of the rows. -/
def readDrafts (force : Bool) (left day : ℕ) (s : Primary τ) : Outcome :=
  if force = false ∧ day ≤ s.head.day then .returned s.head
  else .goesOn (.prepared left day s.head s.draftRevision (prepare c s.shards (undeleted s.drafts)))

/-- The write transaction; `fails` says whether `fail_hook` raises. -/
def install (now : τ) (force fails : Bool) (left day : ℕ) (head : Head) (revision : ℕ) (content : Content)
    (s : Primary τ) : Outcome × Primary τ :=
  if force = false ∧ day ≤ s.head.day then (.returned s.head, s)
  else if (s.head, s.draftRevision) ≠ (head, revision) then (.goesOn (.starting left), s)
  else if day ≠ c.dayOf now then (.goesOn (.starting left), s)
  else if fails then (.raised (.valueError "fail_hook"), s)
  else
    let head : Head := ⟨s.head.version + 1, day, s.head.lineage⟩
    (.returned head, { s with head := head, content := content })

/-! ### Replicas -/

structure Snapshot where
  head : Head
  businesses : List (String × Dict String Value)

/-- The read transaction of `export`. -/
def exportSnapshot (s : Primary τ) : Snapshot := ⟨s.head, s.content.publicRows.map fun row => (row.1, row.2.body)⟩

structure Replica where
  initialized : Bool
  head : Head
  shards : ℕ
  content : Content

def validItem (item : String × Dict String Value) : Py Row := do
  require (isIdentifier item.1 = true) (PyError.valueError "invalid business ID")
  let business ← validateBusiness item.2
  return (item.1, business)

/-- `import_snapshot` on a replica: whether it was installed. -/
def importSnapshot (snapshot : Snapshot) (r : Replica) : Py (Bool × Replica) := do
  require (snapshot.head.version < 2 ^ 63) (PyError.valueError "invalid snapshot shape")
  require (c.isLineage snapshot.head.lineage = true) (PyError.valueError "invalid snapshot lineage/day")
  let businesses ← snapshot.businesses.mapM validItem
  let content := prepare c r.shards businesses
  let installed : Replica := { r with initialized := true, head := snapshot.head, content := content }
  if r.initialized = false then return (true, installed)
  else do
    require (snapshot.head.lineage = r.head.lineage ∧ ¬ snapshot.head.version < r.head.version)
      (PyError.http 409 "foreign lineage or snapshot rollback")
    if snapshot.head.version = r.head.version then do
      require (snapshot.head.day = r.head.day ∧ content.contentHash = r.content.contentHash)
        (PyError.http 409 "snapshot generation contains different content")
      return (false, r)
    else do
      require (¬ snapshot.head.day < r.head.day) (PyError.http 409 "snapshot day rollback")
      return (true, installed)

end SystemDesign.Proximity
