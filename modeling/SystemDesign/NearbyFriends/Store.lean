import SystemDesign.Lib.Dict
import SystemDesign.Lib.Transitions

/-!
The nearby-friends store (`core.py`) and snapshots over it (`backend.py`).

A table is a list or a dictionary; a transaction takes the tables to the tables or to an
error, which leaves them as they were. Numbers are the rationals that floats are, an integer
of a body being the float it is stored as; rounding and the spherical distance are parameters
of the setup. The reading of the clock in a transaction is an argument.

Redis is a dictionary of texts. What a reply holds, which batches are cut off and how far a
pipeline gets before it fails are parameters of a repair.
-/

namespace SystemDesign.NearbyFriends

structure Error where
  code : ℕ
  message : String
deriving DecidableEq

/-- A value in the body of a request; numbers are finite. -/
inductive Field where
  | number (value : ℚ)
  | text (value : String)
  | other

structure Report where
  id : String
  latitude : ℚ
  longitude : ℚ
  timestamp : ℚ
  receivedAt : ℚ
  revision : ℕ
  device : String

structure User where
  token : String
  sharing : Bool
  history : Bool
  revision : ℕ
  lastTs : ℚ

/-- A row of `current`. -/
structure Current where
  body : Report
  expires : ℚ

/-- A row of `history`. -/
structure Past where
  user : String
  revision : ℕ
  body : Report
  received : ℚ

structure Tables where
  users : Dict String User
  requests : List (String × String)
  friends : List (String × String)
  current : Dict String Current
  history : List Past

structure Setup where
  ttl : ℚ
  retention : ℚ
  plus : ℚ → ℚ → ℚ
  minus : ℚ → ℚ → ℚ
  /-- `meters` of two pairs of coordinates. -/
  meters : ℚ × ℚ → ℚ × ℚ → ℚ
  sha256 : String → String
  /-- The order in which SQLite returns the rows of a query. -/
  scan : List (String × String) → List (String × String)
  scan_perm : ∀ rows, (scan rows).Perm rows
  cacheNamespace : String
  dumps : Report → String
  /-- The revision that the warming script reads in a cached text. -/
  cachedRevision : String → Option ℚ

/-! ### Validation -/

def isIdChar (ch : Char) : Bool :=
  ('A' ≤ ch && ch ≤ 'Z') || ('a' ≤ ch && ch ≤ 'z') || ('0' ≤ ch && ch ≤ '9') || ch = '_' || ch = '-'

/-- `user_id`. -/
def userId (value : String) : Except Error Unit :=
  if value.toList.all isIdChar = true ∧ 1 ≤ value.length ∧ value.length ≤ 64 then .ok ()
  else .error ⟨400, "invalid user ID"⟩

structure Location where
  latitude : ℚ
  longitude : ℚ
  timestamp : ℚ
  device : String

def location (body : Dict String Field) : Except Error Location :=
  if body.keys.all (fun key => key ∈ ["latitude", "longitude", "timestamp", "device"]) = true then
    match body.get? "latitude", body.get? "longitude", body.get? "timestamp" with
    | some (.number latitude), some (.number longitude), some (.number timestamp) =>
      if -90 ≤ latitude ∧ latitude ≤ 90 ∧ -180 ≤ longitude ∧ longitude ≤ 180 then
        match (body.get? "device").getD (.text "default") with
        | .text device => do
          userId device
          return ⟨latitude, longitude, timestamp, device⟩
        | _ => .error ⟨400, "invalid user ID"⟩
      else .error ⟨400, "coordinates outside allowed range"⟩
    | _, _, _ => .error ⟨400, "finite numeric coordinates/timestamp required"⟩
  else .error ⟨400, "invalid location fields"⟩

/-! ### Transactions -/

namespace Tables

variable (c : Setup)

/-- `_user`. -/
def user (db : Tables) (id : String) : Except Error User := do
  userId id
  match db.users.get? id with
  | some row => .ok row
  | none => .error ⟨404, "user not found"⟩

def provision (id token : String) (db : Tables) : Except Error Tables := do
  userId id
  if 8 ≤ token.length ∧ token.length ≤ 4096 then
    if (db.users.get? id).isNone ∧ db.users.values.all (fun row => row.token ≠ c.sha256 token) = true then
      .ok { db with users := db.users.set id ⟨c.sha256 token, false, false, 0, 0⟩ }
    else .error ⟨500, "UNIQUE constraint failed"⟩
  else .error ⟨500, "token must contain 8..4096 characters"⟩

/-- `sorted((actor, target))`. -/
def pair (actor target : String) : String × String := if target < actor then (target, actor) else (actor, target)

/-- The deletion of the requests between two users. -/
def withoutRequests (a b : String) (requests : List (String × String)) : List (String × String) :=
  requests.filter fun row => row ≠ (a, b) ∧ row ≠ (b, a)

/-- `INSERT OR IGNORE`. -/
def insertOrIgnore (row : String × String) (rows : List (String × String)) : List (String × String) :=
  if row ∈ rows then rows else rows ++ [row]

/-- `SELECT count(*) FROM friends WHERE a=? OR b=?`. -/
def friendCount (db : Tables) (id : String) : ℕ := db.friends.countP fun row => row.1 = id ∨ row.2 = id

def friendship (actor target operation : String) (db : Tables) : Except Error Tables := do
  userId actor
  userId target
  if operation ∉ ["friend.request", "friend.accept", "friend.remove"] then
    .error ⟨400, "invalid friendship operation"⟩
  else if actor = target then .error ⟨400, "cannot friend yourself"⟩
  else do
    let _ ← db.user actor
    let _ ← db.user target
    if operation = "friend.request" then
      .ok { db with requests := insertOrIgnore (actor, target) db.requests }
    else if operation = "friend.accept" then
      if (target, actor) ∉ db.requests then .error ⟨403, "no incoming friendship request"⟩
      else if 5000 ≤ db.friendCount actor ∨ 5000 ≤ db.friendCount target then
        .error ⟨409, "friend limit reached"⟩
      else .ok { db with
        friends := insertOrIgnore (pair actor target) db.friends
        requests := withoutRequests actor target db.requests }
    else .ok { db with
      friends := db.friends.filter fun row => row ≠ pair actor target
      requests := withoutRequests actor target db.requests }

def setting (actor kind : String) (enabled : Bool) (db : Tables) : Except Error Tables :=
  if kind ∉ ["sharing", "history"] then .error ⟨400, "setting requires boolean enabled"⟩
  else do
    let row ← db.user actor
    if kind = "sharing" then
      .ok { db with
        users := db.users.set actor { row with sharing := enabled, revision := row.revision + 1 }
        current := if enabled then db.current else db.current.erase actor }
    else
      .ok { db with
        users := db.users.set actor { row with history := enabled }
        history := if enabled then db.history else db.history.filter fun past => past.user ≠ actor }

def update (now : ℚ) (actor : String) (body : Dict String Field) (db : Tables) : Except Error (Report × Tables) := do
  userId actor
  let place ← location body
  let row ← db.user actor
  if ¬ (c.minus now c.ttl < place.timestamp ∧ place.timestamp ≤ c.plus now 30) then
    .error ⟨400, "timestamp outside allowed range"⟩
  else if row.sharing = false then .error ⟨403, "location sharing disabled"⟩
  else if place.timestamp ≤ row.lastTs then .error ⟨409, "non-increasing user timestamp"⟩
  else
    let report : Report := ⟨actor, place.latitude, place.longitude, place.timestamp, now, row.revision + 1, place.device⟩
    .ok (report, { db with
      users := db.users.set actor { row with revision := report.revision, lastTs := place.timestamp }
      current := db.current.set actor ⟨report, c.plus now c.ttl⟩
      history := if row.history then db.history ++ [⟨actor, report.revision, report, now⟩] else db.history })

/-- `DELETE FROM current WHERE expires<=?`, for the row of one user. -/
def dropExpired (now : ℚ) (db : Tables) (current : Dict String Current) (id : String) : Dict String Current :=
  match db.current.get? id with
  | some row => if row.expires ≤ now then current.erase id else current
  | none => current

/-- `_sweep`. -/
def sweep (now : ℚ) (db : Tables) : Tables :=
  { db with
    current := db.current.keys.foldl (db.dropExpired now) db.current
    history := db.history.filter fun past => ¬ past.received ≤ c.minus now c.retention }

/-- The current report of a user, unless it has expired. -/
def unexpired (now : ℚ) (db : Tables) (id : String) : Option Report :=
  match db.current.get? id with
  | some row => if now < row.expires then some row.body else none
  | none => none

/-- The join of `friends`, `users` and `current`. -/
def friendReport (now : ℚ) (db : Tables) (actor : String) (row : String × String) : Option Report :=
  if row.1 = actor ∨ row.2 = actor then
    let friend := if row.1 = actor then row.2 else row.1
    match db.users.get? friend with
    | some user => if user.sharing then db.unexpired now friend else none
    | none => none
  else none

def reports (now : ℚ) (actor : String) (db : Tables) : Except Error (Option Report × List Report) := do
  let viewer ← db.user actor
  if viewer.sharing then
    match db.unexpired now actor with
    | some own => .ok (some own, (c.scan db.friends).filterMap (db.friendReport now actor))
    | none => .ok (none, [])
  else .ok (none, [])

end Tables

/-! ### The cache -/

abbrev Cache := Dict String String

variable (c : Setup)

/-- `key`. -/
def cacheKey (id : String) : String := c.cacheNamespace ++ ":location:" ++ id

/-- The warming script. -/
def warm (now : ℚ) (report : Report) (cache : Cache) : Cache :=
  if c.plus report.receivedAt c.ttl ≤ now then cache
  else
    let newer := match cache.get? (cacheKey c report.id) with
      | some old => match c.cachedRevision old with
        | some revision => decide ((report.revision : ℚ) < revision)
        | none => false
      | none => false
    if newer then cache else cache.set (cacheKey c report.id) (c.dumps report)

/-- What happens to a repair: the reply to `mget`, if it is a list; for each batch whether
the time is up, how many of its scripts run and whether the pipeline fails then. -/
structure Weather where
  reply : Option (List (Option String))
  late : ℕ → Bool
  ran : ℕ → ℕ
  fails : ℕ → Bool
  now : ℚ

/-- The batches of `_repair_cache`, of which there are at most `fuel`. -/
def repairBatches (weather : Weather) : ℕ → ℕ → List Report → Cache → Cache
  | 0, _, _, cache => cache
  | _, _, [], cache => cache
  | fuel + 1, batch, repairs, cache =>
    if weather.late batch then cache
    else
      let ran := if weather.fails batch then weather.ran batch else 128
      let cache := ((repairs.take 128).take ran).foldl (fun cache report => warm c weather.now report cache) cache
      if weather.fails batch then cache
      else repairBatches weather fuel (batch + 1) (repairs.drop 128) cache

/-- `_repair_cache`. -/
def repairCache (weather : Weather) (reports : List Report) (cache : Cache) : Cache :=
  match weather.reply with
  | none => cache
  | some cached =>
    let repairs := (reports.zipIdx.filter fun entry => cached[entry.2]? ≠ some (some (c.dumps entry.1))).map Prod.fst
    repairBatches c weather repairs.length 0 repairs cache

/-! ### Snapshots -/

/-- An entry of a snapshot. -/
structure Nearby where
  id : String
  latitude : ℚ
  longitude : ℚ
  timestamp : ℚ
  revision : ℕ
  distanceM : ℚ
deriving DecidableEq

def distance (own report : Report) : ℚ := c.meters (own.latitude, own.longitude) (report.latitude, report.longitude)

def nearby (own report : Report) : Nearby :=
  ⟨report.id, report.latitude, report.longitude, report.timestamp, report.revision, distance c own report⟩

/-- The order of the result. -/
def Nearby.key (row : Nearby) : ℚ ×ₗ String := toLex (row.distanceM, row.id)

/-- The result from the last read. -/
def select (radius : ℚ) (own : Report) (reports : List Report) : List Nearby :=
  ((reports.filter fun report => decide (distance c own report ≤ c.plus radius (1 / 1000000))).map (nearby c own)).mergeSort
    fun row row' => row.key ≤ row'.key

/-- The tables and the reading of the clock when a transaction reads. -/
structure Moment where
  db : Tables
  now : ℚ

/-- `snapshot`, from what its two reads find and what happens to the repair between them. -/
def snapshot (actor : String) (radius : ℚ) (first last : Moment) (weather : Weather) (cache : Cache) :
    Except Error (List Nearby) × Cache :=
  if ¬ (0 < radius ∧ radius ≤ 100000) then (.error ⟨400, "radius must be within (0,100000] meters"⟩, cache)
  else match first.db.reports c first.now actor with
    | .error err => (.error err, cache)
    | .ok (none, _) => (.ok [], cache)
    | .ok (some _, reports) =>
      let cache := repairCache c weather reports cache
      match last.db.reports c last.now actor with
      | .error err => (.error err, cache)
      | .ok (none, _) => (.ok [], cache)
      | .ok (some own, reports) => (.ok (select c radius own reports), cache)

end SystemDesign.NearbyFriends
