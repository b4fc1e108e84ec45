import SystemDesign.Lib.Py
import SystemDesign.Lib.Transaction
import SystemDesign.Lib.Transitions

/-!
Location reports and the traffic derived from them (`telemetry.py`, with what `store.py`, `models.py`,
`geo.py` and `catalog.py` lend to it).

The store is a primary. A report, a road or a traffic record whose fields have other types is refused before the
transaction begins and is not represented. Spherical geometry, sums of floats and the text that a
report is hashed as are parameters.
-/

namespace SystemDesign.Maps

/-! ### Records -/

structure Report where
  eventId : String
  sequence : ℤ
  timestamp : ℚ
  latitude : Option ℚ
  longitude : Option ℚ
  mode : Option String
  heading : Option ℚ
deriving DecidableEq

/-- A row of `spatial_edges`. -/
structure Edge where
  id : String
  source : ℚ × ℚ
  target : ℚ × ℚ
  length : ℚ
  modes : List String
deriving DecidableEq

structure Catalog where
  edges : List Edge
deriving DecidableEq

structure Match where
  edge : String
  fraction : ℚ
  gap : ℚ
  length : ℚ
  trafficEligible : Bool
deriving DecidableEq

/-- What an accepted report is answered with, now and on every replay. -/
structure Stored where
  eventId : String
  sequence : ℤ
  current : Bool
  graph : String
  matched : Option Match
  report : Report
deriving DecidableEq

structure Event where
  hash : String
  result : Stored
  received : ℚ
deriving DecidableEq

structure Position where
  sequence : ℤ
  timestamp : ℚ
  latitude : ℚ
  longitude : ℚ
  graph : String
  mode : String
  matched : Option Match
  received : ℚ
deriving DecidableEq

structure Sample where
  edge : String
  speed : ℚ
  received : ℚ
deriving DecidableEq

structure Traffic where
  speed : Option ℚ
  closed : Bool
  expires : ℚ

/-- A report that was accepted, with what it wrote, for statements only. -/
structure Applied where
  user : String
  report : Report
  event : Event
  position : Option Position
  sample : Option Sample
  /-- The catalog it was matched against. -/
  catalog : Catalog
deriving DecidableEq

def Applied.key (a : Applied) : String × String := (a.user, a.report.eventId)

structure Db where
  users : List String
  ready : Bool
  graph : String
  revision : ℕ
  trafficVersion : ℕ
  catalog : Catalog
  events : Dict (String × String) Event
  positions : Dict String Position
  samples : Dict (String × String) Sample
  traffic : Dict String Traffic
  /-- What was accepted and which catalogs were installed so far, for statements only. -/
  log : List Applied
  installed : List Catalog

abbrev Box := ℚ × ℚ × ℚ × ℚ

/-- Differences of floats are rounded, which keeps their order. -/
structure Setup where
  minus : ℚ → ℚ → ℚ
  plus : ℚ → ℚ → ℚ
  minus_mono : ∀ d, Monotone (minus · d)
  nearbyBoxes : ℚ → ℚ → List Box
  spatialEdges : Catalog → Box → List Edge
  spatialEdges_mem : ∀ catalog box edge, edge ∈ spatialEdges catalog box → edge ∈ catalog.edges
  /-- `match_point`: gap, fraction and bearing. -/
  matchPoint : ℚ × ℚ → Edge → ℚ × ℚ × ℚ
  /-- The angle between a bearing and a heading. -/
  turn : ℚ → ℚ → ℚ
  /-- The speed from one fraction of a length to another in an interval. -/
  speed : ℚ → ℚ → ℚ → ℚ → ℚ
  mean : List ℚ → ℚ
  fingerprint : Report → String
  uuid : ℕ → String
  uuid_injective : Function.Injective uuid

/-! ### Checks -/

def allModes : List String := ["driving", "walking", "cycling"]

def isIdentifier (value : String) : Bool :=
  1 ≤ value.toList.length && value.toList.length ≤ 64 && value.toList.all fun c => c.isAlphanum || c = '_' || c = '-'

def identifier (value : String) : Py Unit := require (isIdentifier value = true) (.valueError "invalid identifier")

def positive (value maximum : ℚ) : Py ℚ := do
  require (0 < value ∧ value ≤ maximum) (.valueError "invalid positive numeric value")
  return value

/-- `coordinates` of what a report carries: a field that is missing is no key of it. -/
def coordinates : Option ℚ → Option ℚ → Py (ℚ × ℚ)
  | none, _ => .error (.keyError "latitude")
  | some _, none => .error (.keyError "longitude")
  | some lat, some lon => do
    require (-90 ≤ lat ∧ lat ≤ 90 ∧ -180 ≤ lon ∧ lon ≤ 180) (.valueError "invalid WGS84 coordinates")
    return (lat, lon)

def Report.drivingMode (body : Report) : String := body.mode.getD "driving"

/-- `models.report`. -/
def validateReport (body : Report) : Py Unit := do
  identifier body.eventId
  require (0 ≤ body.sequence ∧ body.sequence < 2 ^ 53) (.valueError "invalid report sequence")
  require (body.drivingMode ∈ allModes) (.valueError "invalid report mode")
  require (∀ heading ∈ body.heading, 0 ≤ heading ∧ heading < 360) (.valueError "invalid heading")

/-! ### Map matching -/

variable (c : Setup)

structure Candidate where
  gap : ℚ
  angle : ℚ
  edge : String
  fraction : ℚ
  length : ℚ

/-- The order of the tuples that candidates are sorted as; their edges are distinct. -/
def Candidate.le (a b : Candidate) : Bool :=
  a.gap < b.gap || (a.gap = b.gap && (a.angle < b.angle || (a.angle = b.angle && decide (a.edge ≤ b.edge))))

/-- One row of the boxes around a point: the roads examined so far and the candidates among them. -/
def examine (point : ℚ × ℚ) (mode : String) (heading : Option ℚ) (state : List String × Dict String Candidate)
    (row : Edge) : Py (List String × Dict String Candidate) := do
  let examined := state.1.insert row.id
  require (examined.length ≤ 10000) (.http 413 "map matching candidate budget exceeded")
  if mode ∈ row.modes then
    let (gap, fraction, bearing) := c.matchPoint point row
    let angle := heading.elim 0 (c.turn bearing)
    if gap ≤ 100 ∧ angle ≤ 60 then
      return (examined, state.2.set row.id ⟨gap, angle, row.id, fraction, row.length⟩)
    else return (examined, state.2)
  else return (examined, state.2)

/-- The nearest candidate, unless there is none. -/
def nearest (heading : Option ℚ) : List Candidate → Option Match
  | [] => none
  | best :: others =>
    let near := match others with
      | [] => false
      | other :: _ => |c.minus other.gap best.gap| < 1 && |c.minus other.angle best.angle| < 5
    some ⟨best.edge, best.fraction, best.gap, best.length, !(heading.isNone || near)⟩

/-- `match`. -/
def Catalog.matchRoad (catalog : Catalog) (lat lon : ℚ) (mode : String) (heading : Option ℚ) : Py (Option Match) := do
  require (∀ angle ∈ heading, 0 ≤ angle ∧ angle < 360) (.valueError "invalid heading")
  require (mode ∈ allModes) (.valueError "invalid matching mode")
  let rows := (c.nearbyBoxes lat lon).flatMap (c.spatialEdges catalog)
  let (_, candidates) ← rows.foldlM (examine c (lat, lon) mode heading) ([], .empty)
  return nearest c heading (candidates.values.insertionSort fun a b => a.le b = true)

/-! ### Ingestion -/

/-- The rows that a deletion leaves. -/
def keepRows {κ ν : Type} (p : κ → ν → Bool) (d : Dict κ ν) : Dict κ ν :=
  ⟨d.entries.filter fun e => p e.1 e.2, d.nodup.sublist (List.filter_sublist.map _)⟩

/-- `_prune`, of one user or of all. -/
def Db.prune (now : ℚ) (user : Option String) (db : Db) : Db :=
  let mine (name : String) : Bool := user.all (name = ·)
  { db with
    events := keepRows (fun key row => !(mine key.1 && row.received ≤ c.minus now 86400)) db.events
    positions := keepRows (fun name row => !(mine name && row.received ≤ c.minus now 86400)) db.positions
    samples := keepRows (fun key row => !(mine key.1 && row.received ≤ c.minus now 300)) db.samples }

def advances (previous : Option Position) (body : Report) : Bool :=
  match previous with
  | none => true
  | some row => row.sequence < body.sequence && row.timestamp < body.timestamp

/-- The speed between two positions on one road, where it makes a sample. -/
def Db.sampleOf (now : ℚ) (previous : Option Position) (next : Position) (db : Db) : Option Sample :=
  match previous, next.matched with
  | some old, some matched =>
    match old.matched with
    | some oldMatch =>
      let interval := c.minus next.timestamp old.timestamp
      let speed := c.speed matched.fraction oldMatch.fraction matched.length interval
      if next.mode = "driving" ∧ matched.trafficEligible = true ∧ old.graph = db.graph ∧ old.mode = "driving" ∧
          oldMatch.trafficEligible = true ∧ oldMatch.edge = matched.edge ∧ 1 ≤ interval ∧ interval ≤ 120 ∧
          c.minus now 300 < old.timestamp ∧ old.timestamp ≤ next.timestamp ∧ next.timestamp ≤ c.plus now 30 ∧
          1 / 2 ≤ speed ∧ speed ≤ 50 then
        some ⟨matched.edge, speed, now⟩
      else none
    | none => none
  | _, _ => none

/-- A plain `INSERT`. -/
def insertNew {κ ν : Type} [DecidableEq κ] (d : Dict κ ν) (k : κ) (v : ν) : Py (Dict κ ν) := do
  require (d.get? k = none) (.valueError "UNIQUE constraint failed")
  return d.set k v

/-- A report with an event identifier that no row has. -/
def Db.accept (user : String) (now : ℚ) (body : Report) (db : Db) : Py (Db × Stored) := do
  require ((0 ≤ body.sequence ∧ body.sequence < 2 ^ 53) ∧ c.minus now 86400 < body.timestamp ∧
    body.timestamp ≤ c.plus now 30) (.valueError "invalid report sequence/timestamp")
  let (lat, lon) ← coordinates body.latitude body.longitude
  require (body.drivingMode ∈ allModes) (.valueError "invalid report mode")
  let matched ← db.catalog.matchRoad c lat lon body.drivingMode body.heading
  let previous := db.positions.get? user
  let current := advances previous body
  let stored : Stored := ⟨body.eventId, body.sequence, current, db.graph, matched, body⟩
  let position : Position := ⟨body.sequence, body.timestamp, lat, lon, db.graph, body.drivingMode, matched, now⟩
  let sample := if current then db.sampleOf c now previous position else none
  let samples ← sample.elim (.ok db.samples) (insertNew db.samples (user, body.eventId))
  let event : Event := ⟨c.fingerprint body, stored, now⟩
  let events ← insertNew db.events (user, body.eventId) event
  return ({ db with
    events := events
    positions := if current then db.positions.set user position else db.positions
    samples := samples
    log := db.log ++ [⟨user, body, event, if current then some position else none, sample, db.catalog⟩] }, stored)

def ingestOne (user : String) (now : ℚ) (state : Db × List Stored) (body : Report) : Py (Db × List Stored) := do
  identifier body.eventId
  match state.1.events.get? (user, body.eventId) with
  | some row => do
    require (row.hash = c.fingerprint body) (.http 409 "event ID reused with different report")
    return (state.1, state.2 ++ [row.result])
  | none => do
    let (db, stored) ← state.1.accept c user now body
    return (db, state.2 ++ [stored])

def Db.ingest (user : String) (reports : List Report) (now : ℚ) (db : Db) : Py (Db × List Stored) := do
  require (1 ≤ reports.length ∧ reports.length ≤ 100) (.valueError "batch requires 1..100 reports")
  identifier user
  reports.forM validateReport
  require (db.ready = true) (.http 503 "no road catalog installed")
  require (user ∈ db.users) (.http 404 "user not found")
  reports.foldlM (ingestOne c user now) (db.prune c now (some user), [])

/-! ### Traffic -/

def trafficSpeed : Option ℚ → Py (Option ℚ)
  | none => .ok none
  | some speed => do
    let speed ← positive speed 100
    return some speed

/-- `_traffic_record`. -/
def Db.trafficRecord (edge : String) (speed : Option ℚ) (closed : Bool) (expires : ℚ) (db : Db) : Py Db := do
  require (edge ∈ db.catalog.edges.map Edge.id) (.http 404 "traffic edge missing")
  let speed ← trafficSpeed speed
  require (closed = true ∨ speed ≠ none) (.valueError "traffic speed required unless closed")
  return { db with traffic := db.traffic.set edge ⟨speed, closed, expires⟩ }

structure TrafficRecord where
  edge : String
  speed : Option ℚ
  closed : Bool

/-- `traffic`. -/
def Db.setTraffic (records : List TrafficRecord) (ttl : ℚ) (now : ℚ) (db : Db) : Py (Db × ℕ × ℕ) := do
  let ttl ← positive ttl 3600
  require (1 ≤ records.length ∧ records.length ≤ 100) (.valueError "traffic batch requires 1..100 edges")
  records.forM fun record => identifier record.edge
  require (db.ready = true) (.http 503 "no road catalog installed")
  let written ← records.foldlM (fun db record => db.trafficRecord record.edge record.speed record.closed (c.plus now ttl)) db
  return ({ written with revision := db.revision + 1, trafficVersion := db.trafficVersion + 1 },
    db.revision + 1, db.trafficVersion + 1)

/-- The speed of each user's newest sample on each road. -/
def Db.speeds (now : ℚ) (db : Db) : Dict String (Dict String ℚ) :=
  let rows := (db.samples.entries.filter fun e => c.minus now 300 < e.2.received).insertionSort
    fun a b => a.2.received ≤ b.2.received
  rows.foldl (fun byEdge e => byEdge.set e.2.edge (((byEdge.get? e.2.edge).getD .empty).set e.1.1 e.2.speed)) .empty

structure Updated where
  edge : String
  speed : ℚ
  distinctUsers : ℕ

def aggregateEdge (minUsers : ℤ) (now : ℚ) (closed : List String) (state : Db × List Updated)
    (e : String × Dict String ℚ) : Py (Db × List Updated) := do
  if e.1 ∈ closed then return state
  else if minUsers ≤ e.2.values.length then
    let speed := c.mean e.2.values
    let db ← state.1.trafficRecord e.1 (some speed) false (c.plus now 300)
    return (db, state.2 ++ [⟨e.1, speed, e.2.values.length⟩])
  else return state

def Db.aggregate (minUsers : ℤ) (now : ℚ) (db : Db) : Py (Db × List Updated × ℕ) := do
  require (2 ≤ minUsers ∧ minUsers ≤ 100) (.valueError "at least two distinct users required")
  require (db.ready = true) (.http 503 "no road catalog installed")
  let closed := (db.traffic.entries.filter fun e => e.2.closed && decide (now < e.2.expires)).map Prod.fst
  let (written, records) ← (db.speeds c now).entries.foldlM (aggregateEdge c minUsers now closed) (db, [])
  if records.isEmpty then return (written, records, db.trafficVersion)
  else return ({ written with revision := db.revision + 1, trafficVersion := db.trafficVersion + 1 },
    records, db.trafficVersion + 1)

/-! ### Catalogs -/

/-- `import_graph` of a graph that was prepared; the hook may fail. -/
def Db.importGraph (catalog : Catalog) (hook : Py Unit) (db : Db) : Py (Db × Unit) := do
  hook
  return ({ db with
    ready := true
    graph := c.uuid db.installed.length
    revision := db.revision + 1
    trafficVersion := 0
    catalog := catalog
    samples := .empty
    traffic := .empty
    installed := db.installed ++ [catalog] }, ())

def Db.provision (user : String) (db : Db) : Py (Db × Unit) := do
  identifier user
  require (user ∉ db.users) (.valueError "UNIQUE constraint failed")
  return ({ db with users := user :: db.users }, ())

/-! ### Calls -/

inductive Call where
  | provision (user : String)
  | ingest (user : String) (reports : List Report)
  | prune
  | importGraph (catalog : Catalog) (hook : Py Unit)
  | traffic (records : List TrafficRecord) (ttl : ℚ)
  | aggregate (minUsers : ℤ)

inductive Reply where
  | done
  | reports (stored : List Stored)
  | versions (revision trafficVersion : ℕ)
  | updated (records : List Updated) (trafficVersion : ℕ)

def Call.body (now : ℚ) : Call → Db → Py (Db × Reply)
  | .provision user, db => do
    let (db, _) ← db.provision user
    return (db, .done)
  | .ingest user reports, db => do
    let (db, stored) ← db.ingest c user reports now
    return (db, .reports stored)
  | .prune, db => return (db.prune c now none, .done)
  | .importGraph catalog hook, db => do
    let (db, _) ← db.importGraph c catalog hook
    return (db, .done)
  | .traffic records ttl, db => do
    let (db, revision, version) ← db.setTraffic c records ttl now
    return (db, .versions revision version)
  | .aggregate minUsers, db => do
    let (db, records, version) ← db.aggregate c minUsers now
    return (db, .updated records version)

/-- A call, as a write transaction. -/
def Db.perform (call : Call) (now : ℚ) (db : Db) : Db × Py Reply := transaction db (call.body c now)

structure Server where
  clock : ℚ
  db : Db

/-- A new store has a graph identifier of its own and no catalog. -/
def Db.new : Db where
  users := []
  ready := false
  graph := c.uuid 0
  revision := 0
  trafficVersion := 0
  catalog := ⟨[]⟩
  events := .empty
  positions := .empty
  samples := .empty
  traffic := .empty
  log := []
  installed := [⟨[]⟩]

/-- Transactions are taken one after another, at times that never go back. -/
def telemetry : Transitions Server where
  start s := s = ⟨0, .new c⟩
  step s s' := ∃ call, s.clock ≤ s'.clock ∧ s'.db = (s.db.perform c call s'.clock).1

end SystemDesign.Maps
