import SystemDesign.Maps.Telemetry

/-!
Navigation sessions and their refresh (`tracking.py`, with the tiles of `geo.py`).

The search of `route` and the floats of the projection are parameters. Of a result the fields that the tracker reads
are kept apart, and the others are one text. A body whose fields have other types is refused before anything is read
and is not represented; neither is the waiting of `events`.
-/

namespace SystemDesign.Maps

deriving instance DecidableEq for Traffic

/-- What a session asks for: its origin and the other fields. -/
structure Options where
  origin : String
  others : String

/-- A candidate: roads one after another from a point. -/
structure Route where
  start : ℚ × ℚ
  edges : List Edge
  others : String
deriving DecidableEq

structure Result where
  graph : String
  trafficVersion : ℕ
  routes : List Route
  error : Option (ℕ × String)
  others : String
deriving DecidableEq

def Route.geometry (route : Route) : List (ℚ × ℚ) := route.start :: route.edges.map Edge.target

/-- Each road begins where the one before it ends. -/
def Connected : ℚ × ℚ → List Edge → Prop
  | _, [] => True
  | point, edge :: edges => edge.source = point ∧ Connected edge.target edges

structure Tile where
  z : ℕ
  x : ℕ
  y : ℕ
deriving DecidableEq

structure Tracker where
  setup : Setup
  route : Db → ℚ → Options → Py Result
  route_path : ∀ db now options result, route db now options = .ok result → ∀ r ∈ result.routes,
    Connected r.start r.edges ∧ ∀ edge ∈ r.edges, edge ∈ db.catalog.edges
  /-- The length of an encoded result. -/
  size : Result → ℕ
  project : ℚ × ℚ → ℚ × ℚ
  unproject : ℚ → ℚ → ℚ × ℚ
  refreshInterval : ℚ
  maxSessions : ℕ

variable (c : Tracker)

/-! ### Tiles -/

def Tracker.cell (point : ℚ × ℚ) (z : ℕ) : ℕ × ℕ :=
  let p := c.project point
  (min (2 ^ z - 1) ⌊p.1 * 2 ^ z⌋.toNat, min (2 ^ z - 1) ⌊p.2 * 2 ^ z⌋.toNat)

/-- The tile of a level that a cell of level 16 is in. -/
def ancestor (cell : ℕ × ℕ) (z : ℕ) : Tile := ⟨z, cell.1 >>> (16 - z), cell.2 >>> (16 - z)⟩

/-- `_cover`. -/
def Tracker.cover (result : Result) : Tile :=
  let tiles := (result.routes.flatMap Route.geometry).map fun point => c.cell point 16
  ((List.range 17).reverse.findSome? fun z => match (tiles.map fun tile => ancestor tile z).dedup with
    | [tile] => some tile
    | _ => none).getD ⟨0, 0, 0⟩

def Tracker.boxes (edge : Edge) : List Box :=
  let south := min edge.source.1 edge.target.1
  let north := max edge.source.1 edge.target.1
  let west := min edge.source.2 edge.target.2
  let east := max edge.source.2 edge.target.2
  if 180 < c.setup.minus east west then [(east, 180, south, north), (-180, west, south, north)]
  else [(west, east, south, north)]

/-- `_intersects`. -/
def Tracker.intersects (tile : Tile) (changes : List Box) : Bool :=
  let n : ℚ := 2 ^ tile.z
  let (north, west) := c.unproject (tile.x / n) (tile.y / n)
  let (south, east) := c.unproject ((tile.x + 1) / n) ((tile.y + 1) / n)
  let north := if tile.y = 0 then 90 else north
  let south := if tile.y + 1 = 2 ^ tile.z then -90 else south
  changes.any fun (w, e, s, h) => w ≤ east && west ≤ e && s ≤ north && south ≤ h

/-! ### Sessions -/

structure Session where
  user : String
  options : Options
  result : Result
  revision : ℕ
  expires : ℚ
  updated : ℚ
  nextRefresh : ℚ
  tile : Tile
  /-- The state that the result was computed in, for statements only. -/
  read : ℕ

/-- A call between its transactions. -/
inductive Work where
  | create (user : String) (options : Options) (ttl : ℚ) (result : Result) (read : ℕ)
  | move (user id : String) (options : Options) (revision : ℕ)
  | moved (user id : String) (options : Options) (revision : ℕ) (result : Result) (read : ℕ)

/-- Where `run_once` has got to. -/
inductive RunPhase where
  | state
  | boxes (affected : List Box)
  | rows (affected : List Box) (now : ℚ) (rest : List (String × Session))
  | routed (affected : List Box) (now : ℚ) (id : String) (row : Session) (result : Result) (tile : Tile) (read : ℕ)
      (rest : List (String × Session))

structure Run where
  graph : String
  trafficVersion : ℕ
  traffic : Dict String Traffic
  force : Bool
  changed : List String
  phase : RunPhase
  /-- The state that was read, for statements only. -/
  began : ℕ

/-- The states of the store so far, the sessions and the tracker. -/
structure Tracking where
  states : ℕ → Server
  age : ℕ
  sessions : Dict String Session
  drawn : ℕ
  works : ℕ → Option Work
  previous : Option (String × Dict String Traffic)
  run : Option Run
  /-- What was last read by a run, and by a run that completed, for statements only. -/
  lastRead : ℕ
  finished : Option ℕ

/-- `_state`. -/
def active (server : Server) : Dict String Traffic := keepRows (fun _ row => server.clock < row.expires) server.db.traffic

/-- The roads whose traffic differs, in any order. -/
def changedEdges (old new : Dict String Traffic) : List String :=
  (old.keys ++ new.keys).dedup.filter fun edge => old.get? edge ≠ new.get? edge

/-- `_changed_boxes`. -/
def Tracker.changedBoxes (edges : List String) (server : Server) : List Box :=
  (server.db.catalog.edges.filter fun edge => edge.id ∈ edges).flatMap c.boxes

/-- The search and `_encoded`. -/
def Tracker.compute (options : Options) (server : Server) : Py Result := do
  let result ← c.route server.db server.clock options
  require (c.size result ≤ 2 * 1024 * 1024) (.http 413 "navigation route too large; reduce search options")
  return result

/-- What a run has after its first transaction. -/
def Run.start (previous : Option (String × Dict String Traffic)) (server : Server) (began : ℕ) : Run :=
  let traffic := active server
  let changed := changedEdges (previous.elim .empty Prod.snd) traffic
  let force := previous.elim true fun last => last.1 ≠ server.db.graph
  ⟨server.db.graph, server.db.trafficVersion, traffic, force || 1024 < changed.length, changed, .state, began⟩

def Run.affected (run : Run) (server : Server) : List Box :=
  if run.force || run.changed.isEmpty then [] else c.changedBoxes run.changed server

/-- A row that a run leaves alone. -/
def Run.passes (affected : List Box) (now : ℚ) (row : Session) (run : Run) : Bool :=
  !run.force && now < row.nextRefresh && !c.intersects row.tile affected

/-- The new result of a row and its tile. -/
def Run.refresh (row : Session) (server : Server) (run : Run) : Py (Result × Tile) :=
  match c.compute row.options server with
  | .ok result => .ok (result, c.cover result)
  | .error (.http status message) => .ok (⟨run.graph, run.trafficVersion, [], some (status, message), ""⟩, row.tile)
  | .error error => .error error

namespace Tracking

def server (s : Tracking) : Server := s.states s.age

def advance (server : Server) (s : Tracking) : Tracking :=
  { s with states := Function.update s.states (s.age + 1) server, age := s.age + 1 }

/-- `_lookup`. -/
def lookup (user id : String) (s : Tracking) : Option Session :=
  (s.sessions.get? id).filter fun row => row.user = user && s.server.clock < row.expires

/-- The sessions but for those that have expired. -/
def kept (s : Tracking) : Dict String Session := keepRows (fun _ row => s.server.clock < row.expires) s.sessions

/-- A look of `events`. -/
def events (user id : String) (after : ℕ) (s : Tracking) : Py (List (ℕ × Result)) :=
  match s.lookup user id with
  | none => .error (.http 404 "navigation session not found")
  | some row =>
    if row.revision < after then .error (.http 409 "event cursor is ahead of navigation session")
    else .ok (if after < row.revision then [(row.revision, row.result)] else [])

/-- The last transaction of a run for a row. -/
def refreshed (id : String) (row : Session) (result : Result) (tile : Tile) (read : ℕ) (s : Tracking) : Dict String Session :=
  match s.sessions.get? id with
  | none => s.sessions
  | some current =>
    if current.revision = row.revision ∧ s.server.clock < current.expires then
      s.sessions.set id { current with
        result := result
        revision := if result = row.result then current.revision else current.revision + 1
        updated := s.server.clock
        nextRefresh := c.setup.plus s.server.clock c.refreshInterval
        tile := tile
        read := read }
    else s.sessions

/-- From a state of the store to the next, the graph changed or the traffic of one of the roads. -/
def Touches (n : ℕ) (result : Result) (s : Tracking) : Prop :=
  (s.states n).db.graph ≠ (s.states (n + 1)).db.graph ∨ ∃ route ∈ result.routes, ∃ edge ∈ route.edges,
    (active (s.states n)).get? edge.id ≠ (active (s.states (n + 1))).get? edge.id

def Untouched (result : Result) (first last : ℕ) (s : Tracking) : Prop := ∀ n, first ≤ n → n < last → ¬ s.Touches n result

/-- The traffic of a road that changed since the last run is another than it was then, and the tiles of the road's
source meet its boxes. -/
def Visible (run : Run) (result : Result) (s : Tracking) : Prop := ∀ route ∈ result.routes, ∀ edge ∈ route.edges,
  (∀ last, s.finished = some last → (active (s.states last)).get? edge.id = (active (s.states run.began)).get? edge.id →
    ∀ n, last ≤ n → n < run.began → (active (s.states n)).get? edge.id = (active (s.states (n + 1))).get? edge.id) ∧
  ∀ z ≤ 16, c.intersects (ancestor (c.cell edge.source 16) z) (c.boxes edge) = true

end Tracking

open Tracking

/-- The proposition of a step is when it is tidy. -/
inductive Tracks (s : Tracking) : Prop → Tracking → Prop
  | perform (call : Call) (clock : ℚ) (hclock : s.server.clock ≤ clock) :
      Tracks s True (s.advance ⟨clock, (s.server.db.perform c.setup call clock).1⟩)
  | createRoute (i : ℕ) (hfree : s.works i = none) (user : String) (options : Options) (ttl : ℚ) (httl : 0 < ttl ∧ ttl ≤ 3600)
      {result : Result} (h : c.compute options s.server = .ok result) :
      Tracks s True { s with works := Function.update s.works i (some (.create user options ttl result s.age)) }
  | create (i : ℕ) (user : String) (options : Options) (ttl : ℚ) (result : Result) (read : ℕ)
      (hwork : s.works i = some (.create user options ttl result read)) (huser : user ∈ s.server.db.users)
      (hroom : s.kept.entries.length < c.maxSessions) :
      Tracks s (s.Untouched result read s.lastRead) { s with
        sessions := s.kept.set (c.setup.uuid s.drawn) ⟨user, options, result, 1, c.setup.plus s.server.clock ttl, s.server.clock,
          c.setup.plus s.server.clock c.refreshInterval, c.cover result, read⟩
        drawn := s.drawn + 1
        works := Function.update s.works i none }
  | moveRead (i : ℕ) (hfree : s.works i = none) (user id origin : String) {row : Session} (h : s.lookup user id = some row) :
      Tracks s True { s with
        works := Function.update s.works i (some (.move user id ⟨origin, row.options.others⟩ row.revision)) }
  | moveRoute (i : ℕ) (user id : String) (options : Options) (revision : ℕ)
      (hwork : s.works i = some (.move user id options revision)) {result : Result} (h : c.compute options s.server = .ok result) :
      Tracks s True { s with works := Function.update s.works i (some (.moved user id options revision result s.age)) }
  | move (i : ℕ) (user id : String) (options : Options) (revision : ℕ) (result : Result) (read : ℕ)
      (hwork : s.works i = some (.moved user id options revision result read)) {row : Session} (h : s.lookup user id = some row)
      (hrevision : row.revision = revision) :
      Tracks s (s.Untouched result read s.lastRead) { s with
        sessions := s.sessions.set id { row with
          options := options
          result := result
          revision := revision + 1
          updated := s.server.clock
          nextRefresh := c.setup.plus s.server.clock c.refreshInterval
          tile := c.cover result
          read := read }
        works := Function.update s.works i none }
  /-- A call raises, or finds the session changed. -/
  | drop (i : ℕ) : Tracks s True { s with works := Function.update s.works i none }
  | remove (user id : String) {row : Session} (h : s.sessions.get? id = some row) (huser : row.user = user) :
      Tracks s True { s with sessions := s.sessions.erase id }
  | runState (hrun : s.run = none) (hready : s.server.db.ready = true) :
      Tracks s True { s with run := some (.start s.previous s.server s.age), lastRead := s.age }
  | runBoxes (run : Run) (hrun : s.run = some run) (hphase : run.phase = .state) :
      Tracks s (s.server.db.graph = run.graph) { s with run := some { run with phase := .boxes (run.affected c s.server) } }
  | runRows (run : Run) (hrun : s.run = some run) (affected : List Box) (hphase : run.phase = .boxes affected)
      (rows : List (String × Session)) (hrows : rows.Perm s.kept.entries) :
      Tracks s True { s with sessions := s.kept, run := some { run with phase := .rows affected s.server.clock rows } }
  | runPass (run : Run) (hrun : s.run = some run) (affected : List Box) (now : ℚ) (id : String) (row : Session)
      (rest : List (String × Session)) (hphase : run.phase = .rows affected now ((id, row) :: rest))
      (hpasses : run.passes c affected now row = true) :
      Tracks s (s.Visible c run row.result) { s with run := some { run with phase := .rows affected now rest } }
  | runRoute (run : Run) (hrun : s.run = some run) (affected : List Box) (now : ℚ) (id : String) (row : Session)
      (rest : List (String × Session)) (hphase : run.phase = .rows affected now ((id, row) :: rest))
      (hdue : run.passes c affected now row = false) {result : Result} {tile : Tile}
      (h : run.refresh c row s.server = .ok (result, tile)) :
      Tracks s True { s with run := some { run with phase := .routed affected now id row result tile s.age rest } }
  | runInstall (run : Run) (hrun : s.run = some run) (affected : List Box) (now : ℚ) (id : String) (row : Session)
      (result : Result) (tile : Tile) (read : ℕ) (rest : List (String × Session))
      (hphase : run.phase = .routed affected now id row result tile read rest) :
      Tracks s True { s with
        sessions := s.refreshed c id row result tile read
        run := some { run with phase := .rows affected now rest } }
  | runDone (run : Run) (hrun : s.run = some run) (affected : List Box) (now : ℚ) (hphase : run.phase = .rows affected now []) :
      Tracks s True { s with previous := some (run.graph, run.traffic), run := none, finished := some run.began }
  | runFails : Tracks s True { s with run := none }
  /-- A tracker is stopped, and the next one has no snapshot. -/
  | restart : Tracks s True { s with run := none, previous := none }

def Tracking.init : Tracking where
  states _ := ⟨0, .new c.setup⟩
  age := 0
  sessions := .empty
  drawn := 0
  works _ := none
  previous := none
  run := none
  lastRead := 0
  finished := none

def tracking : Transitions Tracking where
  start s := s = .init c
  step s s' := ∃ tidy, Tracks c s tidy s'

def tidyTracking : Transitions Tracking where
  start s := s = .init c
  step s s' := ∃ tidy, Tracks c s tidy s' ∧ tidy

end SystemDesign.Maps
