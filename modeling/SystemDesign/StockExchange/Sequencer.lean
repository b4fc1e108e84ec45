import SystemDesign.StockExchange.Commands

/-!
The sequencer and its journal (`storage.py`, `common.py`).

Calls run on one SQLite database. A call is a function from the database to an
outcome and the database it leaves, writes made before an exception included;
`transaction` is what rolls them back. Rows are stored as the JSON text the
source writes and read back through `json.loads`.

Arguments of calls are JSON values without repeated keys, as every Python
dictionary is.
-/

namespace SystemDesign.StockExchange

/-- A value a caller can pass. -/
abbrev PyValue := { value : Json // value.WF }

/-! ### The hash chain -/

def zeroHash : String := String.ofList (List.replicate 64 '0')

/-- What the hash of a row covers. -/
def entryBase (seq : ℤ) (previous : String) (event : Json) : Json :=
  .obj [("seq", .int seq), ("previous", .str previous), ("event", event)]

def entryHash (seq : ℤ) (previous : String) (event : Json) : String := checksum (entryBase seq previous event)

def entry (seq : ℤ) (previous : String) (event : Json) : Json :=
  .obj [("seq", .int seq), ("previous", .str previous), ("event", event), ("hash", .str (entryHash seq previous event))]

/-- `json.loads` of a stored row. -/
def readRow (text : String) : Py Json :=
  match Json.loads text with
  | some row => .ok row
  | none => .error (.valueError "invalid JSON")

/-- A field that the source uses as an integer. -/
def intItem (row : Json) (key : String) : Py ℤ := do
  match ← item row key with
  | .int n => return n
  | _ => throw (.typeError key)

/-- A field that the source uses as a string. -/
def strItem (row : Json) (key : String) : Py String := do
  match ← item row key with
  | .str s => return s
  | _ => throw (.typeError key)

/-! ### The database -/

structure Control where
  epoch : ℤ
  active : String
  timestamp : ℤ

/-- A row of `requests` without its primary key. -/
structure Receipt where
  hash : String
  seq : ℤ
deriving DecidableEq

/-- The tables `events`, `requests` (by owner and id) and `control`. -/
structure Db where
  events : SortedMap ℤ String
  requests : Dict (String × String) Receipt
  control : Option Control

def Db.empty : Db := ⟨.empty, .empty, none⟩

/-- A computation on the database: its outcome and the database it leaves. -/
def Tx (α : Type) : Type := Db → Py α × Db

namespace Tx

instance : Monad Tx where
  pure a := fun db => (.ok a, db)
  bind x f := fun db =>
    match x db with
    | (.ok a, db') => f a db'
    | (.error e, db') => (.error e, db')

/-- A step that does not touch the database. -/
def lift {α : Type} (x : Py α) : Tx α := fun db => (x, db)

instance : MonadLift (Except PyError) Tx := ⟨lift⟩

/-- Commit, or roll back and raise again. -/
def transaction {α : Type} (body : Tx α) : Tx α := fun db =>
  match body db with
  | (.ok a, db') => (.ok a, db')
  | (.error e, _) => (.error e, db)

def database : Tx Db := fun db => (.ok db, db)

def setControl (c : Control) : Tx Unit := fun db => (.ok (), { db with control := some c })

/-- `INSERT OR IGNORE INTO control`. -/
def openControl (c : Control) : Tx Unit := fun db =>
  match db.control with
  | some _ => (.ok (), db)
  | none => (.ok (), { db with control := some c })

/-- `INSERT INTO events`: the sequence number is the primary key. -/
def insertEvent (seq : ℤ) (body : String) : Tx Unit := fun db =>
  if db.events.contains seq then (.error (.valueError "UNIQUE constraint failed: events.seq"), db)
  else (.ok (), { db with events := db.events.insert seq body })

/-- `INSERT INTO requests`: owner and id are the primary key. -/
def insertRequest (owner id : String) (r : Receipt) : Tx Unit := fun db =>
  if db.requests.contains (owner, id) then
    (.error (.valueError "UNIQUE constraint failed: requests.owner, requests.id"), db)
  else (.ok (), { db with requests := db.requests.set (owner, id) r })

end Tx

namespace Db

/-- `SELECT body FROM events ORDER BY seq`, decoded. -/
def rows (db : Db) : Py (List Json) := db.events.values.mapM readRow

/-- Sequence number and hash of the last row. -/
def tail (db : Db) : Py (ℤ × String) :=
  match db.events.values.getLast? with
  | none => .ok (0, zeroHash)
  | some text => do
      let row ← readRow text
      return (← intItem row "seq", ← strItem row "hash")

/-- The one row of `control`. -/
def controlRow (db : Db) : Py Control :=
  match db.control with
  | some c => .ok c
  | none => .error (.typeError "'NoneType' object is not subscriptable")

end Db

/-- `verify`: every row is the entry its place in the chain asks for. -/
def verifyFrom : ℤ → String → List Json → Py String
  | _, previous, [] => .ok previous
  | index, previous, row :: rows => do
      let event ← item row "event"
      if row.encode ≠ (entry index previous event).encode then
        throw (.valueError "event log checksum or sequence mismatch")
      verifyFrom (index + 1) (← strItem row "hash") rows

def verify (rows : List Json) : Py String := verifyFrom 1 zeroHash rows

/-- Fold the reducer over journal rows, as every replay does. -/
def replay (rows : List Json) : Py (Option State) :=
  rows.foldlM (fun state row => do
    let event ← item row "event"
    return some (← reduceCommand state event)) none

/-! ### Calls -/

/-- What a call returns. -/
inductive Answer where
  | accepted (seq : ℤ) (requestId : String) (duplicate : Bool)
  | control (epoch : ℤ) (active : String) (timestamp : ℤ) (seq : ℤ) (head : String)

/-- The object: the settings it was opened with. The database is passed along. -/
structure Sequencer where
  settings : Settings

namespace Sequencer

/-- `owner not in self.settings["accounts"]`. -/
def knownOwner (q : Sequencer) (owner : Json) : Py String :=
  match owner with
  | .str owner => if q.settings.accounts.contains owner then .ok owner else
      .error (.http 403 "known synthetic owner required")
  | _ => if unhashable owner then .error (.typeError "unhashable type") else
      .error (.http 403 "known synthetic owner required")

/-- `checksum([kind, body])`. -/
def fingerprint (kind body : Json) : String := checksum (.arr [kind, body])

def commandJson (seq stamp : ℤ) (owner : String) (kind body : Json) : Json :=
  .obj [("seq", .int seq), ("timestamp", .int stamp), ("owner", .str owner), ("kind", kind), ("body", body)]

/-- The transaction of `submit` for a request id that is new to the owner. -/
def append (owner requestId : String) (kind body : Json) : Tx Answer := do
  let db ← Tx.database
  let (last, head) ← Db.tail db
  if 1001 ≤ last then Tx.lift (.error (.http 429 "reference limit of 1000 commands reached")) else
  let control ← Db.controlRow db
  let command := commandJson (last + 1) control.timestamp owner kind body
  Tx.insertEvent (last + 1) (entry (last + 1) head command).encode
  Tx.insertRequest owner requestId ⟨fingerprint kind body, last + 1⟩
  return .accepted (last + 1) requestId false

def submit (q : Sequencer) (owner kind body : Json) : Tx Answer := do
  let checked ← validate body kind
  -- `validate` returns the frozen body
  let body ← freeze body
  let owner ← q.knownOwner owner
  Tx.transaction do
    let db ← Tx.database
    match db.requests.get? (owner, checked.requestId) with
    | some old =>
        if old.hash ≠ fingerprint kind body then
          Tx.lift (.error (.http 409 "request identity content conflict"))
        else return .accepted old.seq checked.requestId true
    | none => append owner checked.requestId kind body

/-- `control()`: a read transaction. -/
def control : Tx Answer := fun db =>
  (do
    let row ← db.controlRow
    let (last, head) ← db.tail
    return .control row.epoch row.active row.timestamp last head, db)

def clock (timestamp : Json) : Tx Answer := do
  let timestamp ← integer timestamp 1 maxTimestamp
  Tx.transaction do
    let db ← Tx.database
    let row ← Db.controlRow db
    if timestamp < row.timestamp then
      Tx.lift (.error (.http 409 "simulation clock cannot move backwards"))
    else Tx.setControl { row with timestamp }
  control

/-- `replica["seq"] != len(rows) or replica["head"] != rows[-1]["hash"]`. -/
def completePrefix (replica : Json) (rows : List Json) : Py Bool := do
  let seq ← item replica "seq"
  match seq with
  | .int n =>
      if n ≠ rows.length then return false
      else match rows.getLast? with
        | none => throw (.typeError "list index out of range")
        | some row => return isText (← item replica "head") (← strItem row "hash")
  | _ => return false

def promote (node replica : Json) : Tx Answer := do
  let replica ← freeze replica
  if ¬ (isText node "primary" ∨ isText node "backup") then
    Tx.lift (.error (.valueError "unknown matching replica")) else
  let _ ← fields replica ["seq", "head", "state", "state_hash"]
  let _ ← integer (← item replica "seq") 0 1001
  let stateHash ← item replica "state_hash"
  if ¬ isText stateHash (checksum (← item replica "state")) then
    Tx.lift (.error (.http 409 "candidate state checksum mismatch")) else
  Tx.transaction do
    let db ← Tx.database
    let rows ← Db.rows db
    if ¬ (← completePrefix replica rows) then
      Tx.lift (.error (.http 409 "promotion requires complete sequencer prefix")) else
    let expected ← replay rows
    if ¬ isText stateHash (checksum ((expected.map State.toJson).getD (.obj []))) then
      Tx.lift (.error (.http 409 "candidate state differs from independent sequencer replay")) else
    let row ← Db.controlRow db
    if ¬ isText node row.active then
      Tx.setControl { row with
        epoch := row.epoch + 1, active := if isText node "primary" then "primary" else "backup" }
  control

/-! ### Opening -/

/-- A row of the deduplication index as the journal implies it. -/
def expectedRequest (row : Json) : Py (Option ((String × String) × Receipt)) := do
  let event ← item row "event"
  let kind ← item event "kind"
  if isText kind "genesis" then return none
  let owner ← strItem event "owner"
  let body ← item event "body"
  let id ← strItem body "request_id"
  return some ((owner, id), ⟨fingerprint kind body, ← intItem row "seq"⟩)

/-- Replay the journal and compare the deduplication index and the control row with it. -/
def checkHistory (db : Db) : Py Unit := do
  let rows ← db.rows
  let state ← replay rows
  let expected ← rows.mapM expectedRequest
  if ¬ ((∀ r ∈ db.requests.entries, some r ∈ expected) ∧ ∀ r ∈ expected.reduceOption, r ∈ db.requests.entries) then
    throw (.valueError "durable request deduplication index differs from history")
  let control ← db.controlRow
  match state with
  | none => throw (.keyError "last_timestamp")
  | some s =>
      if control.timestamp < s.lastTimestamp ∨ control.active ∉ ["primary", "backup"] then
        throw (.valueError "sequencer control regressed")
      let _ ← integer (.int control.epoch) 1 (10 ^ 12)

/-- The genesis event of frozen settings. -/
def openingJson (settings : Json) : Json := .obj [("kind", .str "genesis"), ("settings", settings)]

/-- Write the genesis event, or compare it with the one that is there. -/
def openJournal (genesis : Json) : Tx Unit := do
  let rows ← Db.rows (← Tx.database)
  match rows with
  | [] => Tx.insertEvent 1 (entry 1 zeroHash genesis).encode
  | row :: _ =>
      let event ← item row "event"
      if event.encode ≠ genesis.encode then
        Tx.lift (.error (.valueError "opening accounts/rules changed; refusing non-deterministic replay"))

/-- `Sequencer.__init__` on a database. -/
def init (settings timestamp : Json) : Tx Sequencer := do
  let checked ← StockExchange.settings settings
  let settings ← freeze settings
  let _ ← verify (← Db.rows (← Tx.database))
  Tx.transaction do
    openJournal (openingJson settings)
    let stamp ← integer timestamp 1 maxTimestamp
    Tx.openControl ⟨1, "primary", stamp⟩
    checkHistory (← Tx.database)
  return ⟨checked⟩

/-- The calls a sequencer takes. -/
inductive Call where
  | submit (owner kind body : PyValue)
  | clock (timestamp : PyValue)
  | promote (node replica : PyValue)

def call (q : Sequencer) : Call → Tx Answer
  | .submit owner kind body => q.submit owner.1 kind.1 body.1
  | .clock timestamp => clock timestamp.1
  | .promote node replica => promote node.1 replica.1

/-- The database after some calls, whatever each of them answered. -/
def run (q : Sequencer) (db : Db) (calls : List Call) : Db := calls.foldl (fun db c => (q.call c db).2) db

end Sequencer

end SystemDesign.StockExchange
