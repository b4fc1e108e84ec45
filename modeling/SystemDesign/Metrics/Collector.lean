import SystemDesign.Lib.Binary
import SystemDesign.Lib.Transitions
import SystemDesign.Metrics.Samples

/-!
The collector's durable outbox (`collector.py`).

`enqueue` splits a request into chunks and stores them in one transaction; a flush
claims a row, publishes its payload outside any transaction and then records what
happened under the owner name it claimed with. Times are values of a type with the
additions the program makes; the clock may jump. The `scrapes` table and the last
error, which nothing here reads, are left out.
-/

namespace SystemDesign.Metrics

inductive PartitionBy where
  | metric
  | series

structure CollectorConfig where
  maxBytes : ℕ
  partitions : ℕ
  partitionBy : PartitionBy
  maxBytes_range : 1 ≤ maxBytes ∧ maxBytes ≤ 1024 * 1024 * 1024
  partitions_range : 1 ≤ partitions ∧ partitions ≤ 64

/-! ### Chunks -/

def partitionFor (body : Sample) (count : ℕ) (by_ : PartitionBy) : ℕ :=
  let key : Json := match by_ with
    | .metric => .str body.metric
    | .series => .arr [.str body.metric, labelsJson body.labels]
  Crc32.crc32 (dumps key).toUTF8.toList % count

/-- What is sent to the queue for one chunk. -/
def envelope (batchId : String) (partition : ℕ) (samples : List Sample) : Json :=
  .obj [("batch_id", .str batchId), ("partition", .int partition), ("samples", .arr (samples.map Sample.toJson))]

def envelopeBytes (batchId : String) (partition : ℕ) (samples : List Sample) : ℕ :=
  (dumps (envelope batchId partition samples)).utf8ByteSize

/-- `"0" * 64`, which stands for the batch id while chunks are cut. -/
def placeholder : String := String.ofList (List.replicate 64 '0')

/-- One more sample of a partition: the chunks that are full and the one being filled. -/
def addSample (partition : ℕ) (cut : List (List Sample) × List Sample) (body : Sample) :
    Py (List (List Sample) × List Sample) :=
  if envelopeBytes placeholder partition [body] > 12000 then
    .error (.valueError "sample too large for queue transport")
  else
    let candidate := cut.2 ++ [body]
    if cut.2 ≠ [] ∧ (candidate.length > 100 ∨ envelopeBytes placeholder partition candidate > 12000)
    then .ok (cut.1 ++ [cut.2], [body])
    else .ok (cut.1, candidate)

def cutPartition (partition : ℕ) (values : List Sample) : Py (List (List Sample)) := do
  let cut ← values.foldlM (addSample partition) ([], [])
  return if cut.2 ≠ [] then cut.1 ++ [cut.2] else cut.1

/-- `grouped.setdefault(partition, []).append(body)` -/
def addGrouped (cfg : CollectorConfig) (grouped : Dict ℕ (List Sample)) (body : Sample) : Dict ℕ (List Sample) :=
  let p := partitionFor body cfg.partitions cfg.partitionBy
  grouped.set p ((grouped.get? p).getD [] ++ [body])

def grouped (cfg : CollectorConfig) (normalized : List Sample) : Dict ℕ (List Sample) :=
  normalized.foldl (addGrouped cfg) .empty

def payloads (cfg : CollectorConfig) (normalized : List Sample) : Py (List (ℕ × List Sample)) := do
  let parts ← (grouped cfg normalized).entries.mapM fun e => do
    let chunks ← cutPartition e.1 e.2
    return chunks.map fun chunk => (e.1, chunk)
  return parts.flatten

structure Chunk where
  batchId : String
  partition : ℕ
  samples : List Sample

def Chunk.payload (c : Chunk) : String := dumps (envelope c.batchId c.partition c.samples)

def Chunk.bytes (c : Chunk) : ℕ := c.payload.utf8ByteSize

def batchId (requestId : String) (index : ℕ) : String := digest (.arr [.str requestId, .int index])

def capture (cfg : CollectorConfig) (normalized : List Sample) (requestId : String) : Py (List Chunk) := do
  let parts ← payloads cfg normalized
  return parts.mapIdx fun index part => ⟨batchId requestId index, part.1, part.2⟩

def normalize (samples : Json) : Py (List Sample) :=
  match samples with
  | .arr items =>
    if 1 ≤ items.length ∧ items.length ≤ 1000 then items.mapM sample
    else .error (.valueError "push requires 1..1000 samples")
  | _ => .error (.valueError "push requires 1..1000 samples")

def fingerprint (normalized : List Sample) : String := digest (.arr (normalized.map Sample.toJson))

/-! ### The tables -/

inductive OutboxStatus where
  | pending
  | sent
deriving DecidableEq

/-- A row of the outbox. `rowid` counts the insertions: SQLite may use the number of a
deleted last row again, which leaves the order of the stored rows as it is. -/
structure OutboxRow (τ : Type) where
  rowid : ℕ
  id : String
  payload : Option String
  status : OutboxStatus
  attempts : ℕ
  due : τ
  partition : ℕ
  owner : Option String
  lease : τ

structure PushReceipt (τ : Type) where
  hash : String
  response : String
  created : τ

structure Spool (τ : Type) where
  receipts : Dict String (PushReceipt τ)
  outbox : List (OutboxRow τ)
  bytes : ℤ

/-- An accepted request, kept as history. -/
structure Push where
  requestId : String
  normalized : List Sample
  chunks : List Chunk

/-- A claimed row as the worker that claimed it remembers it. -/
structure Claim where
  rowid : ℕ
  id : String
  payload : String
  attempts : ℕ

inductive WorkerPhase where
  | claimed
  | published
  | failed
  | finished

structure Worker where
  item : Claim
  phase : WorkerPhase

/-- A publish call that reached the queue or may have: the chunk and whether the call
returned. -/
structure Publication where
  chunk : ℕ
  returned : Bool

structure CollectorState (τ : Type) where
  spool : Spool τ
  /-- The flush calls by the owner name each drew. -/
  workers : Dict String Worker
  pushes : List Push
  published : List Publication

/-- Every chunk accepted so far, in the order of insertion. -/
def CollectorState.accepted {τ : Type} (s : CollectorState τ) : List Chunk := s.pushes.flatMap Push.chunks

section

variable {τ : Type} [LinearOrder τ] [Add τ] [Sub τ] [NatCast τ]

/-- The rows `enqueue` adds, numbered from `next` on. -/
def newRows (now : τ) (next : ℕ) (chunks : List Chunk) : List (OutboxRow τ) :=
  chunks.mapIdx fun i c => ⟨next + i, c.batchId, some c.payload, .pending, 0, now, c.partition, none, ((0 : ℕ) : τ)⟩

def retention : ℕ := 14 * 86400

/-- What the housekeeping may delete; `LIMIT 500` without an order picks any 500 of them. -/
structure Housekeeping where
  receipt : String → Bool
  row : ℕ → Bool

def OutboxRow.expired (cutoff : τ) (r : OutboxRow τ) : Bool := r.status = .sent && r.due < cutoff

def PushReceipt.expired (cutoff : τ) (r : PushReceipt τ) : Bool := r.created < cutoff

/-- The pick takes as many expired rows as there are, up to 500. -/
structure Housekeeping.Picks (keeping : Housekeeping) (cutoff : τ) (d : Spool τ) : Prop where
  receipts : (d.receipts.entries.filter fun e => e.2.expired cutoff && keeping.receipt e.1).length =
    min 500 (d.receipts.entries.filter fun e => e.2.expired cutoff).length
  rows : (d.outbox.filter fun r => r.expired cutoff && keeping.row r.rowid).length =
    min 500 (d.outbox.filter fun r => r.expired cutoff).length

def clean (keeping : Housekeeping) (cutoff : τ) (d : Spool τ) : Spool τ :=
  { d with
    receipts := ⟨d.receipts.entries.filter fun e => !(e.2.expired cutoff && keeping.receipt e.1),
      d.receipts.nodup.sublist (List.filter_sublist.map _)⟩
    outbox := d.outbox.filter fun r => !(r.expired cutoff && keeping.row r.rowid) }

/-- The ids of a table with `id TEXT PRIMARY KEY`. -/
def uniqueIds (rows : List (OutboxRow τ)) : Bool := (rows.map OutboxRow.id).Nodup

def pushResult (requestId : String) (chunks samples : ℕ) : Json :=
  .obj [("request_id", .str requestId), ("queued_chunks", .int chunks), ("samples", .int samples),
    ("stored_in_tsdb", .bool false)]

def totalBytes (chunks : List Chunk) : ℕ := (chunks.map Chunk.bytes).sum

/-- What the transaction of `enqueue` inserts, before the housekeeping. -/
def insertChunks (cfg : CollectorConfig) (now : τ) (next : ℕ) (d : Spool τ) (requestId hash : String)
    (chunks : List Chunk) (count : ℕ) : Py (Spool τ) :=
  if d.bytes + totalBytes chunks > cfg.maxBytes then
    .error (.http 429 "durable collector backlog capacity exceeded")
  else if uniqueIds (d.outbox ++ newRows now next chunks) then
    .ok {
      receipts := d.receipts.set requestId ⟨hash, dumps (pushResult requestId chunks.length count), now⟩
      outbox := d.outbox ++ newRows now next chunks
      bytes := d.bytes + totalBytes chunks }
  else .error (.valueError "UNIQUE constraint failed: outbox.id")

/-- What a push leaves: the text of an earlier answer, which is read back, or the new rows. -/
inductive Pushed (τ : Type) where
  | replayed (response : String)
  | stored (spool : Spool τ) (push : Push)

def enqueue (cfg : CollectorConfig) (now : τ) (next : ℕ) (d : Spool τ) (samples : Json)
    (requestId : String) : Py (Pushed τ) := do
  let requestId ← identifier (.str requestId)
  let normalized ← normalize samples
  let chunks ← capture cfg normalized requestId
  match d.receipts.get? requestId with
  | some replay =>
    if replay.hash ≠ fingerprint normalized then .error (.http 409 "push ID payload conflict")
    else return .replayed replay.response
  | none => do
    let stored ← insertChunks cfg now next d requestId (fingerprint normalized) chunks normalized.length
    return .stored stored ⟨requestId, normalized, chunks⟩

/-! ### Flushing -/

/-- No earlier row of the partition is pending. -/
def isFront (d : Spool τ) (o : OutboxRow τ) : Bool :=
  d.outbox.all fun p => !(p.status = .pending && p.partition = o.partition && p.rowid < o.rowid)

def claimable (now : τ) (d : Spool τ) (o : OutboxRow τ) : Bool :=
  o.status = .pending && o.due ≤ now && o.lease ≤ now && isFront d o

/-- The rows are stored in the order of their `rowid`, so the first one is the lowest. -/
def claimRow (now : τ) (d : Spool τ) : Option (OutboxRow τ) := d.outbox.find? (claimable now d)

def Spool.update (d : Spool τ) (p : OutboxRow τ → Bool) (f : OutboxRow τ → OutboxRow τ) : Spool τ :=
  { d with outbox := d.outbox.map fun r => if p r then f r else r }

def OutboxRow.claimedBy (now : τ) (owner : String) (r : OutboxRow τ) : OutboxRow τ :=
  { r with owner := some owner, lease := now + ((120 : ℕ) : τ) }

/-- `UPDATE outbox SET owner=?,lease=? WHERE id=?` -/
def setOwner (now : τ) (owner id : String) (d : Spool τ) : Spool τ :=
  d.update (fun r => r.id = id) (OutboxRow.claimedBy now owner)

/-- `WHERE id=? AND owner=?` -/
def owned (id owner : String) (r : OutboxRow τ) : Bool := r.id = id && r.owner = some owner

def retryDelay (attempts : ℕ) : ℕ := min 60 (2 ^ min attempts 6)

def OutboxRow.retryAt (due : τ) (r : OutboxRow τ) : OutboxRow τ :=
  { r with attempts := r.attempts + 1, due := due, owner := none, lease := ((0 : ℕ) : τ) }

def recordFailure (now : τ) (item : Claim) (owner : String) (d : Spool τ) : Spool τ :=
  d.update (owned item.id owner) (OutboxRow.retryAt (now + (retryDelay item.attempts : τ)))

def OutboxRow.sentAt (now : τ) (r : OutboxRow τ) : OutboxRow τ :=
  { r with status := .sent, payload := none, due := now, owner := none, lease := ((0 : ℕ) : τ) }

def recordSent (now : τ) (item : Claim) (owner : String) (d : Spool τ) : Spool τ :=
  let updated := d.outbox.any (owned item.id owner)
  let d := d.update (owned item.id owner) (OutboxRow.sentAt now)
  if updated then { d with bytes := d.bytes - item.payload.utf8ByteSize } else d

/-! ### The system -/

def CollectorState.setWorker (s : CollectorState τ) (owner : String) (w : Worker) :
    CollectorState τ :=
  { s with workers := s.workers.set owner w }

/-- One transaction or one publish call. A worker that crashes takes no further step, and
a result that is lost is a call that raises. A call that raises before it commits leaves
the state as it was. -/
inductive CollectorStep (cfg : CollectorConfig) : CollectorState τ → CollectorState τ → Prop
  | push {s : CollectorState τ} {now : τ} {samples : Json} {requestId : String} {d : Spool τ}
      {push : Push} {keeping : Housekeeping}
      (h : enqueue cfg now s.accepted.length s.spool samples requestId = .ok (.stored d push))
      (hpicks : keeping.Picks (now - (retention : τ)) d) :
      CollectorStep cfg s { s with
        spool := clean keeping (now - (retention : τ)) d
        pushes := s.pushes ++ [push] }
  /-- The owner name is a new random one. -/
  | claim {s : CollectorState τ} {now : τ} {owner payload : String} {o : OutboxRow τ}
      (hrow : claimRow now s.spool = some o) (hpayload : o.payload = some payload)
      (howner : s.workers.get? owner = none) :
      CollectorStep cfg s ({ s with spool := setOwner now owner o.id s.spool }.setWorker owner
        ⟨⟨o.rowid, o.id, payload, o.attempts⟩, .claimed⟩)
  | publish {s : CollectorState τ} {owner : String} {item : Claim} (returned : Bool)
      (hworker : s.workers.get? owner = some ⟨item, .claimed⟩) :
      CollectorStep cfg s ({ s with
        published := s.published ++ [Publication.mk item.rowid returned] }.setWorker owner
          ⟨item, if returned then .published else .failed⟩)
  | failure {s : CollectorState τ} {owner : String} {item : Claim} (now : τ)
      (hworker : s.workers.get? owner = some ⟨item, .failed⟩) :
      CollectorStep cfg s ({ s with spool := recordFailure now item owner s.spool }.setWorker owner ⟨item, .finished⟩)
  | sent {s : CollectorState τ} {owner : String} {item : Claim} (now : τ)
      (hworker : s.workers.get? owner = some ⟨item, .published⟩) :
      CollectorStep cfg s ({ s with spool := recordSent now item owner s.spool }.setWorker owner ⟨item, .finished⟩)

/-- The collector from an empty file on. -/
def collector (τ : Type) [LinearOrder τ] [Add τ] [Sub τ] [NatCast τ] (cfg : CollectorConfig) :
    Transitions (CollectorState τ) where
  start s := s = ⟨⟨.empty, [], 0⟩, .empty, [], []⟩
  step := CollectorStep cfg

end

end SystemDesign.Metrics
