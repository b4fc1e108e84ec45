import SystemDesign.AdClick.Log

/-!
The aggregate stores (`aggregate.py`), batch reconciliation and replay (`recovery.py`) and
the reduction of a query (`query_service.py`).

Texts are compared by their characters, which is how both the database, on UTF-8 bytes,
and Python order them. A loop over pages has as much fuel as there are events to read.
-/

namespace SystemDesign.AdClick

/-- The dimensions of a bucket: minute, ad, user, address and country, in this order. -/
abbrev Key := ℤ ×ₗ String ×ₗ String ×ₗ String ×ₗ String

def Event.minute (v : Event) : ℤ := v.clickTimestamp / 60 * 60

def Event.key (v : Event) : Key := toLex (v.minute, toLex (v.adId, toLex (v.userId, toLex (v.ip, v.country))))

namespace Key

def minute (k : Key) : ℤ := (ofLex k).1
def adId (k : Key) : String := (ofLex (ofLex k).2).1
def userId (k : Key) : String := (ofLex (ofLex (ofLex k).2).2).1
def ip (k : Key) : String := (ofLex (ofLex (ofLex (ofLex k).2).2).2).1
def country (k : Key) : String := (ofLex (ofLex (ofLex (ofLex k).2).2).2).2

end Key

/-- The clock of a worker, which also subtracts the allowed lateness. -/
structure WorkerClock (τ : Type) extends Clock τ where
  ofInt : ℤ → τ
  minus : τ → ℕ → τ

structure Bucket where
  count : ℕ
  revision : ℕ

structure Aggregate (τ : Type) where
  partition : ℕ
  lateness : ℕ
  lineage : String
  seq : ℕ
  watermark : τ
  late : ℕ
  maxEvent : ℤ
  floor : ℕ
  seen : Dict String String
  buckets : Dict Key Bucket
  positions : Dict ℕ (String × String × τ)

variable {τ : Type} [LinearOrder τ] (e : Settings) (clock : WorkerClock τ)

/-- `Aggregator.__init__` on an empty database. -/
def Aggregate.init (partition lateness : ℕ) : Aggregate τ where
  partition := partition
  lateness := lateness
  lineage := ""
  seq := 0
  watermark := clock.ofInt 0
  late := 0
  maxEvent := 0
  floor := 1
  seen := .empty
  buckets := .empty
  positions := .empty

/-- `INSERT ... ON CONFLICT DO UPDATE SET count=count+1, revision=revision+1`. -/
def bump (buckets : Dict Key Bucket) (key : Key) : Dict Key Bucket :=
  match buckets.get? key with
  | some b => buckets.set key ⟨b.count + 1, b.revision + 1⟩
  | none => buckets.set key ⟨1, 1⟩

/-- An event that was not seen is counted. -/
def Aggregate.count (s : Aggregate τ) (value : Event) (hash : String) : Aggregate τ :=
  match s.seen.get? value.eventId with
  | some _ => s
  | none => { s with
      seen := s.seen.set value.eventId hash
      buckets := bump s.buckets value.key
      late := s.late + if clock.ofInt (value.minute + 60) ≤ s.watermark then 1 else 0 }

/-- The receipt and the checkpoint after a new position. -/
def Aggregate.advance (s : Aggregate τ) (entry : Entry τ) : Aggregate τ :=
  let maxEvent := max s.maxEvent entry.event.clickTimestamp
  { s with
    positions := s.positions.set entry.seq (entry.event.eventId, entry.hash, entry.accepted)
    seq := entry.seq
    maxEvent := maxEvent
    watermark := max s.watermark (max (clock.minus (clock.ofInt maxEvent) s.lateness)
      (clock.minus entry.accepted s.lateness)) }

/-- An old position is compared with its receipt. -/
def Aggregate.verify (s : Aggregate τ) (entry : Entry τ) : Except Error Unit :=
  match s.positions.get? entry.seq with
  | some receipt => require (receipt = (entry.event.eventId, entry.hash, entry.accepted))
      (.http 409 "source position content changed")
  | none => require (entry.seq < s.floor ∧ (s.seen.get? entry.event.eventId).isSome = true)
      (.http 409 "historical source position cannot be verified")

def Aggregate.applyEntry (s : Aggregate τ) (entry : Entry τ) : Except Error (Aggregate τ) := do
  require ((s.seen.get? entry.event.eventId).all fun hash => hash = entry.hash) (.http 409 "conflicting replay event")
  if entry.seq ≤ s.seq then do
    s.verify entry
    return s
  else do
    require (entry.seq = s.seq + 1) (.http 409 "input offset gap")
    return (s.count clock entry.event entry.hash).advance clock entry

/-- The page's entries in their order. -/
def Aggregate.applyEntries (s : Aggregate τ) : List (Entry τ) → Except Error (Aggregate τ)
  | [] => .ok s
  | entry :: rest => do
    let s ← s.applyEntry clock entry
    s.applyEntries rest

def Aggregate.apply (batch : Page τ) (s : Aggregate τ) : Except Error (Aggregate τ) := do
  let batch ← prepareBatch e clock.toClock batch s.partition
  require (s.lineage = "" ∨ s.lineage = batch.lineage) (.http 409 "queue lineage changed; explicit rebuild required")
  Aggregate.applyEntries clock { s with lineage := batch.lineage } batch.entries

/-- `idle`: time alone moves the watermark. -/
def Aggregate.idle (now : τ) (s : Aggregate τ) : Except Error (Aggregate τ) := do
  require (clock.valid now = true) (.valueError "invalid clock")
  if s.lineage = "" then return s
  else return { s with
    watermark := max s.watermark (max (clock.ofInt 0) (clock.minus now s.lateness)) }

/-! ### Auditing -/

/-- `list(row)` of a bucket. -/
def rowJson (row : Key × ℕ) : Json :=
  .arr [.int row.1.minute, .str row.1.adId, .str row.1.userId, .str row.1.ip, .str row.1.country, .int row.2]

/-- The rows of `audit`, in the order of their dimensions. -/
def Aggregate.rows (s : Aggregate τ) : List (Key × ℕ) := (s.buckets.mapVal Bucket.count).sorted.entries

/-- The texts fed to the hash one after another. -/
def joinRows : List (Key × ℕ) → List Char
  | [] => []
  | [row] => (rowJson row).encode.toList
  | row :: rest => (rowJson row).encode.toList ++ ',' :: joinRows rest

/-- `audit`: the digest of one snapshot. -/
def Aggregate.audit (maxRows : ℕ) (s : Aggregate τ) : Except Error String := do
  require (s.rows.length ≤ maxRows) (.http 413 "audit row budget exceeded")
  return Sha256.hexdigest (String.ofList ('[' :: (joinRows s.rows ++ [']'])))

/-! ### Reconciliation and replay -/

structure Batch where
  counts : Dict Key ℕ
  seen : Dict String String

/-- One event of the batch count. -/
def Batch.add (maxDimensions : ℕ) (b : Batch) (item : Entry τ) : Except Error Batch :=
  match b.seen.get? item.event.eventId with
  | some previous => do
    require (previous = item.hash) (.http 409 "conflicting duplicate in reconciliation source")
    return b
  | none => do
    let counts := b.counts.set item.event.key ((b.counts.get? item.event.key).getD 0 + 1)
    require (counts.entries.length ≤ maxDimensions) (.http 413 "reconciliation dimension budget exceeded")
    return ⟨counts, b.seen.set item.event.eventId item.hash⟩

/-- `while after < cp["seq"]`. -/
def reconcilePages (log : EventLog τ) (partition maxDimensions : ℕ) (lineage : String)
    (target : ℕ) : ℕ → ℕ → Batch → Except Error Batch
  | 0, _, b => .ok b
  | fuel + 1, after, b =>
    if after < target then do
      let page ← log.remotePage e clock.toClock partition after target lineage
      let b ← page.entries.foldlM (Batch.add maxDimensions) b
      reconcilePages log partition maxDimensions lineage target fuel (page.entries.getLast?.elim after Entry.seq) b
    else .ok b

/-- The digest `reconcile` computes for a partition up to a checkpoint. -/
def reconcile (log : EventLog τ) (partition maxDimensions : ℕ) (lineage : String) (target : ℕ) :
    Except Error String := do
  let b ← reconcilePages e clock log partition maxDimensions lineage target target 0 ⟨.empty, .empty⟩
  return digest (.arr (b.counts.sorted.entries.map rowJson))

/-- The loop of `replay`. -/
def replayPages (log : EventLog τ) (target : ℕ) : ℕ → Aggregate τ → Except Error (Aggregate τ)
  | 0, _ => .error (.http 409 "rebuild failed to advance")
  | fuel + 1, s => do
    let page ← log.remotePage e clock.toClock s.partition s.seq target log.lineage
    let updated ← s.apply e clock page
    if target ≤ updated.seq then return updated
    else do
      require (s.seq < updated.seq) (.http 409 "rebuild failed to advance")
      replayPages log target fuel updated

/-- `replay`: the audit digest of a rebuilt store. -/
def replay (log : EventLog τ) (upto : Option ℕ) (maxEvents maxRows : ℕ) (s : Aggregate τ) :
    Except Error String := do
  require (s.partition < log.partitions) (.valueError "partition must be an integer in range")
  let head := (log.heads[s.partition]?).getD 0
  let target := match upto with
    | some u => min u head
    | none => head
  require (s.seq ≤ target) (.http 409 "rebuild checkpoint exceeds target")
  require (target - s.seq ≤ maxEvents) (.http 413 "rebuild event budget exceeded")
  let s ← replayPages e clock log target (target + 1) s
  s.audit maxRows

/-! ### Queries -/

/-- A query as `query` returns it. -/
structure Query where
  start : ℤ
  stop : ℤ
  count : ℕ
  userId : Option String
  ip : Option String
  country : Option String
  adId : Option String

/-- The bucket is in the range and passes the filters. -/
def Query.selects (q : Query) (k : Key) : Bool :=
  q.start ≤ k.minute && k.minute < q.stop && q.userId.all (· = k.userId) && q.ip.all (· = k.ip) &&
    q.country.all (· = k.country) && q.adId.all (· = k.adId)

/-- `SELECT ad_id,sum(count) ... GROUP BY ad_id`. -/
def adTotals (rows : List (Key × ℕ)) : Dict String ℕ :=
  rows.foldl (fun totals row => totals.set row.1.adId ((totals.get? row.1.adId).getD 0 + row.2)) .empty

structure Part (τ : Type) where
  totals : Dict String ℕ
  partition : ℕ
  lineage : String
  seq : ℕ
  watermark : τ

def Aggregate.totals (q : Query) (s : Aggregate τ) : Except Error (Part τ) := do
  let totals := (adTotals (s.rows.filter fun row => q.selects row.1)).sorted
  require (totals.entries.length ≤ 10000) (.http 422 "too many candidate ads; narrow range or filters")
  return ⟨totals, s.partition, s.lineage, s.seq, s.watermark⟩

/-- `checkpoint`. -/
def checkPart (part : Part τ) (partition : ℕ) (lineage : String) : Except Error Unit := do
  require (part.partition = partition ∧ part.lineage = lineage) (.http 503 "worker lineage/partition not ready")
  require (part.seq ≤ maxPosition) (.valueError "checkpoint must be an integer in range")
  require (clock.valid part.watermark = true) (.valueError "invalid finite timestamp")

/-- One worker's answer joins the totals. -/
def reducePart (q : Query) (lineage : String) (totals : Dict String ℕ) (partition : ℕ)
    (part : Part τ) : Except Error (Dict String ℕ) := do
  require (part.totals.entries.length ≤ 10000) (.http 503 "invalid worker totals")
  checkPart clock part partition lineage
  let totals ← part.totals.entries.foldlM (fun totals row => do
    require (isText row.1 = true) (.valueError "ad_id must contain 1..128 printable characters")
    require (row.2 ≤ maxPosition) (.valueError "count must be an integer in range")
    require (q.adId.all (· = row.1)) (.http 503 "worker returned an unrelated ad")
    return totals.set row.1 ((totals.get? row.1).getD 0 + row.2)) totals
  require (totals.entries.length ≤ 10000) (.http 422 "global candidate limit exceeded; narrow range or filters")
  return totals

/-- More clicks first, then the smaller ad. -/
def rankBefore (a b : String × ℕ) : Bool := b.2 < a.2 || (a.2 = b.2 && a.1 ≤ b.1)

structure Answer where
  ads : List (String × ℕ)
  count : Option ℕ

/-- `_reduce`: the totals over all partitions, and the first of them. -/
def reduce (q : Query) (lineage : String) (parts : List (Part τ)) : Except Error Answer := do
  let totals ← parts.zipIdx.foldlM (fun totals part => reducePart clock q lineage totals part.2 part.1) .empty
  return ⟨(totals.entries.mergeSort rankBefore).take q.count, q.adId.map fun ad => (totals.get? ad).getD 0⟩

end SystemDesign.AdClick
