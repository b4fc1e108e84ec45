import SystemDesign.Lib.Transitions
import SystemDesign.ObjectStore.Catalog

/-!
The object service (`service.py`) over the catalog and the metadata shards (`metadata.py`).

A shard holds versions and the receipts of their publication. Removal and pruning only mark versions; they are left out, as
is reading and listing.

A publication is three transactions: the intent in the catalog, the version in the
metadata shard of the key, and the mark that the intent is done. `publish`, `complete`
and `maintenance` run them one after the other, as they go when every node answers; the
system below interleaves the transactions of any number of calls, where a call may
stop anywhere and a request to a shard may arrive late or more than once. What the
data nodes answer is an argument; writing chunks either succeeds or ends the call.

The checks of a completion and the transaction that freezes it are one step: the
transaction repeats the checks on the upload's state and parts, and the other columns of
an upload never change.
-/

namespace SystemDesign.ObjectStore

/-! ### A metadata shard -/

structure Version (τ : Type) where
  id : String
  bucket : String
  key : String
  marker : Bool
  manifest : List ChunkRef
  size : ℕ
  sha : String
  created : τ
  removed : Option τ

/-- A row of the `receipts` table. -/
structure ReceiptRow where
  hash : String
  version : String

structure Shard (τ : Type) where
  versions : List (Version τ)
  receipts : Dict Identity ReceiptRow

section

variable {τ : Type}

def owner (shard shards : ℕ) (bucket key : String) : Py Unit := do
  identifier bucket
  objectKey key
  require (shardFor bucket key shards = shard) (.http 409 "wrong metadata shard")

structure PublishResult (τ : Type) where
  store : Shard τ
  version : String
  duplicate : Bool

def Shard.publish (d : Shard τ) (shard shards : ℕ) (now : τ) (fresh : String) (p : Payload) : Py (PublishResult τ) := do
  owner shard shards p.id.bucket p.id.key
  let manifest ← publication p
  let p := { p with manifest := manifest }
  match d.receipts.get? p.id with
  | some prior =>
    if prior.hash ≠ p.contentDigest then .error (.http 409 "idempotency key content conflict")
    else return ⟨d, prior.version, true⟩
  | none =>
    let row : Version τ :=
      { id := fresh, bucket := p.id.bucket, key := p.id.key, marker := p.marker,
        manifest := p.manifest, size := p.size, sha := p.sha, created := now, removed := none }
    return ⟨⟨d.versions ++ [row], d.receipts.set p.id ⟨p.contentDigest, fresh⟩⟩, fresh, false⟩

section

variable [LinearOrder τ] [Sub τ] [NatCast τ]

/-- The versions a collection has to keep. -/
def Shard.kept (d : Shard τ) (now : τ) (grace : ℕ) : List (Version τ) :=
  d.versions.filter fun v => match v.removed with
    | none => true
    | some removed => now - (grace : τ) < removed

structure Scan where
  rows : ℕ
  chunks : ℕ
  hashes : List String

/-- One version of the scan of `references`. -/
def scanVersion (scan : Scan) (v : Version τ) : Py Scan := do
  require (scan.rows < 50000) (.http 422 "maintenance version scan budget exceeded")
  let manifest ← match manifestCopy v.manifest with
    | .ok manifest => .ok manifest
    | .error _ => .error (.http 409 "invalid stored manifest; collection blocked")
  require (scan.chunks + manifest.length ≤ 200000) (.http 422 "maintenance chunk scan budget exceeded")
  let hashes := manifest.map ChunkRef.hash ∪ scan.hashes
  require (hashes.length ≤ 50000) (.http 422 "maintenance reference budget exceeded")
  return ⟨scan.rows + 1, scan.chunks + manifest.length, hashes⟩

def Shard.references (d : Shard τ) (now : τ) (grace : ℕ) : Py (List String) := do
  integer grace "grace" 0 86400
  let scan ← (d.kept now grace).foldlM scanVersion ⟨0, 0, []⟩
  return scan.hashes.insertionSort (· ≤ ·)

end

end

/-! ### The service -/

structure System (τ : Type) where
  catalog : Catalog τ
  shards : ℕ → Shard τ
  /-- The payloads whose intent was accepted: a request for each may be under way. -/
  prepared : List Payload

/-- What the data nodes answer. -/
structure DataNodes where
  urls : List String
  read : String → Option (List UInt8)
  generation : String → Option String
  /-- A verified copy is there. -/
  holds : String → String → Bool
  /-- A copy was accepted. -/
  accepts : String → String → Bool
  /-- A collection was done. -/
  collects : String → Bool

structure Config where
  shards : ℕ
  shards_pos : 0 < shards

/-- `store_bytes(data)`: the manifest of the data, cut into chunks. -/
def storeBytes : ℕ → List UInt8 → List ChunkRef
  | 0, _ => []
  | fuel + 1, data =>
    if data = [] then []
    else ⟨sha (data.take chunkSize), (data.take chunkSize).length⟩ :: storeBytes fuel (data.drop chunkSize)

/-- The payload of a single put. -/
def putPayload (id : Identity) (data : List UInt8) : Payload :=
  ⟨id, storeBytes data.length data, data.length, sha data, false⟩

/-- The payload of a delete marker. -/
def markerPayload (id : Identity) : Payload := ⟨id, [], 0, emptySha, true⟩

section

variable {τ : Type} [LinearOrder τ] [Add τ] [Sub τ] [NatCast τ]

/-! ### Publishing -/

/-- The publication of a frozen upload. -/
def Upload.payload (u : Upload τ) (manifest : List ChunkRef) : Payload := ⟨u.id, manifest, u.size, u.sha, false⟩

/-- The intent of a publication, after the checks made before it. -/
def prepare (s : System τ) (now : τ) (p : Payload) : Py (System τ) := do
  let manifest ← publication p
  let cat ← preparePublication s.catalog now { p with manifest := manifest }
  return { s with catalog := cat, prepared := s.prepared ++ [{ p with manifest := manifest }] }

/-- The request reaches the shard of its key. -/
def deliver (cfg : Config) (s : System τ) (now : τ) (fresh : String) (p : Payload) : Py (System τ × Receipt) := do
  let shard := shardFor p.id.bucket p.id.key cfg.shards
  let result ← (s.shards shard).publish shard cfg.shards now fresh p
  return ({ s with shards := Function.update s.shards shard result.store }, ⟨result.version, result.duplicate⟩)

def finish (s : System τ) (id : Identity) (receipt : Receipt) : Py (System τ) := do
  require (isIdentifier receipt.version = true) (.http 502 "invalid metadata publication receipt")
  let cat ← finishPublication s.catalog id
  return { s with catalog := cat }

/-- `publish` when the shard answers. -/
def publish (cfg : Config) (s : System τ) (now : τ) (fresh : String) (p : Payload) : Py (System τ × Receipt) := do
  let s ← prepare s now p
  let (s, receipt) ← deliver cfg s now fresh p
  let s ← finish s p.id receipt
  return (s, receipt)

/-! ### Completing -/

/-- `[p["number"] for p in parts] == list(range(1, len(parts) + 1))` -/
def contiguous (u : Upload τ) : Bool := u.parts.keys = List.range' 1 u.parts.keys.length

def partsManifest (u : Upload τ) : List ChunkRef := u.parts.values.flatMap Part.manifest

/-- The chunks as the nodes return them, one after the other. -/
def readChunks (nodes : DataNodes) : List ChunkRef → Py (List UInt8)
  | [] => .ok []
  | chunk :: chunks =>
    match nodes.read chunk.hash with
    | none => .error (.http 503 "no verified replica available")
    | some data => do
      require (data.length = chunk.size) (.http 409 "chunk size mismatch")
      let rest ← readChunks nodes chunks
      return data ++ rest

/-- The frozen manifest of an active upload. -/
def checkCompletion (nodes : DataNodes) (now : τ) (u : Upload τ) : Py (List ChunkRef) := do
  require (now < u.expires) (.http 409 "upload expired")
  require (contiguous u = true) (.http 409 "part numbers must be contiguous from one")
  let manifest := partsManifest u
  require (manifest.length ≤ 256) (.http 422 "manifest exceeds 256 chunks")
  let data ← readChunks nodes manifest
  require (data.length = u.size ∧ sha data = u.sha) (.http 409 "completion size/checksum mismatch")
  return manifest

def setUpload (s : System τ) (upload : String) (u : Upload τ) : System τ :=
  { s with catalog := { s.catalog with uploads := s.catalog.uploads.set upload u } }

def freeze (nodes : DataNodes) (s : System τ) (now : τ) (upload user : String) : Py (System τ × Upload τ) := do
  let u ← getUpload s.catalog upload user
  require (u.state = .active) (.http 409 "upload cannot complete")
  let manifest ← checkCompletion nodes now u
  let u := { u with state := .completing, manifest := some manifest }
  return (setUpload s upload u, u)

/-- `UPDATE uploads SET state='complete',result=? WHERE id=?` -/
def settle (s : System τ) (upload : String) (receipt : Receipt) : System τ :=
  match s.catalog.uploads.get? upload with
  | none => s
  | some u => setUpload s upload { u with state := .complete, result := some receipt }

/-- `complete` of an upload that is frozen already. -/
def resume (cfg : Config) (s : System τ) (now : τ) (fresh upload : String) (u : Upload τ)
    (manifest : List ChunkRef) : Py (System τ × Receipt) := do
  let (s, receipt) ← publish cfg s now fresh (u.payload manifest)
  return (settle s upload receipt, receipt)

def complete (cfg : Config) (nodes : DataNodes) (s : System τ) (now : τ) (fresh upload user : String) :
    Py (System τ × Receipt) := do
  identifier upload
  let u ← getUpload s.catalog upload user
  match u.state, u.result, u.manifest with
  | .complete, some receipt, _ => return (s, receipt)
  | .active, _, _ => do
    let (s, u) ← freeze nodes s now upload user
    resume cfg s now fresh upload u (u.manifest.getD [])
  | .completing, _, some manifest => resume cfg s now fresh upload u manifest
  | _, _, _ => .error (.http 409 "upload cannot complete")

def abort (s : System τ) (upload user : String) : Py (System τ) := do
  identifier upload
  let u ← getUpload s.catalog upload user
  require (u.state ≠ .complete ∧ u.state ≠ .completing) (.http 409 "completion intent cannot be aborted")
  return setUpload s upload { u with state := .aborted }

/-! ### Maintenance -/

def Upload.expired (u : Upload τ) (now : τ) : Bool := u.state = .active && u.expires ≤ now

def Upload.expire (now : τ) (u : Upload τ) : Upload τ := if u.expired now then { u with state := .aborted } else u

/-- `UPDATE uploads SET state='aborted' WHERE state='active' AND expires<=?` -/
def expire (s : System τ) (now : τ) : System τ :=
  { s with catalog := { s.catalog with uploads := s.catalog.uploads.mapVal (Upload.expire now) } }

def completing (s : System τ) : List (String × String) :=
  (s.catalog.uploads.entries.filter fun e => e.2.state = .completing).map fun e => (e.1, e.2.user)

/-- `live.update(..)` under the budget of a collection. -/
def addLive (live : List String) (hashes : List String) : Py (List String) := do
  let live := hashes ∪ live
  require (live.length ≤ 50000) (.http 422 "global maintenance reference budget exceeded")
  return live

def addShard (s : System τ) (now : τ) (grace : ℕ) (live : List String) (shard : ℕ) : Py (List String) := do
  let hashes ← (s.shards shard).references now grace
  require (hashes.length ≤ 50000) (.http 502 "invalid metadata references; collection stopped")
  match hashes.forM checksum with
  | .error _ => .error (.http 502 "invalid metadata references; collection stopped")
  | .ok _ => addLive live hashes

/-- The manifests of the parts that an upload may still publish. -/
def stagedManifests (s : System τ) : List (List ChunkRef) :=
  (s.catalog.uploads.values.filter fun u => u.state = .active || u.state = .completing).flatMap
    fun u => u.parts.values.map Part.manifest

def addStaged (live : List String) (manifest : List ChunkRef) : Py (List String) := do
  let manifest ← manifestCopy manifest
  addLive live (manifest.map ChunkRef.hash)

structure Report where
  expiredUploads : ℕ
  resumedCompletions : ℕ
  resumedPublications : ℕ
  liveChunks : ℕ
  repairedCopies : ℕ
  unrecoverable : List String
  copyFailures : List (String × String)
  deferred : List String

/-- The copies missing on the nodes, for a chunk that some node has. -/
def missingCopies (nodes : DataNodes) (live : List String) : List (String × String) :=
  (live.filter fun key => (nodes.read key).isSome).flatMap fun key =>
    (nodes.urls.filter fun url => !nodes.holds url key).map fun url => (key, url)

def report (nodes : DataNodes) (live : List String) (expired completions publications : ℕ) :
    Report where
  expiredUploads := expired
  resumedCompletions := completions
  resumedPublications := publications
  liveChunks := live.length
  repairedCopies := ((missingCopies nodes live).filter fun e => nodes.accepts e.2 e.1).length
  unrecoverable := live.filter fun key => (nodes.read key).isNone
  copyFailures := (missingCopies nodes live).filter fun e => !nodes.accepts e.2 e.1
  deferred := nodes.urls.filter fun url => (nodes.generation url).isNone || !nodes.collects url

def publishAgain (cfg : Config) (now : τ) (fresh : ℕ → String) (s : System τ) (e : Payload × ℕ) : Py (System τ) := do
  let result ← publish cfg s now (fresh e.2) e.1
  return result.1

def completeAgain (cfg : Config) (nodes : DataNodes) (now : τ) (fresh : ℕ → String) (s : System τ)
    (e : (String × String) × ℕ) : Py (System τ) := do
  let result ← complete cfg nodes s now (fresh e.2) e.1.1 e.1.2
  return result.1

/-- The intents are published again, then the frozen uploads are completed. -/
def resumeAll (cfg : Config) (nodes : DataNodes) (s : System τ) (now : τ) (fresh : ℕ → String) :
    Py (System τ × ℕ × ℕ) := do
  let pending ← pendingPublications s.catalog
  let s ← pending.zipIdx.foldlM (publishAgain cfg now fresh) s
  let frozen := completing s
  let s ← (frozen.zipIdx pending.length).foldlM (completeAgain cfg nodes now fresh) s
  return (s, frozen.length, pending.length)

/-- `maintenance(grace)`; the guard keeps every other request out while it runs. -/
def maintenance (cfg : Config) (nodes : DataNodes) (s : System τ) (now : τ) (fresh : ℕ → String)
    (grace : ℕ) : Py (System τ × Report) := do
  integer grace "grace" 0 86400
  let (s, completions, publications) ← resumeAll cfg nodes s now fresh
  let expired := (s.catalog.uploads.values.filter fun u => u.expired now).length
  let s := expire s now
  let live ← (List.range cfg.shards).foldlM (addShard s now grace) []
  let live ← (stagedManifests s).foldlM addStaged live
  return (s, report nodes (live.insertionSort (· ≤ ·)) expired completions publications)

/-! ### The system -/

/-- One transaction of a call. -/
inductive Action (τ : Type) where
  | create (name user fresh : String)
  | start (now : τ) (id : Identity) (user expected : String) (size : ℤ) (fresh : String)
  | part (now : τ) (upload user : String) (number : ℕ) (data : List UInt8)
  | freeze (nodes : DataNodes) (now : τ) (upload user : String)
  | abort (upload user : String)
  /-- The intent of a single put. -/
  | put (now : τ) (id : Identity) (data : List UInt8)
  /-- The intent of a delete marker. -/
  | marker (now : τ) (id : Identity)
  /-- The intent of a frozen upload, by its owner or by maintenance. -/
  | intend (now : τ) (upload : String)
  /-- A pending intent, taken up again by maintenance. -/
  | retry (now : τ) (id : Identity)
  | deliver (now : τ) (fresh : String) (p : Payload)
  | finish (id : Identity) (receipt : Receipt)
  | settle (upload : String) (receipt : Receipt)
  | expire (now : τ)

/-- The receipt a shard gave for the payload of a publication. -/
def answered (cfg : Config) (s : System τ) (p : Payload) (receipt : Receipt) : Prop :=
  (s.shards (shardFor p.id.bucket p.id.key cfg.shards)).receipts.get? p.id = some ⟨p.contentDigest, receipt.version⟩

inductive Step (cfg : Config) : System τ → Action τ → System τ → Prop
  | create {s : System τ} {name user fresh : String} {cat : Catalog τ} {b : Bucket}
      (h : create s.catalog name user fresh = .ok (cat, b)) :
      Step cfg s (.create name user fresh) { s with catalog := cat }
  | start {s : System τ} {now : τ} {id : Identity} {user expected : String} {size : ℤ}
      {fresh upload : String} {cat : Catalog τ} (hfresh : s.catalog.uploads.get? fresh = none)
      (hid : isIdentifier fresh = true)
      (h : start s.catalog now id user expected size fresh = .ok (cat, upload)) :
      Step cfg s (.start now id user expected size fresh) { s with catalog := cat }
  | part {s : System τ} {now : τ} {upload user : String} {number : ℕ} {data : List UInt8}
      {cat : Catalog τ}
      (h : addPart s.catalog now upload user number data (storeBytes data.length data) = .ok cat) :
      Step cfg s (.part now upload user number data) { s with catalog := cat }
  | freeze {s s' : System τ} {nodes : DataNodes} {now : τ} {upload user : String} {u : Upload τ}
      (h : freeze nodes s now upload user = .ok (s', u)) :
      Step cfg s (.freeze nodes now upload user) s'
  | abort {s s' : System τ} {upload user : String} (h : abort s upload user = .ok s') :
      Step cfg s (.abort upload user) s'
  | put {s s' : System τ} {now : τ} {id : Identity} {data : List UInt8}
      (hdata : data.length ≤ 4 * 1024 * 1024) (h : prepare s now (putPayload id data) = .ok s') :
      Step cfg s (.put now id data) s'
  | marker {s s' : System τ} {now : τ} {id : Identity}
      (h : prepare s now (markerPayload id) = .ok s') : Step cfg s (.marker now id) s'
  | intend {s s' : System τ} {now : τ} {upload : String} {u : Upload τ} {manifest : List ChunkRef}
      (hupload : s.catalog.uploads.get? upload = some u) (hstate : u.state = .completing)
      (hmanifest : u.manifest = some manifest)
      (h : prepare s now (u.payload manifest) = .ok s') : Step cfg s (.intend now upload) s'
  | retry {s s' : System τ} {now : τ} {id : Identity} {row : Intent τ}
      (hrow : s.catalog.publications.get? id = some row)
      (h : prepare s now row.payload = .ok s') : Step cfg s (.retry now id) s'
  | deliver {s s' : System τ} {now : τ} {fresh : String} {p : Payload} {receipt : Receipt}
      (hp : p ∈ s.prepared) (hfresh : isIdentifier fresh = true)
      (h : deliver cfg s now fresh p = .ok (s', receipt)) : Step cfg s (.deliver now fresh p) s'
  | finish {s s' : System τ} {p : Payload} {receipt : Receipt} (hp : p ∈ s.prepared)
      (hanswered : answered cfg s p receipt) (h : finish s p.id receipt = .ok s') :
      Step cfg s (.finish p.id receipt) s'
  | settle {s : System τ} {upload : String} {u : Upload τ} {manifest : List ChunkRef}
      {receipt : Receipt} (hupload : s.catalog.uploads.get? upload = some u)
      (hstate : u.state = .completing ∨ u.state = .complete) (hmanifest : u.manifest = some manifest)
      (hanswered : answered cfg s (u.payload manifest) receipt) :
      Step cfg s (.settle upload receipt) (settle s upload receipt)
  | expire {s : System τ} {now : τ} : Step cfg s (.expire now) (expire s now)

/-- Empty stores. -/
def System.Empty (s : System τ) : Prop :=
  s.catalog = ⟨.empty, .empty, .empty⟩ ∧ (∀ i, s.shards i = ⟨[], .empty⟩) ∧ s.prepared = []

/-- The service from empty stores on. -/
def service (τ : Type) [LinearOrder τ] [Add τ] [Sub τ] [NatCast τ] (cfg : Config) : Transitions (System τ) where
  start := System.Empty
  step s s' := ∃ a, Step cfg s a s'

end

end SystemDesign.ObjectStore
