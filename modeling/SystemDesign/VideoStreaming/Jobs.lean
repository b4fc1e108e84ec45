import SystemDesign.Lib.Py
import SystemDesign.Lib.Transaction
import SystemDesign.Lib.Transitions

/-!
The metadata of the video service: uploads, the transcoding DAG with its leases and the
completion outbox (`service.py`, `scheduling.py`, `pipeline.py`).

Every function is one transaction; `finish` and `handle_completions` are two, since they
release the lock for the object store, and what the store answers is an argument. Identifiers
and leases are drawn from one sequence. Only the table part of `cleanup` is here.
-/

namespace SystemDesign.VideoStreaming

inductive Error where
  | value (message : String)
  | permission (message : String)
  | os (message : String)

/-! ### Plans -/

inductive Kind where
  | inspect
  | preprocess
  | thumbnail
  | encode
  | publish
deriving DecidableEq

structure Task where
  name : String
  kind : Kind
  profile : Option ℕ
  dependencies : List String
deriving DecidableEq

/-- The keys of `PROFILES`. -/
def PROFILES : List ℕ := [144, 240, 360, 480, 720, 1080]

/-- `Pipeline`, as its `__post_init__` lets it be. -/
structure Plan where
  profiles : List ℕ
  thumbnail : Bool
  preprocess : Bool
  nonempty : profiles ≠ []
  supported : ∀ p ∈ profiles, p ∈ PROFILES
  distinct : profiles.Nodup

def encodeName (p : ℕ) : String := "encode-" ++ toString p

namespace Plan

def predecessor (plan : Plan) : String := if plan.preprocess then "preprocess" else "inspect"

/-- The tasks before the publication. -/
def inner (plan : Plan) : List Task :=
  [⟨"inspect", .inspect, none, []⟩] ++
    (if plan.preprocess then [⟨"preprocess", .preprocess, none, ["inspect"]⟩] else []) ++
    (if plan.thumbnail then [⟨"thumbnail", .thumbnail, none, [plan.predecessor]⟩] else []) ++
    plan.profiles.map fun p => ⟨encodeName p, .encode, some p, [plan.predecessor]⟩

def terminals (plan : Plan) : List String :=
  (plan.inner.filter fun task => task.kind = .encode ∨ task.kind = .thumbnail).map (·.name)

def tasks (plan : Plan) : List Task := plan.inner ++ [⟨"publish", .publish, none, plan.terminals⟩]

end Plan

/-! ### Tables -/

inductive VideoState where
  | uploading
  | processing
  | ready
  | failed
  | removed
  | expired
deriving DecidableEq

inductive JobState where
  | queued
  | running
  | done
  | failed
  | cancelled
deriving DecidableEq

abbrev Assets := Dict String String

/-- The JSON output of a task: an object of texts or something else. -/
inductive Output where
  | assets (assets : Assets)
  | other (text : String)

structure Video where
  owner : String
  title : String
  size : ℕ
  partSize : ℕ
  state : VideoState
  source : Option String
  assets : Assets
  created : ℚ

structure Part where
  key : String
  size : ℕ

structure Job where
  id : String
  video : String
  name : String
  kind : Kind
  profile : Option ℕ
  deps : List String
  state : JobState
  attempts : ℕ
  due : ℚ
  lease : Option String
  expires : ℚ
  output : Option Output
  error : Option String
  priority : ℤ

/-- The task that a row was made from. -/
def Job.task (job : Job) : Task := ⟨job.name, job.kind, job.profile, job.deps⟩

/-- A row of `completions`. -/
structure Completion where
  assets : Assets
  handled : Bool

structure Db where
  videos : Dict String Video
  parts : Dict (String × ℕ) Part
  jobs : List Job
  completions : Dict String Completion
  jobLimits : Dict String ℕ
  /-- The identifiers that were drawn. -/
  drawn : ℕ

structure Setup where
  plus : ℚ → ℚ → ℚ
  minus : ℚ → ℚ → ℚ
  /-- `2 ** n` times a delay. -/
  backoff : ℚ → ℕ → ℚ
  uuid : ℕ → String
  uuid_injective : Function.Injective uuid
  maxBytes : ℕ
  pipeline : Plan

namespace Db

variable (c : Setup)

/-- `UPDATE jobs SET … WHERE …`. -/
def updateJobs (p : Job → Bool) (f : Job → Job) (db : Db) : Db :=
  { db with jobs := db.jobs.map fun job => if p job then f job else job }

/-- `_video`. -/
def video (id : String) (db : Db) : Except Error Video :=
  match db.videos.get? id with
  | some value => .ok value
  | none => .error (.value "unknown video")

/-! ### Uploads -/

def create (now : ℚ) (owner title : String) (size partSize ttl : ℕ) (db : Db) : Except Error (String × Db) := do
  require (1 ≤ title.length ∧ title.length ≤ 500 ∧ isBlank title = false ∧ 1 ≤ size ∧ size ≤ c.maxBytes ∧
    1 ≤ partSize ∧ partSize ≤ 8 * 1024 ^ 2 ∧ (size + partSize - 1) / partSize ≤ 4096 ∧ 1 ≤ ttl ∧ ttl ≤ 86400)
    (.value "invalid upload size/title/grant lifetime")
  let id := c.uuid db.drawn
  return (id, { db with
    videos := db.videos.set id ⟨owner, title, size, partSize, .uploading, none, .empty, now⟩
    drawn := db.drawn + 1 })

/-- The transaction of `upload_grants`. -/
def uploadGrants (now : ℚ) (owner id : String) (db : Db) : Except Error Db := do
  let value ← db.video id
  require (value.owner = owner) (.permission "not the owner")
  require (value.state = .uploading) (.value "upload no longer accepts parts")
  return { db with videos := db.videos.set id { value with created := now } }

/-- The final transaction of `put_part`; whether the part is new. -/
def putPart (id : String) (idx : ℕ) (key : String) (size : ℕ) (isFile : Bool) (db : Db) : Except Error (Bool × Db) := do
  let value ← db.video id
  require (value.state ≠ .removed ∧ value.state ≠ .expired) (.value "video no longer accepts uploads")
  match db.parts.get? (id, idx) with
  | some old => do
    require (old.key = key) (.value "conflicting part retry")
    return (false, db)
  | none => do
    require (value.state = .uploading) (.value "upload no longer accepts parts")
    require (isFile = true) (.os "uploaded object unavailable; retry")
    return (true, { db with parts := db.parts.set (id, idx) ⟨key, size⟩ })

/-! ### Finalization -/

/-- `_check_plan`. -/
def checkPlan (id : String) (plan : Plan) (db : Db) : Except Error Unit :=
  let actual := (db.jobs.filter fun job => job.video = id).map Job.task
  require ((∀ task ∈ actual, task ∈ plan.tasks) ∧ ∀ task ∈ plan.tasks, task ∈ actual)
    (.value "conflicting finalization pipeline")

/-- The check of a plan that was asked for. -/
def checkAsked (id : String) (pipeline : Option Plan) (db : Db) : Except Error Unit :=
  match pipeline with
  | some plan => db.checkPlan id plan
  | none => .ok ()

/-- The first transaction of `finish`: the keys to assemble, unless the upload is over. -/
def finishRead (owner id : String) (checksum : Option String) (pipeline : Option Plan) (db : Db) :
    Except Error (Option (List String)) := do
  let value ← db.video id
  require (value.owner = owner) (.permission "not the owner")
  if value.state ≠ .uploading then do
    require ((value.state = .processing ∨ value.state = .ready) ∧ (checksum = none ∨ checksum = value.source))
      (.value "upload cannot be finalized")
    db.checkAsked id pipeline
    return none
  else
    let parts := (List.range ((value.size + value.partSize - 1) / value.partSize)).map fun idx => db.parts.get? (id, idx)
    require (parts.all Option.isSome = true ∧
      (db.parts.keys.filter fun key => key.1 = id).length = (value.size + value.partSize - 1) / value.partSize)
      (.value "missing upload parts")
    return some (parts.filterMap fun part => part.map (·.key))

/-- The rows that `enqueue` inserts. -/
def planJobs (id : String) (priority : ℤ) (tasks : List Task) (drawn : ℕ) : List Job :=
  (tasks.zipIdx drawn).map fun entry =>
    ⟨c.uuid entry.2, id, entry.1.name, entry.1.kind, entry.1.profile, entry.1.dependencies, .queued, 0, 0, none, 0,
      none, none, priority⟩

def enqueue (id : String) (plan : Plan) (priority : ℤ) (db : Db) : Db :=
  { db with
    jobs := db.jobs ++ planJobs c id priority plan.tasks db.drawn
    drawn := db.drawn + plan.tasks.length }

/-- The second transaction of `finish`, with the assembled object. -/
def finishCommit (id : String) (pipeline : Option Plan) (priority : ℤ) (key : String) (isFile : Bool) (db : Db) :
    Except Error Db := do
  let value ← db.video id
  if value.state = .processing ∨ value.state = .ready then do
    db.checkAsked id pipeline
    return db
  else do
    require (value.state = .uploading) (.value "video removed during finalization")
    require (isFile = true) (.os "assembled source unavailable; retry")
    return { db.enqueue c id (pipeline.getD c.pipeline) priority with
      videos := db.videos.set id { value with state := .processing, source := some key } }

/-! ### Leases -/

/-- `cancel`. -/
def cancel (id : String) (db : Db) : Db :=
  { db.updateJobs (fun job => job.video = id && (job.state = .queued || job.state = .running))
      fun job => { job with state := .cancelled } with
    videos := match db.videos.get? id with
      | some value => if value.state = .processing then db.videos.set id { value with state := .failed } else db.videos
      | none => db.videos }

/-- `INSERT OR IGNORE INTO job_limits`. -/
def limitTo (id : String) (attempts : ℕ) (db : Db) : Db :=
  { db with jobLimits := if (db.jobLimits.get? id).isSome then db.jobLimits else db.jobLimits.set id attempts }

/-- A job by its identifier, if it is running. -/
def isRunning (id : String) (job : Job) : Bool := job.id = id && job.state = .running

/-- An expired lease in `_recover`. -/
def recoverOne (now : ℚ) (db : Db) (row : Job) : Db :=
  let limit := (db.jobLimits.get? row.id).getD 3
  let db := db.limitTo row.id 3
  if limit ≤ row.attempts then
    let changed := db.jobs.any (isRunning row.id)
    let db := db.updateJobs (isRunning row.id) fun job =>
      { job with state := .failed, error := some "lease attempts exhausted" }
    if changed then db.cancel row.video else db
  else db.updateJobs (isRunning row.id) fun job => { job with state := .queued, lease := none, due := now }

/-- `_recover`. -/
def recover (now : ℚ) (db : Db) : Db :=
  (db.jobs.filter fun job => job.state = .running && job.expires ≤ now).foldl (recoverOne now) db

/-- All dependencies of the job are done. -/
def depsDone (db : Db) (job : Job) : Bool :=
  job.deps.all fun dep => db.jobs.any fun other => other.video = job.video && other.name = dep && other.state = .done

/-- The first job of `_ready`. -/
def firstReady (now : ℚ) (kinds : Option (List Kind)) (db : Db) : Option Job :=
  ((db.jobs.filter fun job => job.state = .queued && job.due ≤ now &&
    (kinds.getD [.inspect, .preprocess, .thumbnail, .encode, .publish]).contains job.kind).mergeSort
      fun job job' => job'.priority ≤ job.priority).find? fun job => db.depsDone job &&
        (match db.videos.get? job.video with
          | some value => value.state = .processing
          | none => false)

/-- `duration`. -/
def duration (value : ℚ) (name : String) (zero : Bool) : Except Error Unit :=
  require ((if zero then 0 ≤ value else 0 < value) ∧ value ≤ 86400) (.value ("invalid " ++ name))

/-- `attempts`. -/
def validAttempts (value : ℕ) : Except Error Unit := require (1 ≤ value ∧ value ≤ 100) (.value "invalid attempt limit")

/-- What a worker holds of a lease. -/
structure Lease where
  job : String
  lease : String

/-- `claim`, with its two readings of the clock. -/
def claim (now later leaseSeconds : ℚ) (maxAttempts : ℕ) (kinds : Option (List Kind)) (db : Db) :
    Except Error (Option Lease × Db) := do
  duration leaseSeconds "lease" false
  validAttempts maxAttempts
  let db := db.recover now
  match db.firstReady now kinds with
  | none => return (none, db)
  | some row =>
    let lease := c.uuid db.drawn
    return (some ⟨row.id, lease⟩, { (db.limitTo row.id maxAttempts).updateJobs (fun job => job.id = row.id) fun job =>
      { job with
        state := .running
        lease := some lease
        expires := c.plus later leaseSeconds
        attempts := job.attempts + 1 } with drawn := db.drawn + 1 })

/-- `_current`. -/
def current (now : ℚ) (held : Lease) (db : Db) : Option Job :=
  match db.jobs.find? fun job => job.id = held.job with
  | none => none
  | some job =>
    if job.state = .running ∧ job.lease = some held.lease ∧ ¬ job.expires ≤ now ∧
        (match db.videos.get? job.video with
          | some value => value.state = .processing
          | none => false) = true then some job
    else none

def renew (now later leaseSeconds : ℚ) (held : Lease) (db : Db) : Except Error (Bool × Db) := do
  duration leaseSeconds "lease" false
  match db.current now held with
  | none => return (false, db)
  | some job => return (true, db.updateJobs (fun other => other.id = job.id) fun other =>
      { other with expires := max job.expires (c.plus later leaseSeconds) })

/-! ### Completion -/

def isDigits (n : ℕ) (text : List Char) : Bool := text.length = n && text.all Char.isDigit

/-- `prefix` + `middle` + a number of five digits + `suffix`. -/
def isNumbered (before after : String) (name : String) : Bool :=
  let text := name.toList
  text.take before.length = before.toList && isDigits 5 ((text.drop before.length).take 5) &&
    text.drop (before.length + 5) = after.toList

/-- `_validate_assets`. -/
def validateAssets (job : Job) (names : List String) : Bool :=
  match job.kind with
  | .thumbnail => names.all (· = "thumbnail.png") && names.contains "thumbnail.png"
  | .preprocess => names.all (isNumbered "gop_" ".mkv")
  | .encode =>
    let root := (match job.profile with
      | some p => toString p
      | none => "None") ++ "/"
    names.contains (root ++ "index.m3u8") && 2 ≤ names.length &&
      names.all fun name => name = root ++ "index.m3u8" || isNumbered (root ++ "segment_") ".ts" name
  | _ => names.contains "key.bin" && names.contains "master.m3u8"

/-- The key of an object. -/
def isKey (key : String) : Bool :=
  key.length = 64 && key.toList.all fun ch => ('0' ≤ ch && ch ≤ '9') || ('a' ≤ ch && ch ≤ 'f')

/-- `expected` in `_validate_publication`. -/
def expected (job : Job) (db : Db) : Assets :=
  (db.jobs.filter fun other => other.video = job.video && other.state = .done && job.deps.contains other.name).foldl
    (fun expected other => match other.output with
      | some (.assets assets) => assets.entries.foldl (fun d entry => d.set entry.1 entry.2) expected
      | _ => expected) .empty

/-- `_validate_publication`. -/
def validatePublication (job : Job) (assets : Assets) (db : Db) : Bool :=
  let expected := db.expected job
  assets.keys.all (fun name => expected.contains name || name = "key.bin" || name = "master.m3u8") &&
    expected.keys.all (fun name => assets.contains name) && assets.contains "key.bin" && assets.contains "master.m3u8" &&
    expected.entries.all fun entry => assets.get? entry.1 = some entry.2

/-- What `complete` asks of an output; `isFile` is what the object store says. -/
def checkOutput (job : Job) (output : Output) (isFile : String → Bool) (db : Db) : Except Error Unit :=
  if job.kind = .inspect then .ok ()
  else match output with
    | .other _ => .error (.value "invalid task output")
    | .assets assets => do
      require (assets.keys ≠ []) (.value "invalid task output")
      require (validateAssets job assets.keys = true) (.value "task output does not match its plan")
      require (assets.values.all (fun key => isKey key && isFile key) = true) (.os "task output incomplete")
      require (job.kind = .publish → db.validatePublication job assets = true)
        (.value "publication does not match completed dependencies")

/-- `INSERT OR IGNORE INTO completions`. -/
def addCompletion (id : String) (assets : Assets) (db : Db) : Db :=
  { db with completions :=
      if (db.completions.get? id).isSome then db.completions else db.completions.set id ⟨assets, false⟩ }

/-- The last part of `complete`. -/
def finishJob (job : Job) (output : Output) (db : Db) : Except Error Db :=
  let done := db.updateJobs (fun other => other.id = job.id) fun other =>
    { other with state := .done, output := some output }
  if job.kind = .publish then
    match output with
    | .other _ => .error (.value "master playlist missing")
    | .assets assets => do
      require (assets.contains "master.m3u8" = true) (.value "master playlist missing")
      return done.addCompletion job.video assets
  else .ok done

/-- `complete`, with its two readings of the clock. -/
def complete (now later : ℚ) (held : Lease) (output : Output) (isFile : String → Bool) (db : Db) :
    Except Error (Bool × Db) :=
  match db.current now held with
  | none => .ok (false, db)
  | some job => do
    db.checkOutput job output isFile
    match db.current later held with
    | none => return (false, db)
    | some job => do
      let db ← db.finishJob job output
      return (true, db)

def fail (now later : ℚ) (held : Lease) (error : String) (fatal : Bool) (maxAttempts : ℕ) (retryBase : ℚ) (db : Db) :
    Except Error (Bool × Db) := do
  validAttempts maxAttempts
  duration retryBase "retry delay" true
  match db.current now held with
  | none => return (false, db)
  | some job =>
    let limit := (db.jobLimits.get? job.id).getD 3
    let failed := fatal || limit ≤ job.attempts
    let delay := min 86400 (c.backoff retryBase (min (job.attempts - 1) 30))
    let updated := db.updateJobs (fun other => other.id = job.id) fun other => { other with
      state := if failed then .failed else .queued
      error := some (String.ofList (error.toList.take 300))
      due := c.plus later delay
      lease := none }
    return (true, if failed then updated.cancel job.video else updated)

/-! ### Publication, removal and expiry -/

/-- The first transaction of `handle_completions`. -/
def pending (limit : ℕ) (db : Db) : List (String × Assets) :=
  ((db.completions.entries.filter fun entry => entry.2.handled = false).take limit).map fun entry => (entry.1, entry.2.assets)

/-- The objects of a row are there; `isFile` is what the object store says. -/
def available (isFile : String → Bool) (assets : Assets) : Bool :=
  assets.entries ≠ [] && assets.contains "master.m3u8" && assets.values.all isFile

/-- The transaction for one of its rows. -/
def handleCompletion (row : String × Assets) (isFile : String → Bool) (db : Db) : Except Error Db :=
  match db.completions.get? row.1 with
  | none => .ok db
  | some completion =>
    if completion.handled = true ∨ completion.assets.entries ≠ row.2.entries then .ok db
    else do
      let value ← db.video row.1
      let handled := db.completions.set row.1 { completion with handled := true }
      if value.state = .processing then
        if available isFile row.2 then
          return { db with
            videos := db.videos.set row.1 { value with state := .ready, assets := row.2 }
            completions := handled }
        else return db
      else return { db with completions := handled }

def remove (owner id : String) (db : Db) : Except Error Db := do
  let value ← db.video id
  require (value.owner = owner) (.permission "not the owner")
  return { db.updateJobs (fun job => job.video = id && (job.state = .queued || job.state = .running))
      fun job => { job with state := .cancelled } with
    videos := db.videos.set id { value with state := .removed } }

/-- An upload that was left alone for too long. -/
def expireUpload (now uploadAge : ℚ) (value : Video) : Video :=
  if value.state = .uploading ∧ value.created < c.minus now uploadAge then { value with state := .expired } else value

/-- The first transaction of `cleanup`. -/
def expireUploads (now uploadAge : ℚ) (db : Db) : Db :=
  let videos := db.videos.mapVal (expireUpload c now uploadAge)
  { db with
    videos := videos
    parts := db.parts.keys.foldl (fun parts key => match videos.get? key.1 with
      | some value => if value.state = .expired ∨ value.state = .removed then parts.erase key else parts
      | none => parts) db.parts }

end Db

end SystemDesign.VideoStreaming
