import SystemDesign.Lib.Fencing
import SystemDesign.Lib.Transitions
import SystemDesign.Notification.Queue

/-!
Workers over the durable queue (`worker.py`, `retry.py`).

A step is a transaction that returns, or what a worker does between two of them; a transaction
that raises changes nothing but the worker. What providers answer and who has opted out is free.
`accepted`, `finished`, `claims` and `sends` are for statements only.
-/

namespace SystemDesign.Notification

open List hiding not_le

structure Setup where
  uuid : ℕ → String
  uuid_injective : Function.Injective uuid
  uuid_ne : ∀ n, uuid n ≠ ""
  maxRetries : ℕ

/-- A result of `deliver`; whatever is raised counts as a failure. -/
inductive Outcome where
  | success
  | failure (retryable : Bool)

inductive Phase where
  | starting
  /-- The endpoints to send to, and for each failure so far whether it may be retried. -/
  | sending (pending : List (Option String)) (failures : List Bool)
  | cleanup

/-- A call of `_process_claim`. -/
structure Worker where
  task : Task
  phase : Phase

/-- The endpoints of an attempt. -/
def Task.pending (task : Task) : List (Option String) :=
  if task.endpoints = [] then [none]
  else (task.endpoints.filter fun endpoint =>
    endpoint ∉ task.completedEndpoints ∧ endpoint ∉ task.rejectedEndpoints).map some

/-- The task after an endpoint was tried. -/
def Task.tried (task : Task) (endpoint : Option String) : Outcome → Task
  | .success => { task with completedEndpoints := task.completedEndpoints ++ endpoint.toList }
  | .failure true => task
  | .failure false => { task with rejectedEndpoints := task.rejectedEndpoints ++ endpoint.toList }

def Outcome.failures : Outcome → List Bool
  | .success => []
  | .failure retryable => [retryable]

/-- What becomes of a task whose endpoints were all tried. -/
inductive Settlement where
  | ack
  | reschedule (task : Task)

/-- `handle_failure` with `defer=True`. -/
def Setup.handleFailure (c : Setup) (task : Task) (retryable : Bool) (now : ℚ) : Settlement :=
  if retryable = false then .ack
  else if c.maxRetries ≤ task.attempt then .ack
  else .reschedule { task with attempt := task.attempt + 1, scheduledAt := some now }

/-- The end of `_process_task`. -/
def Setup.settlement (c : Setup) (task : Task) (failures : List Bool) (now : ℚ) : Settlement :=
  if failures = [] ∧ task.rejectedEndpoints = [] then .ack
  else c.handleFailure task (failures.any id) now

/-- The task that the service accepts for a request. -/
def Request.task (request : Request) (notificationId : String) (createdAt : ℚ) (scheduledAt : Option ℚ)
    (endpoints : List String) : Task :=
  ⟨notificationId, request, request.channel, 0, createdAt, scheduledAt, endpoints, [], [], none⟩

/-- A message to an endpoint, by the worker with this receipt. -/
structure Send where
  notificationId : String
  receipt : Option String
  endpoint : Option String

structure State where
  db : Db
  workers : List Worker
  drawn : ℕ
  /-- The tasks accepted, the latest first. -/
  accepted : List Task
  /-- The notifications acknowledged, the latest first. -/
  finished : List String
  /-- The receipts drawn for each notification, the latest first. -/
  claims : List (String × String)
  sends : List Send

variable (c : Setup)

inductive Step (s : State) : State → Prop
  | enqueue (q : Queue) (request : Request) (createdAt : ℚ) (scheduledAt : Option ℚ) (endpoints : List String) (now : ℚ)
      {db : Db} (h : q.enqueue (request.task (c.uuid s.drawn) createdAt scheduledAt endpoints) now s.db = .ok db) :
      Step s { s with
        db := db, drawn := s.drawn + 1
        accepted := request.task (c.uuid s.drawn) createdAt scheduledAt endpoints :: s.accepted }
  | claim (q : Queue) (channel : Channel) (now : ℚ) {job : Option Task} {db : Db}
      (h : q.claim channel now (c.uuid s.drawn) s.db = (job, db)) :
      Step s { s with
        db := db, drawn := s.drawn + 1
        workers := s.workers ++ (job.map fun task => ⟨task, .starting⟩).toList
        claims := (job.map fun task => (task.notificationId, c.uuid s.drawn)).toList ++ s.claims }
  | renew (q : Queue) (worker : Worker) (hwork : worker ∈ s.workers) (now : ℚ) {renewed : Bool} {db : Db}
      (h : q.renew worker.task now s.db = (renewed, db)) : Step s { s with db := db }
  | begin (before after : List Worker) (task : Task) (hwork : s.workers = before ++ ⟨task, .starting⟩ :: after) :
      Step s { s with workers := before ++ ⟨task, .sending task.pending []⟩ :: after }
  | deliver (before after : List Worker) (task : Task) (endpoint : Option String) (pending : List (Option String))
      (failures : List Bool) (hwork : s.workers = before ++ ⟨task, .sending (endpoint :: pending) failures⟩ :: after)
      (outcome : Outcome) :
      Step s { s with
        workers := before ++ ⟨task.tried endpoint outcome, .sending pending (failures ++ outcome.failures)⟩ :: after
        sends := ⟨task.notificationId, task.receipt, endpoint⟩ :: s.sends }
  /-- The worker is stopped while it sends. -/
  | interrupted (before after : List Worker) (task : Task) (endpoint : Option String) (pending : List (Option String))
      (failures : List Bool) (hwork : s.workers = before ++ ⟨task, .sending (endpoint :: pending) failures⟩ :: after) :
      Step s { s with
        workers := before ++ ⟨task, .cleanup⟩ :: after
        sends := ⟨task.notificationId, task.receipt, endpoint⟩ :: s.sends }
  /-- The recipient has opted out; `dequeue` goes the same way. -/
  | optedOut (before after : List Worker) (worker : Worker) (hwork : s.workers = before ++ worker :: after)
      (hphase : worker.phase = .starting ∨ ∃ endpoint pending failures, worker.phase = .sending (endpoint :: pending) failures)
      (now : ℚ) (answered : Bool) {db : Db} (h : Queue.ack worker.task now s.db = .ok db) :
      Step s { s with
        db := db
        workers := before ++ if answered then after else ⟨worker.task, .cleanup⟩ :: after
        finished := worker.task.notificationId :: s.finished }
  | ack (before after : List Worker) (task : Task) (failures : List Bool)
      (hwork : s.workers = before ++ ⟨task, .sending [] failures⟩ :: after) (now₀ now : ℚ) (answered : Bool) {db : Db}
      (hsettle : c.settlement task failures now₀ = .ack) (h : Queue.ack task now s.db = .ok db) :
      Step s { s with
        db := db
        workers := before ++ if answered then after else ⟨task, .cleanup⟩ :: after
        finished := task.notificationId :: s.finished }
  | retry (q : Queue) (before after : List Worker) (task retryTask : Task) (failures : List Bool)
      (hwork : s.workers = before ++ ⟨task, .sending [] failures⟩ :: after) (delay now₀ now now' : ℚ) (answered : Bool) {db : Db}
      (hsettle : c.settlement task failures now₀ = .reschedule retryTask)
      (h : q.reschedule retryTask delay now₀ now now' s.db = .ok db) :
      Step s { s with db := db, workers := before ++ if answered then after else ⟨task, .cleanup⟩ :: after }
  /-- An exception, a cancellation or a heartbeat that found the lease lost. -/
  | fails (before after : List Worker) (worker : Worker) (hwork : s.workers = before ++ worker :: after) :
      Step s { s with workers := before ++ ⟨worker.task, .cleanup⟩ :: after }
  /-- The cleanup of `_process_claim` and of a claim that was cancelled. -/
  | release (q : Queue) (before after : List Worker) (task : Task) (hwork : s.workers = before ++ ⟨task, .cleanup⟩ :: after)
      (delay now₀ now now' : ℚ) {db : Db} (h : q.reschedule task delay now₀ now now' s.db = .ok db) :
      Step s { s with db := db, workers := before ++ after }
  | stops (before after : List Worker) (worker : Worker) (hwork : s.workers = before ++ worker :: after) :
      Step s { s with workers := before ++ after }

def init : State := ⟨⟨.empty, .empty⟩, [], 0, [], [], [], []⟩

def service : Transitions State where
  start s := s = init
  step := Step c

/-! ### What holds of a state -/

/-- The receipt of a row, or nothing. -/
def Db.token (db : Db) (id : String) : String := ((db.jobs.get? id).bind Row.receipt).getD ""

/-- A later task of the notification: it has come no less far. -/
structure Follows (old new : Task) : Prop where
  channel : new.channel = old.channel
  attempt : old.attempt ≤ new.attempt
  completed : old.completedEndpoints ⊆ new.completedEndpoints
  rejected : old.rejectedEndpoints ⊆ new.rejectedEndpoints

/-- No endpoint that is about to be sent to is recorded as done. -/
def Phase.Spares (payload : Task) : Phase → Prop
  | .sending pending _ => ∀ endpoint, some endpoint ∈ pending →
      endpoint ∉ payload.completedEndpoints ∧ endpoint ∉ payload.rejectedEndpoints
  | _ => True

/-- What is known of a worker as long as the row carries its receipt. -/
structure Holds (payload : Task) (worker : Worker) : Prop where
  follows : Follows payload worker.task
  attempt : worker.task.attempt = payload.attempt
  spares : worker.phase.Spares payload

/-- A worker has drawn its receipt for its notification. -/
def Fits (db : Db) (claims : List (String × String)) (worker : Worker) : Prop :=
  ∃ receipt, worker.task.receipt = some receipt ∧ (worker.task.notificationId, receipt) ∈ claims ∧
    ∀ row, db.jobs.get? worker.task.notificationId = some row → row.receipt = some receipt → Holds row.payload worker

structure Sound (s : State) : Prop where
  rows : ∀ id row, s.db.jobs.get? id = some row →
    row.payload.notificationId = id ∧ row.payload.channel = row.channel ∧ row.payload.attempt ≤ c.maxRetries
  conserved : (s.db.jobs.keys ++ s.finished).Perm (s.accepted.map Task.notificationId)
  accepted : ∀ task ∈ s.accepted, ∃ n < s.drawn, task.notificationId = c.uuid n
  once : (s.accepted.map Task.notificationId).Nodup
  events : ∀ key id, s.db.events.get? key = some id ↔ ∃ task ∈ s.accepted, task.event = some key ∧ task.notificationId = id
  accepted_events : (s.accepted.filterMap Task.event).Nodup
  fenced : Fenced s.claims s.db.token
  claims : ∀ claim ∈ s.claims, ∃ n < s.drawn, claim.2 = c.uuid n
  workers : ∀ worker ∈ s.workers, Fits s.db s.claims worker
  sends : ∀ send ∈ s.sends, ∃ receipt, send.receipt = some receipt ∧ (send.notificationId, receipt) ∈ s.claims

theorem Follows.refl (task : Task) : Follows task task := ⟨rfl, le_rfl, Subset.refl _, Subset.refl _⟩

theorem Follows.trans {a b d : Task} (h : Follows a b) (h' : Follows b d) : Follows a d :=
  ⟨h'.channel.trans h.channel, h.attempt.trans h'.attempt, Subset.trans h.completed h'.completed,
    Subset.trans h.rejected h'.rejected⟩

theorem Follows.tried (task : Task) (endpoint : Option String) (outcome : Outcome) :
    Follows task (task.tried endpoint outcome) ∧ (task.tried endpoint outcome).attempt = task.attempt ∧
      (task.tried endpoint outcome).notificationId = task.notificationId ∧
      (task.tried endpoint outcome).receipt = task.receipt := by
  rcases outcome with _ | (_ | _)
  · exact ⟨⟨rfl, le_rfl, subset_append_left _ _, Subset.refl _⟩, rfl, rfl, rfl⟩
  · exact ⟨⟨rfl, le_rfl, Subset.refl _, subset_append_left _ _⟩, rfl, rfl, rfl⟩
  · exact ⟨.refl _, rfl, rfl, rfl⟩

theorem Task.pending_spares {task : Task} {endpoint : String} (h : some endpoint ∈ task.pending) :
    endpoint ∉ task.completedEndpoints ∧ endpoint ∉ task.rejectedEndpoints := by
  unfold Task.pending at h
  split at h
  · simp at h
  · obtain ⟨found, hfound, heq⟩ := mem_map.mp h
    cases heq
    rw [mem_filter, decide_eq_true_eq] at hfound
    exact hfound.2

theorem settlement_reschedule {c : Setup} {task retryTask : Task} {failures : List Bool} {now : ℚ}
    (h : c.settlement task failures now = .reschedule retryTask) :
    task.attempt < c.maxRetries ∧ retryTask = { task with attempt := task.attempt + 1, scheduledAt := some now } := by
  unfold Setup.settlement Setup.handleFailure at h
  split at h
  · cases h
  · split at h
    · cases h
    · split at h
      · cases h
      · rename_i hmore
        cases h
        exact ⟨not_le.mp hmore, rfl⟩

end SystemDesign.Notification
