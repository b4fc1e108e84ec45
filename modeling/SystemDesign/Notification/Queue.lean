import SystemDesign.Lib.Dict
import SystemDesign.Lib.Transaction

/-!
The durable queue of the notification service (`durable.py`).

A row holds the task that its JSON text reads back as. Every function is one transaction; the
reading of the clock in it is an argument. The audit log is written along with the jobs and never
read by the queue, and is left out.
-/

namespace SystemDesign.Notification

inductive Channel where
  | iosPush
  | androidPush
  | sms
  | email
deriving DecidableEq

structure Request where
  recipientId : String
  channel : Channel
  title : String
  body : String
  templateId : Option String
  templateParams : Dict String String
  metadata : Dict String String
  eventId : Option String

/-- A `NotificationTask`; its field `endpoint` is set in the copies that providers receive only. -/
structure Task where
  notificationId : String
  request : Request
  channel : Channel
  attempt : ℕ
  createdAt : ℚ
  scheduledAt : Option ℚ
  endpoints : List String
  completedEndpoints : List String
  rejectedEndpoints : List String
  receipt : Option String

/-- `_encode`, read back by `_decode`. -/
def Task.encode (task : Task) : Task := { task with receipt := none }

structure Row where
  channel : Channel
  payload : Task
  available : ℚ
  receipt : Option String
  leaseUntil : ℚ

/-- The tables, rows in the order of their rowids. -/
structure Db where
  jobs : Dict String Row
  events : Dict (String × String × Channel) String

/-- A `SQLiteMessageQueue`. Several may share a file. -/
structure Queue where
  maxDepth : ℕ
  leaseSeconds : ℚ
  maxDepth_pos : 0 < maxDepth
  leaseSeconds_pos : 0 < leaseSeconds

inductive Error where
  | duplicate (original : String)
  | queueFull (channel : Channel) (maxDepth : ℕ)
  | integrity
  | leaseLost (before : String)

/-- The key of the events table. -/
def Task.event (task : Task) : Option (String × String × Channel) :=
  task.request.eventId.map fun event => (event, task.request.recipientId, task.channel)

/-- The number of rows of a channel. -/
def Db.count (db : Db) (channel : Channel) : ℕ := db.jobs.values.countP fun row => row.channel = channel

/-- The check of an event that was accepted before. -/
def Db.unseen (db : Db) (task : Task) : Except Error Unit :=
  match task.event.bind db.events.get? with
  | some original => throw (.duplicate original)
  | none => return ()

/-- `_enqueue`. -/
def Queue.enqueue (q : Queue) (task : Task) (now : ℚ) (db : Db) : Except Error Db := do
  db.unseen task
  require (db.count task.channel < q.maxDepth) (.queueFull task.channel q.maxDepth)
  require (db.jobs.get? task.notificationId = none) .integrity
  return {
    jobs := db.jobs.set task.notificationId ⟨task.channel, task.encode, task.scheduledAt.getD now, none, 0⟩
    events := match task.event with
      | some key => db.events.set key task.notificationId
      | none => db.events }

/-- The rows that may be claimed. -/
def Db.claimable (db : Db) (channel : Channel) (now : ℚ) : List (String × Row) :=
  db.jobs.entries.filter fun entry =>
    entry.2.channel = channel ∧ entry.2.available ≤ now ∧ (entry.2.receipt = none ∨ entry.2.leaseUntil ≤ now)

/-- `_claim`, with the receipt drawn for it. -/
def Queue.claim (q : Queue) (channel : Channel) (now : ℚ) (receipt : String) (db : Db) : Option Task × Db :=
  match (db.claimable channel now).argmin fun entry => entry.2.available with
  | none => (none, db)
  | some (_, row) =>
    let task := { row.payload with receipt := some receipt }
    -- the row of the task's id, which is the row that was found
    match db.jobs.get? task.notificationId with
    | none => (some task, db)
    | some row =>
      (some task, { db with
        jobs := db.jobs.set task.notificationId { row with receipt := some receipt, leaseUntil := now + q.leaseSeconds } })

/-- The row that a task may change: it carries the task's receipt and its lease runs. -/
def Db.held (db : Db) (task : Task) (now : ℚ) : Option Row :=
  (db.jobs.get? task.notificationId).filter fun row =>
    task.receipt.isSome ∧ row.receipt = task.receipt ∧ now < row.leaseUntil

/-- `_ack`. -/
def Queue.ack (task : Task) (now : ℚ) (db : Db) : Except Error Db :=
  match db.held task now with
  | none => throw (.leaseLost "acknowledgement")
  | some _ => return { db with jobs := db.jobs.erase task.notificationId }

/-- `_renew`. -/
def Queue.renew (q : Queue) (task : Task) (now : ℚ) (db : Db) : Bool × Db :=
  match db.held task now with
  | none => (false, db)
  | some row => (true, { db with jobs := db.jobs.set task.notificationId { row with leaseUntil := now + q.leaseSeconds } })

/-- `reschedule` with `_reschedule`. The clock is read for the task, for the row and for the lease. -/
def Queue.reschedule (q : Queue) (task : Task) (delay now₀ now now' : ℚ) (db : Db) : Except Error Db :=
  let task := { task with scheduledAt := some (now₀ + delay) }
  if task.receipt.getD "" = "" then q.enqueue task now db
  else
    match db.held task now' with
    | none => throw (.leaseLost "rescheduling")
    | some row =>
      return { db with
        jobs := db.jobs.set task.notificationId
          { row with payload := task.encode, available := now + delay, receipt := none, leaseUntil := 0 } }

/-! ### What a transaction leaves -/

variable {q : Queue} {task : Task} {db db' : Db} {now₀ now now' delay : ℚ} {channel : Channel} {row : Row} {receipt : String}

theorem Db.held_eq_some : db.held task now = some row ↔
    db.jobs.get? task.notificationId = some row ∧ task.receipt.isSome ∧ row.receipt = task.receipt ∧ now < row.leaseUntil := by
  simp only [Db.held, Option.filter_eq_some_iff, decide_eq_true_eq]

theorem enqueue_cases (h : q.enqueue task now db = .ok db') :
    task.event.bind db.events.get? = none ∧ db.count task.channel < q.maxDepth ∧ db.jobs.get? task.notificationId = none ∧
      db'.jobs = db.jobs.set task.notificationId ⟨task.channel, task.encode, task.scheduledAt.getD now, none, 0⟩ ∧
      (∀ key, db'.events.get? key = if task.event = some key then some task.notificationId else db.events.get? key) := by
  unfold Queue.enqueue at h
  obtain ⟨_, hnew, h⟩ := of_bind h
  obtain ⟨_, hdepth, h⟩ := of_bind h
  obtain ⟨_, hid, h⟩ := of_bind h
  rw [require_eq_ok] at hdepth hid
  have hevent : task.event.bind db.events.get? = none := by
    unfold Db.unseen at hnew
    cases hfound : task.event.bind db.events.get? with
    | none => rfl
    | some original =>
      rw [hfound] at hnew
      cases hnew
  cases h
  refine ⟨hevent, hdepth, hid, rfl, fun key => ?_⟩
  cases hkey : task.event with
  | none => simp
  | some event =>
    simp only [Dict.get?_set, Option.some.injEq]
    by_cases hsame : key = event
    · rw [if_pos hsame, if_pos hsame.symm]
    · rw [if_neg hsame, if_neg (Ne.symm hsame)]

theorem ack_cases (h : Queue.ack task now db = .ok db') :
    (∃ row, db.held task now = some row) ∧ db' = { db with jobs := db.jobs.erase task.notificationId } := by
  unfold Queue.ack at h
  cases hheld : db.held task now with
  | none =>
    rw [hheld] at h
    cases h
  | some row =>
    rw [hheld] at h
    cases h
    exact ⟨⟨row, rfl⟩, rfl⟩

theorem renew_cases (b : Bool) (h : q.renew task now db = (b, db')) : (b = false ∧ db.held task now = none ∧ db' = db) ∨
      ∃ row, b = true ∧ db.held task now = some row ∧
        db' = { db with jobs := db.jobs.set task.notificationId { row with leaseUntil := now + q.leaseSeconds } } := by
  unfold Queue.renew at h
  cases hheld : db.held task now with
  | none =>
    rw [hheld] at h
    cases h
    exact .inl ⟨rfl, rfl, rfl⟩
  | some row =>
    rw [hheld] at h
    cases h
    exact .inr ⟨row, rfl, rfl, rfl⟩

/-- A task with a receipt is never enqueued a second time. -/
theorem reschedule_cases (hreceipt : task.receipt = some receipt) (hne : receipt ≠ "")
    (h : q.reschedule task delay now₀ now now' db = .ok db') :
    ∃ row, db.held task now' = some row ∧ db' = { db with
      jobs := db.jobs.set task.notificationId { row with
        payload := { task with scheduledAt := some (now₀ + delay), receipt := none }
        available := now + delay, receipt := none, leaseUntil := 0 } } := by
  unfold Queue.reschedule at h
  have hsame : db.held { task with scheduledAt := some (now₀ + delay) } now' = db.held task now' := rfl
  simp only [hsame] at h
  rw [if_neg (by rw [hreceipt]; exact hne)] at h
  cases hheld : db.held task now' with
  | none =>
    rw [hheld] at h
    cases h
  | some row =>
    rw [hheld] at h
    cases h
    exact ⟨row, rfl, rfl⟩

theorem reschedule_held (hreceipt : task.receipt = some receipt) (hne : receipt ≠ "") (hheld : db.held task now' = some row) :
    q.reschedule task delay now₀ now now' db = .ok { db with
      jobs := db.jobs.set task.notificationId { row with
        payload := { task with scheduledAt := some (now₀ + delay), receipt := none }
        available := now + delay, receipt := none, leaseUntil := 0 } } := by
  unfold Queue.reschedule
  have hsame : db.held { task with scheduledAt := some (now₀ + delay) } now' = db.held task now' := rfl
  simp only [hsame]
  rw [if_neg (by rw [hreceipt]; exact hne), hheld]
  rfl

/-- What holds of the table for a claim to find the row again: a row's payload has its id. -/
def Db.Keyed (db : Db) : Prop := ∀ id row, db.jobs.get? id = some row → row.payload.notificationId = id

theorem claim_cases (hkeyed : db.Keyed) {job : Option Task} (h : q.claim channel now receipt db = (job, db')) :
    (job = none ∧ db' = db) ∨ ∃ row,
      job = some { row.payload with receipt := some receipt } ∧ db.jobs.get? row.payload.notificationId = some row ∧
      row.channel = channel ∧ (row.receipt = none ∨ row.leaseUntil ≤ now) ∧
      db' = { db with
        jobs := db.jobs.set row.payload.notificationId
          { row with receipt := some receipt, leaseUntil := now + q.leaseSeconds } } := by
  unfold Queue.claim at h
  cases hfound : (db.claimable channel now).argmin fun entry => entry.2.available with
  | none =>
    rw [hfound] at h
    cases h
    exact .inl ⟨rfl, rfl⟩
  | some entry =>
    obtain ⟨id, row⟩ := entry
    have hmem := List.argmin_mem (Option.mem_def.mpr hfound)
    rw [Db.claimable, List.mem_filter, decide_eq_true_eq] at hmem
    obtain ⟨hentry, hchannel, -, hfree⟩ := hmem
    have hget : db.jobs.get? id = some row := Dict.mem_entries.mp hentry
    have hid := hkeyed id row hget
    subst hid
    simp only [hfound, hget] at h
    cases h
    exact .inr ⟨row, rfl, hget, hchannel, hfree, rfl⟩

end SystemDesign.Notification
