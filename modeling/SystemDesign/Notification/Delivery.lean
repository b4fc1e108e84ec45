import SystemDesign.Notification.Leases

/-!
Nothing accepted is lost, and each notification is finished once.

`Step.jobs` says in four cases what a step does to the rows; how far a row has come and who may
change it follow from there. Only a worker that lost its lease sends to an endpoint that is
recorded as completed.
-/

namespace SystemDesign.Notification

open List hiding not_lt
open Dict

variable {c : Setup} {s s' : State} {db db' : Db} {id : String} {row row' : Row} {worker : Worker} {now : ℚ}

/-! ### What a step does to the rows -/

/-- One row written again, and not pushed back. -/
structure Rewritten (db db' : Db) (row row' : Row) (id : String) : Prop where
  found : db.jobs.get? id = some row
  written : db' = { db with jobs := db.jobs.set id row' }
  channel : row'.channel = row.channel
  follows : Follows row.payload row'.payload

variable {task : Task}

theorem rescheduled (h : Sound c s) (hworker : worker ∈ s.workers) {q : Queue} {delay now₀ now' : ℚ}
    (hreschedule : q.reschedule task delay now₀ now now' s.db = .ok db)
    (hid : task.notificationId = worker.task.notificationId) (hreceipt : task.receipt = worker.task.receipt)
    (hfollows : Follows worker.task task) : ∃ row row', Rewritten s.db db row row' task.notificationId := by
  obtain ⟨receipt, hcarries, hne⟩ := h.receipt hworker
  obtain ⟨row, hheld, rfl⟩ := reschedule_cases (hreceipt.trans hcarries) hne hreschedule
  have hheld : s.db.held worker.task now' = some row := by
    rw [← hheld]
    simp only [Db.held, hid, hreceipt]
  obtain ⟨hrow, hholds⟩ := h.holder hworker hheld
  rw [← hid] at hrow
  have hlater := hholds.follows.trans hfollows
  exact ⟨row, _, hrow, rfl, rfl, hlater.channel, hlater.attempt, hlater.completed, hlater.rejected⟩

theorem Step.jobs (h : Sound c s) (hstep : Step c s s') :
    (s'.db = s.db ∧ s'.accepted = s.accepted ∧ s'.finished = s.finished) ∨
    (∃ q task now, Queue.enqueue q task now s.db = .ok s'.db ∧ task.notificationId = c.uuid s.drawn ∧
      s'.accepted = task :: s.accepted ∧ s'.finished = s.finished) ∨
    (∃ id row row', Rewritten s.db s'.db row row' id ∧ s'.accepted = s.accepted ∧ s'.finished = s.finished) ∨
    ∃ worker ∈ s.workers, ∃ now, Queue.ack worker.task now s.db = .ok s'.db ∧ s'.accepted = s.accepted ∧
      s'.finished = worker.task.notificationId :: s.finished := by
  cases hstep with
  | enqueue q request createdAt scheduledAt endpoints now henqueue =>
    exact .inr (.inl ⟨q, _, now, henqueue, rfl, rfl, rfl⟩)
  | claim q channel now hclaim =>
    obtain ⟨rfl, rfl⟩ | ⟨row, rfl, hrow, -, -, rfl⟩ := claim_cases (fun id row hrow => (h.rows id row hrow).1) hclaim
    · exact .inl ⟨rfl, rfl, rfl⟩
    · exact .inr (.inr (.inl ⟨_, row, _, ⟨hrow, rfl, rfl, .refl _⟩, rfl, rfl⟩))
  | renew q worker hwork now hrenew =>
    obtain ⟨-, -, rfl⟩ | ⟨row, -, hheld, rfl⟩ := renew_cases _ hrenew
    · exact .inl ⟨rfl, rfl, rfl⟩
    · exact .inr (.inr (.inl ⟨_, row, _, ⟨(Db.held_eq_some.mp hheld).1, rfl, rfl, .refl _⟩, rfl, rfl⟩))
  | begin | deliver | interrupted | fails | stops => exact .inl ⟨rfl, rfl, rfl⟩
  | optedOut before after worker hwork hphase now answered hack =>
    exact .inr (.inr (.inr ⟨worker, mem_workers hwork, now, hack, rfl, rfl⟩))
  | ack before after task failures hwork now₀ now answered hsettle hack =>
    exact .inr (.inr (.inr ⟨_, mem_workers hwork, now, hack, rfl, rfl⟩))
  | retry q before after task retryTask failures hwork delay now₀ now now' answered hsettle hreschedule =>
    obtain ⟨-, rfl⟩ := settlement_reschedule hsettle
    obtain ⟨row, row', hwritten⟩ := rescheduled h (mem_workers hwork) hreschedule rfl rfl
      ⟨rfl, Nat.le_succ _, Subset.refl _, Subset.refl _⟩
    exact .inr (.inr (.inl ⟨_, row, row', hwritten, rfl, rfl⟩))
  | release q before after task hwork delay now₀ now now' hreschedule =>
    obtain ⟨row, row', hwritten⟩ := rescheduled h (mem_workers hwork) hreschedule rfl rfl (.refl _)
    exact .inr (.inr (.inl ⟨_, row, row', hwritten, rfl, rfl⟩))

theorem Step.accepted (h : Sound c s) (hstep : Step c s s') : ∀ task ∈ s.accepted, task ∈ s'.accepted := by
  intro task htask
  obtain ⟨-, heq, -⟩ | ⟨_, _, _, -, -, heq, -⟩ | ⟨_, _, _, -, heq, -⟩ | ⟨_, -, _, -, heq, -⟩ := hstep.jobs h
  · rwa [heq]
  · rw [heq]
    exact mem_cons_of_mem _ htask
  · rwa [heq]
  · rwa [heq]

/-- A row stays and moves on, or its holder acknowledges it. -/
theorem Step.rowMoves (h : Sound c s) (hstep : Step c s s') (hrow : s.db.jobs.get? id = some row) :
    (∃ row', s'.db.jobs.get? id = some row' ∧ row'.channel = row.channel ∧ Follows row.payload row'.payload) ∨
    (s'.db.jobs.get? id = none ∧ s'.finished = id :: s.finished ∧
      ∃ worker ∈ s.workers, ∃ now, worker.task.notificationId = id ∧ Queue.ack worker.task now s.db = .ok s'.db) := by
  obtain ⟨hdb, -, -⟩ | ⟨q, task, now, henqueue, -, -, -⟩ | ⟨id', old, new, hwritten, -, -⟩ | ⟨worker, hworker, now, hack, -, hfinished⟩ :=
    hstep.jobs h
  · rw [hdb]
    exact .inl ⟨row, hrow, rfl, .refl _⟩
  · obtain ⟨-, -, hnone, hjobs, -⟩ := enqueue_cases henqueue
    rw [hjobs]
    have hne : id ≠ task.notificationId := by
      rintro rfl
      rw [hrow] at hnone
      cases hnone
    exact .inl ⟨row, (get?_set_of_ne _ hne _).trans hrow, rfl, .refl _⟩
  · obtain ⟨hold, hdb, hchannel, hfollows⟩ := hwritten
    rw [hdb]
    by_cases hsame : id = id'
    · subst hsame
      obtain rfl : old = row := Option.some.inj (hold.symm.trans hrow)
      exact .inl ⟨new, get?_set_self _ _ _, hchannel, hfollows⟩
    · exact .inl ⟨row, (get?_set_of_ne _ hsame _).trans hrow, rfl, .refl _⟩
  · obtain ⟨-, hdb⟩ := ack_cases hack
    by_cases hsame : id = worker.task.notificationId
    · subst hsame
      refine .inr ⟨?_, hfinished, worker, hworker, now, rfl, hack⟩
      rw [hdb, get?_erase, if_pos rfl]
    · refine .inl ⟨row, ?_, rfl, .refl _⟩
      rw [hdb, get?_erase, if_neg hsame]
      exact hrow

/-- What was acknowledged does not come back. -/
theorem Step.gone (h : Sound c s) (hstep : Step c s s') (hid : id ∈ s.accepted.map Task.notificationId)
    (hnone : s.db.jobs.get? id = none) : s'.db.jobs.get? id = none := by
  obtain ⟨hdb, -, -⟩ | ⟨q, task, now, henqueue, hnew, -, -⟩ | ⟨id', old, new, hwritten, -, -⟩ | ⟨worker, hworker, now, hack, -, -⟩ :=
    hstep.jobs h
  · rwa [hdb]
  · obtain ⟨-, -, -, hjobs, -⟩ := enqueue_cases henqueue
    have hne : id ≠ task.notificationId := by
      obtain ⟨accepted, hmem, rfl⟩ := mem_map.mp hid
      rw [hnew]
      exact uuid_new (h.accepted accepted hmem)
    rw [hjobs, get?_set_of_ne _ hne]
    exact hnone
  · obtain ⟨hold, hdb, -, -⟩ := hwritten
    have hne : id ≠ id' := by
      rintro rfl
      rw [hold] at hnone
      cases hnone
    rw [hdb, get?_set_of_ne _ hne]
    exact hnone
  · obtain ⟨-, hdb⟩ := ack_cases hack
    rw [hdb, get?_erase]
    split
    · rfl
    · exact hnone

/-! ### The number of rows -/

theorem count_enqueue {q : Queue} (h : q.enqueue task now db = .ok db') (channel : Channel) :
    db'.count channel = db.count channel + if channel = task.channel then 1 else 0 := by
  obtain ⟨-, -, hnone, hjobs, -⟩ := enqueue_cases h
  unfold Db.count Dict.values
  rw [hjobs, ((set_entries_perm _ _ _).map Prod.snd).countP_eq, erase_entries_of_none hnone, map_cons, countP_cons]
  by_cases hsame : channel = task.channel
  · subst hsame
    simp
  · simp [hsame, Ne.symm hsame]

theorem count_rewritten (h : Rewritten db db' row row' id) (channel : Channel) : db'.count channel = db.count channel := by
  obtain ⟨hrow, rfl, hchannel, -⟩ := h
  unfold Db.count Dict.values
  simp only [((set_entries_perm db.jobs id row').map Prod.snd).countP_eq, ((entries_perm hrow).map Prod.snd).countP_eq,
    map_cons, countP_cons, hchannel]

theorem count_ack (h : Queue.ack task now db = .ok db') (channel : Channel) : db'.count channel ≤ db.count channel := by
  obtain ⟨-, rfl⟩ := ack_cases h
  exact Sublist.countP_le (filter_sublist.map Prod.snd)

/-- Only an accepted notification raises a count, to the limit of the queue that accepts it. -/
theorem Step.count (h : Sound c s) (hstep : Step c s s') (channel : Channel) :
    s'.db.count channel ≤ s.db.count channel ∨
      ∃ q task now, Queue.enqueue q task now s.db = .ok s'.db ∧ channel = task.channel ∧ s'.db.count channel ≤ q.maxDepth := by
  obtain ⟨hdb, -, -⟩ | ⟨q, task, now, henqueue, -, -, -⟩ | ⟨id', old, new, hwritten, -, -⟩ | ⟨worker, -, now, hack, -, -⟩ := hstep.jobs h
  · rw [hdb]
    exact .inl le_rfl
  · have hcount := count_enqueue henqueue channel
    by_cases hsame : channel = task.channel
    · rw [if_pos hsame] at hcount
      obtain ⟨-, hdepth, -⟩ := enqueue_cases henqueue
      rw [← hsame] at hdepth
      exact .inr ⟨q, task, now, henqueue, hsame, hcount.trans_le hdepth⟩
    · rw [if_neg hsame] at hcount
      exact .inl hcount.le
  · exact .inl (count_rewritten hwritten channel).le
  · exact .inl (count_ack hack channel)

/-! ### Fencing -/

/-- With this task nothing can be done to the queue. -/
structure Refused (db : Db) (task : Task) (now : ℚ) : Prop where
  ack : ∀ db', Queue.ack task now db ≠ .ok db'
  renew : ∀ q, Queue.renew q task now db = (false, db)
  reschedule : ∀ q delay now₀ now₁ db', Queue.reschedule q task delay now₀ now₁ now db ≠ .ok db'

theorem refused {receipt : String} (hreceipt : task.receipt = some receipt) (hne : receipt ≠ "")
    (h : ∀ row, db.jobs.get? task.notificationId = some row → row.receipt = some receipt → row.leaseUntil ≤ now) :
    Refused db task now := by
  have hheld : db.held task now = none := by
    refine Option.eq_none_iff_forall_ne_some.mpr fun row hrow => ?_
    obtain ⟨hfound, -, hsame, hlease⟩ := Db.held_eq_some.mp hrow
    exact absurd hlease (not_lt.mpr (h row hfound (hsame.trans hreceipt)))
  refine ⟨fun db' hack => ?_, fun q => ?_, fun q delay now₀ now₁ db' hreschedule => ?_⟩
  · obtain ⟨⟨row, hrow⟩, -⟩ := ack_cases hack
    rw [hheld] at hrow
    cases hrow
  · unfold Queue.renew
    rw [hheld]
  · obtain ⟨row, hrow, -⟩ := reschedule_cases hreceipt hne hreschedule
    rw [hheld] at hrow
    cases hrow

/-! ### Endpoints that are done -/

/-- The worker will not send to this endpoint. -/
def Worker.Avoids (endpoint : String) (worker : Worker) : Prop :=
  match worker.phase with
  | .starting => endpoint ∈ worker.task.completedEndpoints
  | .sending pending _ => some endpoint ∉ pending
  | .cleanup => True

/-- The worker claimed the notification, and no longer holds it. -/
def Stale (start : State) (id : String) (row : Row) (receipt : Option String) : Prop :=
  ∃ r, receipt = some r ∧ (id, r) ∈ start.claims ∧ row.receipt ≠ some r

/-- How a run goes on after an endpoint was recorded as completed. -/
structure Past (start : State) (id : String) (row : Row) (endpoint : String) (s : State) : Prop where
  accepted : id ∈ s.accepted.map Task.notificationId
  recorded : ∀ later, s.db.jobs.get? id = some later → endpoint ∈ later.payload.completedEndpoints
  workers : ∀ worker ∈ s.workers, worker.task.notificationId = id →
    Stale start id row worker.task.receipt ∨ worker.Avoids endpoint
  sends : ∃ sends, s.sends = sends ++ start.sends ∧ ∀ send ∈ sends, send.notificationId = id →
    send.endpoint = some endpoint → Stale start id row send.receipt

variable {endpoint : String}

theorem Past.start (h : Sound c s) (hrow : s.db.jobs.get? id = some row)
    (hrecorded : endpoint ∈ row.payload.completedEndpoints) : Past s id row endpoint s where
  accepted := h.conserved.subset (mem_append_left _ (Dict.mem_keys.mpr ⟨row, hrow⟩))
  recorded later hlater := by
    obtain rfl : row = later := Option.some.inj (hrow.symm.trans hlater)
    exact hrecorded
  workers worker hworker hid := by
    obtain ⟨receipt, hreceipt, hmem, hholds⟩ := h.workers worker hworker
    rw [hid] at hmem hholds
    by_cases hcarries : row.receipt = some receipt
    · have hrow := hholds row hrow hcarries
      refine .inr ?_
      unfold Worker.Avoids
      cases hphase : worker.phase with
      | starting => exact hrow.follows.completed hrecorded
      | sending pending failures =>
        intro hpending
        have hspares := hrow.spares
        rw [hphase] at hspares
        exact (hspares endpoint hpending).1 hrecorded
      | cleanup => trivial
    · exact .inl ⟨receipt, hreceipt, hmem, hcarries⟩
  sends := ⟨[], rfl, nofun⟩

theorem Past.step {start : State} (h : Past start id row endpoint s) (hsound : Sound c s) (hstep : Step c s s') :
    Past start id row endpoint s' := by
  have haccepted : id ∈ s'.accepted.map Task.notificationId := by
    obtain ⟨task, htask, heq⟩ := mem_map.mp h.accepted
    exact mem_map.mpr ⟨task, hstep.accepted hsound task htask, heq⟩
  have hrecorded : ∀ later, s'.db.jobs.get? id = some later → endpoint ∈ later.payload.completedEndpoints := by
    intro later hlater
    cases hfound : s.db.jobs.get? id with
    | none =>
      rw [hstep.gone hsound h.accepted hfound] at hlater
      cases hlater
    | some old =>
      obtain ⟨new, hnew, -, hfollows⟩ | ⟨hnone, -⟩ := hstep.rowMoves hsound hfound
      · obtain rfl : new = later := Option.some.inj (hnew.symm.trans hlater)
        exact hfollows.completed (h.recorded old hfound)
      · rw [hnone] at hlater
        cases hlater
  obtain ⟨sends, hsends, hold⟩ := h.sends
  have hsent : ∀ {task : Task} {pending : List (Option String)} {target : Option String} {failures : List Bool},
      (⟨task, .sending (target :: pending) failures⟩ : Worker) ∈ s.workers →
      ∃ sends', (⟨task.notificationId, task.receipt, target⟩ : Send) :: s.sends = sends' ++ start.sends ∧
        ∀ send ∈ sends', send.notificationId = id → send.endpoint = some endpoint → Stale start id row send.receipt := by
    intro task pending target failures hworker
    refine ⟨⟨task.notificationId, task.receipt, target⟩ :: sends, by rw [hsends]; rfl, fun send hsend hid htarget => ?_⟩
    obtain rfl | hsend := mem_cons.mp hsend
    · refine (h.workers _ hworker hid).resolve_right fun havoids => havoids ?_
      exact mem_cons.mpr (.inl htarget.symm)
    · exact hold send hsend hid htarget
  cases hstep with
  | enqueue | renew => exact ⟨haccepted, hrecorded, h.workers, h.sends⟩
  | claim q channel now hclaim =>
    refine ⟨haccepted, hrecorded, fun worker hworker hid => ?_, h.sends⟩
    obtain hworker | hworker := mem_append.mp hworker
    · exact h.workers worker hworker hid
    obtain ⟨rfl, -⟩ | ⟨found, rfl, hfound, -⟩ := claim_cases (fun id row hrow => (hsound.rows id row hrow).1) hclaim
    · cases hworker
    · obtain rfl := mem_singleton.mp hworker
      have hid : found.payload.notificationId = id := hid
      rw [hid] at hfound
      exact .inr (h.recorded found hfound)
  | begin before after task hwork =>
    refine ⟨haccepted, hrecorded, forall_replaced h.workers hwork fun hid => ?_, h.sends⟩
    refine (h.workers _ (mem_workers hwork) hid).imp_right fun havoids hpending => ?_
    exact (Task.pending_spares hpending).1 havoids
  | deliver before after task target pending failures hwork outcome =>
    refine ⟨haccepted, hrecorded, forall_replaced h.workers hwork fun hid => ?_, hsent (mem_workers hwork)⟩
    obtain ⟨-, -, hsame, hreceipt⟩ := Follows.tried task target outcome
    have hid : task.notificationId = id := hsame.symm.trans hid
    obtain hstale | havoids := h.workers _ (mem_workers hwork) hid
    · refine .inl ?_
      rw [hreceipt]
      exact hstale
    · exact .inr fun hpending => havoids (mem_cons_of_mem _ hpending)
  | interrupted before after task target pending failures hwork =>
    exact ⟨haccepted, hrecorded, forall_replaced h.workers hwork fun _ => .inr trivial, hsent (mem_workers hwork)⟩
  | optedOut before after worker hwork hphase now answered hack =>
    exact ⟨haccepted, hrecorded, forall_answered answered h.workers hwork fun _ _ => .inr trivial, h.sends⟩
  | ack before after task failures hwork now₀ now answered hsettle hack =>
    exact ⟨haccepted, hrecorded, forall_answered answered h.workers hwork fun _ _ => .inr trivial, h.sends⟩
  | retry q before after task retryTask failures hwork delay now₀ now now' answered hsettle hreschedule =>
    exact ⟨haccepted, hrecorded, forall_answered answered h.workers hwork fun _ _ => .inr trivial, h.sends⟩
  | fails before after worker hwork =>
    exact ⟨haccepted, hrecorded, forall_replaced h.workers hwork fun _ => .inr trivial, h.sends⟩
  | release q before after task hwork delay now₀ now now' hreschedule =>
    exact ⟨haccepted, hrecorded, forall_removed h.workers hwork, h.sends⟩
  | stops before after worker hwork => exact ⟨haccepted, hrecorded, forall_removed h.workers hwork, h.sends⟩

theorem Past.run (h : Sound c s) (hrow : s.db.jobs.get? id = some row)
    (hrecorded : endpoint ∈ row.payload.completedEndpoints) (hrun : Relation.ReflTransGen (Step c) s s') :
    Sound c s' ∧ Past s id row endpoint s' := by
  induction hrun with
  | refl => exact ⟨h, .start h hrow hrecorded⟩
  | tail _ hstep ih => exact ⟨ih.1.step hstep, ih.2.step ih.1 hstep⟩

/-! ### The queue over whole runs -/

/-- Two accepted notifications of one event are one. -/
theorem Sound.unique_event (h : Sound c s) {a b : Task} (ha : a ∈ s.accepted) (hb : b ∈ s.accepted) {key : String × String × Channel}
    (hkey : a.event = some key) (hkey' : b.event = some key) : a = b := by
  have hid := (h.events key a.notificationId).mpr ⟨a, ha, hkey, rfl⟩
  have hid' := (h.events key b.notificationId).mpr ⟨b, hb, hkey', rfl⟩
  have hsame : a.notificationId = b.notificationId := Option.some.inj (hid.symm.trans hid')
  exact inj_on_of_nodup_map h.once ha hb hsame

/-- What the queue promises, in a state and from there on. -/
structure Durable (c : Setup) (s : State) : Prop where
  once : (s.accepted.map Task.notificationId).Nodup
  /-- A notification has a row until it is acknowledged. -/
  conserved : (s.db.jobs.keys ++ s.finished).Perm (s.accepted.map Task.notificationId)
  events : ∀ a ∈ s.accepted, ∀ b ∈ s.accepted, ∀ key, a.event = some key → b.event = some key → a = b
  retries : ∀ id row, s.db.jobs.get? id = some row → row.payload.attempt ≤ c.maxRetries
  /-- The row carries another receipt, or the lease is over. -/
  expired : ∀ task receipt, task.receipt = some receipt → (task.notificationId, receipt) ∈ s.claims → ∀ now,
    (∀ row, s.db.jobs.get? task.notificationId = some row → row.receipt = some receipt → row.leaseUntil ≤ now) →
      Refused s.db task now
  reclaimed : ∀ task receipt after before, task.receipt = some receipt →
    s.claims = after ++ (task.notificationId, receipt) :: before → (∃ claim ∈ after, claim.1 = task.notificationId) →
      ∀ now, Refused s.db task now
  /-- A row moves on, or it is acknowledged. -/
  rows : ∀ s', Step c s s' → ∀ id row, s.db.jobs.get? id = some row →
    (∃ row', s'.db.jobs.get? id = some row' ∧ row'.channel = row.channel ∧ Follows row.payload row'.payload) ∨
    (s'.db.jobs.get? id = none ∧ s'.finished = id :: s.finished ∧
      ∃ worker ∈ s.workers, ∃ now, worker.task.notificationId = id ∧ Queue.ack worker.task now s.db = .ok s'.db)
  gone : ∀ s', Step c s s' → ∀ id ∈ s.accepted.map Task.notificationId,
    s.db.jobs.get? id = none → s'.db.jobs.get? id = none
  counts : ∀ s', Step c s s' → ∀ channel, s'.db.count channel ≤ s.db.count channel ∨
    ∃ q task now, Queue.enqueue q task now s.db = .ok s'.db ∧ channel = task.channel ∧ s'.db.count channel ≤ q.maxDepth
  /-- Once an endpoint is recorded as completed it stays so, and nobody sends to it but a worker that had
  claimed the notification before and is not the holder. -/
  completed : ∀ id row endpoint, s.db.jobs.get? id = some row → endpoint ∈ row.payload.completedEndpoints →
    ∀ s', Relation.ReflTransGen (Step c) s s' →
      (∀ row', s'.db.jobs.get? id = some row' → endpoint ∈ row'.payload.completedEndpoints) ∧
      ∃ sends, s'.sends = sends ++ s.sends ∧ ∀ send ∈ sends, send.notificationId = id → send.endpoint = some endpoint →
        ∃ receipt, send.receipt = some receipt ∧ (id, receipt) ∈ s.claims ∧ row.receipt ≠ some receipt

theorem queue_durable (h : (service c).Reachable s) : Durable c s := by
  have hsound := reachable_sound h
  have hne : ∀ {id receipt : String}, (id, receipt) ∈ s.claims → receipt ≠ "" := by
    intro id receipt hmem hempty
    obtain ⟨n, -, hn⟩ := hsound.claims _ hmem
    exact c.uuid_ne n (hn.symm.trans hempty)
  refine ⟨hsound.once, hsound.conserved, fun a ha b hb key hkey hkey' => hsound.unique_event ha hb hkey hkey',
    fun id row hrow => (hsound.rows id row hrow).2.2, ?_, ?_, fun s' hstep id row hrow => hstep.rowMoves hsound hrow,
    fun s' hstep id hid hnone => hstep.gone hsound hid hnone, fun s' hstep => hstep.count hsound, ?_⟩
  · exact fun task receipt hreceipt hmem now hexpired => refused hreceipt (hne hmem) hexpired
  · intro task receipt after before hreceipt hclaims hlater now
    have hempty : receipt ≠ "" := hne (by rw [hclaims]; exact mem_append_right _ mem_cons_self)
    refine refused hreceipt hempty fun row hrow hcarries => ?_
    have hstale := hsound.fenced.stale hclaims hlater hempty
    rw [Db.token, hrow, Option.bind_some, hcarries] at hstale
    exact absurd rfl hstale
  · intro id row endpoint hrow hrecorded s' hrun
    obtain ⟨-, hpast⟩ := Past.run hsound hrow hrecorded hrun
    exact ⟨hpast.recorded, hpast.sends⟩

theorem pager_injective : Function.Injective fun n => String.ofList (List.replicate (n + 1) 'a') := by
  intro n m h
  have hlength := congrArg List.length (String.ofList_injective h)
  rw [length_replicate, length_replicate] at hlength
  exact Nat.succ.inj hlength

theorem pager_ne (n : ℕ) : String.ofList (List.replicate (n + 1) 'a') ≠ "" := by
  intro h
  have hlist := congrArg String.toList h
  rw [String.toList_ofList, replicate_succ] at hlist
  cases hlist

def pagerSetup : Setup where
  uuid n := String.ofList (List.replicate (n + 1) 'a')
  uuid_injective := pager_injective
  uuid_ne := pager_ne
  maxRetries := 3

def pagerQueue : Queue := ⟨10, 30, by decide, by norm_num⟩

def pagerRequest : Request := ⟨"bob", .iosPush, "alarm", "fire", none, .empty, .empty, some "event"⟩

/-- The first of two devices was reached and the worker stopped. -/
theorem pager_reachable : ∃ s row, (service pagerSetup).Reachable s ∧ s.db.jobs.get? "a" = some row ∧
    row.payload.completedEndpoints = ["phone"] ∧ row.receipt = none := by
  have h0 : (service pagerSetup).Reachable init := .start rfl
  have h1 := h0.step (.enqueue pagerQueue pagerRequest 0 none ["phone", "watch"] 0 rfl)
  have h2 := h1.step (.claim pagerQueue .iosPush 0 rfl)
  have h3 := h2.step (.begin [] [] _ rfl)
  have h4 := h3.step (.deliver [] [] _ _ _ _ rfl .success)
  have h5 := h4.step (.fails [] [] _ rfl)
  have h6 := h5.step (.release pagerQueue [] [] _ rfl 0 1 1 1 (reschedule_held rfl (pagerSetup.uuid_ne 1)
    (Db.held_eq_some.mpr ⟨rfl, rfl, rfl, by norm_num [pagerQueue]⟩)))
  exact ⟨_, _, h6, rfl, rfl, rfl⟩

/-- From then on nobody sends to it. -/
theorem queue_durable_pager : ∃ s row, (service pagerSetup).Reachable s ∧ s.db.jobs.get? "a" = some row ∧
    row.payload.completedEndpoints = ["phone"] ∧ ∀ s', Relation.ReflTransGen (Step pagerSetup) s s' →
      ∃ sends, s'.sends = sends ++ s.sends ∧ ∀ send ∈ sends, send.notificationId = "a" → send.endpoint = some "phone" →
        ∃ receipt, send.receipt = some receipt ∧ ("a", receipt) ∈ s.claims ∧ row.receipt ≠ some receipt := by
  obtain ⟨s, row, hreachable, hrow, hcompleted, -⟩ := pager_reachable
  refine ⟨s, row, hreachable, hrow, hcompleted, fun s' hrun => ?_⟩
  exact ((queue_durable hreachable).completed "a" row "phone" hrow (by rw [hcompleted]; exact mem_singleton_self _) s' hrun).2

end SystemDesign.Notification
