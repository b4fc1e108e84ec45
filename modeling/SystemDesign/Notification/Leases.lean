import SystemDesign.Notification.System

/-!
Every step keeps the tables sound.

Only the worker whose receipt a row carries changes it, and `holder` says what is known of that worker.
-/

namespace SystemDesign.Notification

open List
open Dict hiding set

variable {c : Setup} {s s' : State} {db db' : Db} {id : String} {row row' : Row} {worker : Worker} {now : ℚ}
  {claims claims' : List (String × String)}

theorem Db.token_set (id' : String) : ({ db with jobs := db.jobs.set id row } : Db).token id' =
    if id' = id then row.receipt.getD "" else db.token id' := by
  unfold Db.token
  simp only [get?_set]
  split <;> rfl

theorem Db.token_erase (id' : String) : ({ db with jobs := db.jobs.erase id } : Db).token id' = db.token id' ∨
    ({ db with jobs := db.jobs.erase id } : Db).token id' = "" := by
  unfold Db.token
  simp only [get?_erase]
  split
  · exact .inr rfl
  · exact .inl rfl

/-- Rows keep their receipt and payload, or carry a receipt that no worker has. -/
def Renewed (claims : List (String × String)) (db db' : Db) : Prop :=
  ∀ id row', db'.jobs.get? id = some row' →
    (∃ row, db.jobs.get? id = some row ∧ row.receipt = row'.receipt ∧ row.payload = row'.payload) ∨
      ∀ receipt, row'.receipt = some receipt → ∀ id', (id', receipt) ∉ claims

theorem Renewed.set (h : (∃ row, db.jobs.get? id = some row ∧ row.receipt = row'.receipt ∧ row.payload = row'.payload) ∨
    ∀ receipt, row'.receipt = some receipt → ∀ id', (id', receipt) ∉ claims) (events : Dict (String × String × Channel) String) :
    Renewed claims db ⟨db.jobs.set id row', events⟩ := by
  intro id' found hfound
  obtain ⟨rfl, rfl⟩ | ⟨-, hfound⟩ := get?_set_cases hfound
  · exact h
  · exact .inl ⟨found, hfound, rfl, rfl⟩

theorem Renewed.erase : Renewed claims db { db with jobs := db.jobs.erase id } := by
  intro id' found hfound
  rw [get?_erase] at hfound
  split at hfound
  · cases hfound
  · exact .inl ⟨found, hfound, rfl, rfl⟩

theorem Fits.table (h : Fits db claims worker) (hrows : Renewed claims db db') (hclaims : claims ⊆ claims') :
    Fits db' claims' worker := by
  obtain ⟨receipt, hreceipt, hmem, hholds⟩ := h
  refine ⟨receipt, hreceipt, hclaims hmem, fun row' hrow' hcarries => ?_⟩
  obtain ⟨row, hrow, hsame, hpayload⟩ | hnew := hrows _ row' hrow'
  · rw [← hpayload]
    exact hholds row hrow (hsame.trans hcarries)
  · exact absurd hmem (hnew receipt hcarries _)

/-- A worker whose task is still the same in a later phase. -/
theorem Fits.advance (h : Fits db claims worker) {worker' : Worker}
    (hid : worker'.task.notificationId = worker.task.notificationId) (hreceipt : worker'.task.receipt = worker.task.receipt)
    (hfollows : Follows worker.task worker'.task) (hattempt : worker'.task.attempt = worker.task.attempt)
    (hspares : ∀ payload, Holds payload worker → worker'.phase.Spares payload) : Fits db claims worker' := by
  obtain ⟨receipt, hcarries, hmem, hholds⟩ := h
  refine ⟨receipt, hreceipt.trans hcarries, by rwa [hid], fun row hrow hsame => ?_⟩
  have hrow := hholds row (by rwa [← hid]) hsame
  exact ⟨hrow.follows.trans hfollows, hattempt.trans hrow.attempt, hspares _ hrow⟩

theorem Fits.cleanup (h : Fits db claims worker) : Fits db claims ⟨worker.task, .cleanup⟩ :=
  h.advance rfl rfl (.refl _) rfl fun _ _ => trivial

theorem Sound.holder (h : Sound c s) (hworker : worker ∈ s.workers) (hheld : s.db.held worker.task now = some row) :
    s.db.jobs.get? worker.task.notificationId = some row ∧ Holds row.payload worker := by
  obtain ⟨hrow, hsome, hsame, -⟩ := Db.held_eq_some.mp hheld
  obtain ⟨receipt, hreceipt, -, hholds⟩ := h.workers worker hworker
  exact ⟨hrow, hholds row hrow (hsame.trans hreceipt)⟩

theorem Sound.receipt (h : Sound c s) (hworker : worker ∈ s.workers) :
    ∃ receipt, worker.task.receipt = some receipt ∧ receipt ≠ "" := by
  obtain ⟨receipt, hreceipt, hmem, -⟩ := h.workers worker hworker
  obtain ⟨n, -, hn⟩ := h.claims _ hmem
  exact ⟨receipt, hreceipt, fun hempty => c.uuid_ne n (hn.symm.trans hempty)⟩

/-! ### Changes of the workers -/

variable {workers : List Worker}

theorem Sound.setWorkers (h : Sound c s) {sends : List Send} (hworkers : ∀ worker ∈ workers, Fits s.db s.claims worker)
    (hsends : ∀ send ∈ sends, ∃ receipt, send.receipt = some receipt ∧ (send.notificationId, receipt) ∈ s.claims) :
    Sound c { s with workers := workers, sends := sends } where
  rows := h.rows
  conserved := h.conserved
  accepted := h.accepted
  once := h.once
  events := h.events
  accepted_events := h.accepted_events
  fenced := h.fenced
  claims := h.claims
  workers := hworkers
  sends := hsends

variable {after before : List Worker} {w : Worker} {P : Worker → Prop}

theorem forall_replaced {w' : Worker} (h : ∀ worker ∈ workers, P worker) (hwork : workers = before ++ w :: after)
    (hnew : P w') : ∀ worker ∈ before ++ w' :: after, P worker := by
  intro worker hworker
  rw [mem_append, mem_cons] at hworker
  obtain hbefore | rfl | hafter := hworker
  · exact h worker (by rw [hwork]; exact mem_append_left _ hbefore)
  · exact hnew
  · exact h worker (by rw [hwork]; exact mem_append_right _ (mem_cons_of_mem _ hafter))

theorem forall_removed (h : ∀ worker ∈ workers, P worker) (hwork : workers = before ++ w :: after) :
    ∀ worker ∈ before ++ after, P worker := by
  intro worker hworker
  refine h worker ?_
  rw [hwork]
  rw [mem_append] at hworker
  rw [mem_append, mem_cons]
  exact hworker.imp_right .inr

theorem mem_workers (hwork : workers = before ++ w :: after) : w ∈ workers := by
  rw [hwork]
  exact mem_append_right _ mem_cons_self

/-- After a transaction the worker is through, or it never saw the answer. -/
theorem forall_answered (answered : Bool) (h : ∀ worker ∈ workers, P worker) (hwork : workers = before ++ w :: after)
    (hcleanup : P w → P ⟨w.task, .cleanup⟩) :
    ∀ worker ∈ before ++ (if answered then after else ⟨w.task, .cleanup⟩ :: after), P worker := by
  cases answered with
  | true => exact forall_removed h hwork
  | false => exact forall_replaced h hwork (hcleanup (h w (mem_workers hwork)))

/-! ### Changes of the tables -/

/-- A row is written again, by its holder or by a claim. -/
theorem Sound.setRow (h : Sound c s) (hrow : s.db.jobs.get? id = some row) (hid : row'.payload.notificationId = id)
    (hchannel : row'.payload.channel = row'.channel) (hattempt : row'.payload.attempt ≤ c.maxRetries)
    (hrenewed : Renewed s.claims s.db { s.db with jobs := s.db.jobs.set id row' })
    (htoken : row'.receipt = row.receipt ∨ row'.receipt = none) :
    Sound c { s with db := { s.db with jobs := s.db.jobs.set id row' } } where
  rows id' found hfound := by
    obtain ⟨rfl, rfl⟩ | ⟨-, hfound⟩ := get?_set_cases hfound
    · exact ⟨hid, hchannel, hattempt⟩
    · exact h.rows id' found hfound
  conserved := by
    simp only [set_keys_of_some hrow]
    exact h.conserved
  accepted := h.accepted
  once := h.once
  events := h.events
  accepted_events := h.accepted_events
  fenced := by
    refine h.fenced.keep fun id' => ?_
    rw [Db.token_set]
    by_cases hsame : id' = id
    · subst hsame
      rw [if_pos rfl]
      obtain hreceipt | hreceipt := htoken
      · rw [hreceipt, Db.token, hrow]
        exact .inl rfl
      · rw [hreceipt]
        exact .inr rfl
    · rw [if_neg hsame]
      exact .inl rfl
  claims := h.claims
  workers worker hworker := (h.workers worker hworker).table hrenewed (Subset.refl _)
  sends := h.sends

theorem Sound.ack (h : Sound c s) (hrow : s.db.jobs.get? id = some row) :
    Sound c { s with db := { s.db with jobs := s.db.jobs.erase id }, finished := id :: s.finished } where
  rows id' found hfound := by
    rw [get?_erase] at hfound
    split at hfound
    · cases hfound
    · exact h.rows id' found hfound
  conserved := by
    refine List.Perm.trans ?_ h.conserved
    refine perm_middle.trans ?_
    exact (((entries_perm hrow).map Prod.fst).symm.append_right s.finished)
  accepted := h.accepted
  once := h.once
  events := h.events
  accepted_events := h.accepted_events
  fenced := h.fenced.keep Db.token_erase
  claims := h.claims
  workers worker hworker := (h.workers worker hworker).table .erase (Subset.refl _)
  sends := h.sends

theorem uuid_new {drawn : ℕ} {x : String} (h : ∃ n < drawn, x = c.uuid n) : x ≠ c.uuid drawn := by
  obtain ⟨n, hn, rfl⟩ := h
  exact fun hsame => absurd (c.uuid_injective hsame) hn.ne

theorem Sound.enqueue (h : Sound c s) {q : Queue} {request : Request} {createdAt : ℚ} {scheduledAt : Option ℚ}
    {endpoints : List String}
    (henqueue : q.enqueue (request.task (c.uuid s.drawn) createdAt scheduledAt endpoints) now s.db = .ok db) :
    Sound c { s with
      db := db, drawn := s.drawn + 1
      accepted := request.task (c.uuid s.drawn) createdAt scheduledAt endpoints :: s.accepted } := by
  obtain ⟨hevent, -, hnone, hjobs, hevents⟩ := enqueue_cases henqueue
  set task := request.task (c.uuid s.drawn) createdAt scheduledAt endpoints with htask
  have hid : task.notificationId = c.uuid s.drawn := rfl
  obtain ⟨jobs, events⟩ := db
  obtain rfl : jobs = _ := hjobs
  have hnew : ∀ old ∈ s.accepted, old.notificationId ≠ c.uuid s.drawn := fun old hold => uuid_new (h.accepted old hold)
  refine ⟨?_, ?_, ?_, ?_, ?_, ?_, ?_, ?_, ?_, h.sends⟩
  · intro id found hfound
    obtain ⟨rfl, rfl⟩ | ⟨-, hfound⟩ := get?_set_cases hfound
    · exact ⟨rfl, rfl, Nat.zero_le _⟩
    · exact h.rows id found hfound
  · refine List.Perm.trans (Perm.append_right _ ((set_entries_perm _ _ _).map Prod.fst)) ?_
    rw [erase_entries_of_none hnone]
    exact h.conserved.cons task.notificationId
  · intro old hold
    obtain rfl | hold := mem_cons.mp hold
    · exact ⟨s.drawn, Nat.lt_succ_self _, hid⟩
    · obtain ⟨n, hn, heq⟩ := h.accepted old hold
      exact ⟨n, Nat.lt_succ_of_lt hn, heq⟩
  · refine nodup_cons.mpr ⟨fun hmem => ?_, h.once⟩
    obtain ⟨old, hold, heq⟩ := mem_map.mp hmem
    exact hnew old hold heq
  · intro key found
    rw [hevents]
    by_cases hsame : task.event = some key
    · rw [if_pos hsame]
      constructor
      · intro hfound
        exact ⟨task, mem_cons_self, hsame, Option.some.inj hfound⟩
      · rintro ⟨old, hold, hkey, rfl⟩
        obtain rfl | hold := mem_cons.mp hold
        · rfl
        · rw [hsame, Option.bind_some, (h.events key old.notificationId).mpr ⟨old, hold, hkey, rfl⟩] at hevent
          cases hevent
    · rw [if_neg hsame, h.events]
      constructor
      · rintro ⟨old, hold, hkey, hfound⟩
        exact ⟨old, mem_cons_of_mem _ hold, hkey, hfound⟩
      · rintro ⟨old, hold, hkey, hfound⟩
        obtain rfl | hold := mem_cons.mp hold
        · exact absurd hkey hsame
        · exact ⟨old, hold, hkey, hfound⟩
  · rw [filterMap_cons]
    cases hkey : task.event with
    | none => exact h.accepted_events
    | some key =>
      refine nodup_cons.mpr ⟨fun hmem => ?_, h.accepted_events⟩
      obtain ⟨old, hold, hsame⟩ := mem_filterMap.mp hmem
      rw [hkey, Option.bind_some, (h.events key old.notificationId).mpr ⟨old, hold, hsame, rfl⟩] at hevent
      cases hevent
  · refine h.fenced.keep fun id => ?_
    unfold Db.token
    simp only [get?_set]
    split
    · exact .inr rfl
    · exact .inl rfl
  · intro claim hclaim
    obtain ⟨n, hn, heq⟩ := h.claims claim hclaim
    exact ⟨n, Nat.lt_succ_of_lt hn, heq⟩
  · intro worker hworker
    exact (h.workers worker hworker).table (.set (.inr fun _ hreceipt => by cases hreceipt) events) (Subset.refl _)

theorem Sound.claim (h : Sound c s) {q : Queue} {channel : Channel} {job : Option Task}
    (hclaim : q.claim channel now (c.uuid s.drawn) s.db = (job, db)) :
    Sound c { s with
      db := db, drawn := s.drawn + 1
      workers := s.workers ++ (job.map fun task => ⟨task, .starting⟩).toList
      claims := (job.map fun task => (task.notificationId, c.uuid s.drawn)).toList ++ s.claims } := by
  have hdrawn : ∀ {x : String}, (∃ n < s.drawn, x = c.uuid n) → ∃ n < s.drawn + 1, x = c.uuid n := by
    rintro x ⟨n, hn, heq⟩
    exact ⟨n, Nat.lt_succ_of_lt hn, heq⟩
  obtain ⟨rfl, rfl⟩ | ⟨row, rfl, hrow, -, -, rfl⟩ := claim_cases (fun id row hrow => (h.rows id row hrow).1) hclaim
  · refine ⟨h.rows, h.conserved, fun task htask => hdrawn (h.accepted task htask), h.once, h.events, h.accepted_events, h.fenced,
      fun claim hmem => hdrawn (h.claims claim hmem), fun worker hworker => h.workers worker ?_, h.sends⟩
    simpa using hworker
  have hfresh : ∀ id', (id', c.uuid s.drawn) ∉ s.claims := fun id' hmem => uuid_new (h.claims _ hmem) rfl
  obtain ⟨-, hchannel, hattempt⟩ := h.rows _ row hrow
  refine ⟨?_, ?_, fun task htask => hdrawn (h.accepted task htask), h.once, h.events, h.accepted_events, ?_, ?_, ?_, ?_⟩
  · intro id found hfound
    obtain ⟨rfl, rfl⟩ | ⟨-, hfound⟩ := get?_set_cases hfound
    · exact ⟨rfl, hchannel, hattempt⟩
    · exact h.rows id found hfound
  · simp only [set_keys_of_some hrow]
    exact h.conserved
  · refine h.fenced.claim (fun hmem => ?_) fun id' => ?_
    · obtain ⟨claim, hclaim, heq⟩ := mem_map.mp hmem
      exact uuid_new (h.claims claim hclaim) heq
    · rw [Db.token_set]
      rfl
  · intro claim hmem
    obtain rfl | hmem := mem_cons.mp hmem
    · exact ⟨s.drawn, Nat.lt_succ_self _, rfl⟩
    · exact hdrawn (h.claims claim hmem)
  · intro worker hworker
    obtain hworker | hworker := mem_append.mp hworker
    · refine (h.workers worker hworker).table (.set (.inr fun receipt hreceipt => ?_) _) (subset_cons_self _ _)
      cases hreceipt
      exact hfresh
    · obtain rfl := mem_singleton.mp hworker
      refine ⟨c.uuid s.drawn, rfl, mem_cons_self, fun found hfound _ => ?_⟩
      simp only [get?_set_self, Option.some.injEq] at hfound
      subst hfound
      exact ⟨⟨rfl, le_rfl, Subset.refl _, Subset.refl _⟩, rfl, trivial⟩
  · intro send hsend
    obtain ⟨receipt, hreceipt, hmem⟩ := h.sends send hsend
    exact ⟨receipt, hreceipt, mem_cons_of_mem _ hmem⟩

theorem Sound.reschedule (h : Sound c s) (hworker : worker ∈ s.workers) {task : Task} {q : Queue} {delay now₀ now' : ℚ}
    (hreschedule : q.reschedule task delay now₀ now now' s.db = .ok db)
    (hid : task.notificationId = worker.task.notificationId) (hreceipt : task.receipt = worker.task.receipt)
    (hchannel : task.channel = worker.task.channel)
    (hattempt : task.attempt ≤ worker.task.attempt ∨ task.attempt ≤ c.maxRetries) : Sound c { s with db := db } := by
  obtain ⟨receipt, hcarries, hne⟩ := h.receipt hworker
  obtain ⟨row, hheld, rfl⟩ := reschedule_cases (hreceipt.trans hcarries) hne hreschedule
  have hheld : s.db.held worker.task now' = some row := by
    rw [← hheld]
    simp only [Db.held, hid, hreceipt]
  obtain ⟨hrow, hholds⟩ := h.holder hworker hheld
  obtain ⟨-, hrowchannel, hlimit⟩ := h.rows _ row hrow
  rw [← hid] at hrow
  refine h.setRow hrow rfl ?_ ?_ (.set (.inr fun _ hreceipt => by cases hreceipt) _) (.inr rfl)
  · exact hchannel.trans (hholds.follows.channel.trans hrowchannel)
  · obtain hless | hmax := hattempt
    · exact hless.trans (hholds.attempt.trans_le hlimit)
    · exact hmax

theorem Sound.step (h : Sound c s) (hstep : Step c s s') : Sound c s' := by
  cases hstep with
  | enqueue q request createdAt scheduledAt endpoints now henqueue => exact h.enqueue henqueue
  | claim q channel now hclaim => exact h.claim hclaim
  | renew q worker hwork now hrenew =>
    obtain ⟨-, -, rfl⟩ | ⟨row, -, hheld, rfl⟩ := renew_cases _ hrenew
    · exact h
    · obtain ⟨hrow, -⟩ := h.holder hwork hheld
      obtain ⟨hid, hchannel, hattempt⟩ := h.rows _ row hrow
      exact h.setRow hrow hid hchannel hattempt (.set (.inl ⟨row, hrow, by rfl, by rfl⟩) _) (.inl rfl)
  | begin before after task hwork =>
    have hworker := h.workers ⟨task, .starting⟩ (mem_workers hwork)
    refine h.setWorkers (forall_replaced h.workers hwork (hworker.advance rfl rfl (.refl _) rfl fun payload hholds => ?_)) h.sends
    intro endpoint hendpoint
    obtain ⟨hcompleted, hrejected⟩ := Task.pending_spares hendpoint
    exact ⟨fun hmem => hcompleted (hholds.follows.completed hmem), fun hmem => hrejected (hholds.follows.rejected hmem)⟩
  | deliver before after task endpoint pending failures hwork outcome =>
    have hworker := h.workers _ (mem_workers hwork)
    obtain ⟨hfollows, hattempt, hid, hreceipt⟩ := Follows.tried task endpoint outcome
    refine h.setWorkers (forall_replaced h.workers hwork (hworker.advance hid hreceipt hfollows hattempt fun payload hholds => ?_)) ?_
    · exact fun endpoint hmem => hholds.spares endpoint (mem_cons_of_mem _ hmem)
    · intro send hsend
      obtain rfl | hsend := mem_cons.mp hsend
      · obtain ⟨receipt, hreceipt, hmem, -⟩ := hworker
        exact ⟨receipt, hreceipt, hmem⟩
      · exact h.sends send hsend
  | interrupted before after task endpoint pending failures hwork =>
    have hworker := h.workers _ (mem_workers hwork)
    refine h.setWorkers (forall_replaced h.workers hwork hworker.cleanup) ?_
    intro send hsend
    obtain rfl | hsend := mem_cons.mp hsend
    · obtain ⟨receipt, hreceipt, hmem, -⟩ := hworker
      exact ⟨receipt, hreceipt, hmem⟩
    · exact h.sends send hsend
  | optedOut before after worker hwork hphase now answered hack =>
    obtain ⟨⟨row, hheld⟩, rfl⟩ := ack_cases hack
    have hnext := h.ack (Db.held_eq_some.mp hheld).1
    exact hnext.setWorkers (forall_answered answered hnext.workers hwork Fits.cleanup) hnext.sends
  | ack before after task failures hwork now₀ now answered hsettle hack =>
    obtain ⟨⟨row, hheld⟩, rfl⟩ := ack_cases hack
    have hnext := h.ack (Db.held_eq_some.mp hheld).1
    exact hnext.setWorkers (forall_answered answered hnext.workers hwork Fits.cleanup) hnext.sends
  | retry q before after task retryTask failures hwork delay now₀ now now' answered hsettle hreschedule =>
    obtain ⟨hmore, rfl⟩ := settlement_reschedule hsettle
    have hnext := h.reschedule (mem_workers hwork) hreschedule rfl rfl rfl (.inr hmore)
    exact hnext.setWorkers (forall_answered answered hnext.workers hwork Fits.cleanup) hnext.sends
  | fails before after worker hwork =>
    have hworker := h.workers worker (mem_workers hwork)
    exact h.setWorkers (forall_replaced h.workers hwork hworker.cleanup) h.sends
  | release q before after task hwork delay now₀ now now' hreschedule =>
    have hnext := h.reschedule (mem_workers hwork) hreschedule rfl rfl rfl (.inl le_rfl)
    exact hnext.setWorkers (forall_removed hnext.workers hwork) hnext.sends
  | stops before after worker hwork => exact h.setWorkers (forall_removed h.workers hwork) h.sends

theorem Sound.init : Sound c init where
  rows id row hrow := by cases hrow
  conserved := .refl _
  accepted _ hmem := by cases hmem
  once := nodup_nil
  events key id := by
    constructor
    · intro hfound
      cases hfound
    · rintro ⟨task, hmem, -⟩
      cases hmem
  accepted_events := nodup_nil
  fenced := .empty fun _ => rfl
  claims _ hmem := by cases hmem
  workers _ hmem := by cases hmem
  sends _ hmem := by cases hmem

theorem reachable_sound (h : (service c).Reachable s) : Sound c s :=
  h.invariant (fun _ hstart => hstart ▸ .init) fun _ _ _ hsound hstep => hsound.step hstep

end SystemDesign.Notification
