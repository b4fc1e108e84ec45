import SystemDesign.VideoStreaming.Invariant

/-!
Leases, their recovery, failures and removal keep the tables sound.

`Quiet` is what such a transaction leaves alone: videos only move on, rows that are done stay,
and neither a limit nor a count of attempts changes.
-/

namespace SystemDesign.VideoStreaming

open List hiding not_le

/-- The states that a video can still reach, itself included. -/
def VideoState.reaches : VideoState → List VideoState
  | .uploading => [.uploading, .processing, .ready, .failed, .removed, .expired]
  | .processing => [.processing, .ready, .failed, .removed]
  | .ready => [.ready, .removed]
  | .failed => [.failed, .removed]
  | .expired => [.expired, .removed]
  | .removed => [.removed]

theorem VideoState.reaches_refl (state : VideoState) : state ∈ state.reaches := by
  cases state <;> decide

theorem VideoState.reaches_trans {state state' : VideoState} :
    state' ∈ state.reaches → state'.reaches ⊆ state.reaches := by
  cases state <;> cases state' <;> decide

theorem VideoState.reaches_antisymm {state state' : VideoState} :
    state' ∈ state.reaches → state ∈ state'.reaches → state = state' := by
  cases state <;> cases state' <;> decide

namespace Db

/-- A video goes on; the assets of one that is or was ready stay. -/
structure Follows (value value' : Video) : Prop where
  state : value'.state ∈ value.state.reaches
  assets : value.state = .ready ∨ value.state = .removed → value'.assets = value.assets

theorem Follows.refl (value : Video) : Follows value value := ⟨VideoState.reaches_refl _, fun _ => rfl⟩

/-- What every transaction does to the tables. -/
structure Moves (db db' : Db) : Prop where
  videos : ∀ id value, db.videos.get? id = some value → ∃ value', db'.videos.get? id = some value' ∧ Follows value value'
  jobs : ∀ job ∈ db.jobs, ∃ job' ∈ db'.jobs, job'.id = job.id ∧ (job.state = .done → job' = job)
  limits : ∀ id limit, db.jobLimits.get? id = some limit → db'.jobLimits.get? id = some limit

/-- A transaction that adds no row and claims none. -/
structure Quiet (db db' : Db) : Prop extends Moves db db' where
  attempts : ∀ job' ∈ db'.jobs, ∃ job ∈ db.jobs, job.id = job'.id ∧ job'.attempts = job.attempts
  sameLimits : db'.jobLimits = db.jobLimits

variable {c : Setup} {db db' db'' : Db}

theorem Moves.refl (db : Db) : db.Moves db :=
  ⟨fun _ value hget => ⟨value, hget, .refl value⟩, fun job hjob => ⟨job, hjob, rfl, fun _ => rfl⟩, fun _ _ hget => hget⟩

theorem Quiet.refl (db : Db) : db.Quiet db := ⟨.refl db, fun job hjob => ⟨job, hjob, rfl, rfl⟩, rfl⟩

theorem Follows.trans {value value' value'' : Video} (h : Follows value value') (h' : Follows value' value'') :
    Follows value value'' where
  state := VideoState.reaches_trans h.state h'.state
  assets hover := by
    have hstate := h.state
    have hover' : value'.state = .ready ∨ value'.state = .removed := by
      obtain hready | hremoved := hover
      · rw [hready] at hstate
        simpa [VideoState.reaches] using hstate
      · rw [hremoved] at hstate
        exact .inr (mem_singleton.mp hstate)
    exact (h'.assets hover').trans (h.assets hover)

theorem Moves.trans (h : db.Moves db') (h' : db'.Moves db'') : db.Moves db'' where
  videos id value hget := by
    obtain ⟨value', hget', hfollows⟩ := h.videos id value hget
    obtain ⟨value'', hget'', hfollows'⟩ := h'.videos id value' hget'
    exact ⟨value'', hget'', hfollows.trans hfollows'⟩
  jobs job hjob := by
    obtain ⟨job', hjob', hid, hsame⟩ := h.jobs job hjob
    obtain ⟨job'', hjob'', hid', hsame'⟩ := h'.jobs job' hjob'
    refine ⟨job'', hjob'', hid'.trans hid, fun hdone => ?_⟩
    cases hsame hdone
    exact hsame' hdone
  limits id limit hget := h'.limits id limit (h.limits id limit hget)

theorem Quiet.trans (h : db.Quiet db') (h' : db'.Quiet db'') : db.Quiet db'' where
  toMoves := h.toMoves.trans h'.toMoves
  attempts job'' hjob'' := by
    obtain ⟨job', hjob', hid', hsame'⟩ := h'.attempts job'' hjob''
    obtain ⟨job, hjob, hid, hsame⟩ := h.attempts job' hjob'
    exact ⟨job, hjob, hid.trans hid', hsame'.trans hsame⟩
  sameLimits := h'.sameLimits.trans h.sameLimits

theorem Quiet.map {g : Job → Job} (hg : db.Keeps g) (hattempts : ∀ job, (g job).attempts = job.attempts) :
    db.Quiet (db.mapJobs g) where
  videos := (Moves.refl db).videos
  jobs job hjob := ⟨g job, mem_map_of_mem hjob, hg.id job, hg.done job hjob⟩
  limits _ _ hget := hget
  attempts job' hjob' := by
    obtain ⟨job, hjob, rfl⟩ := mem_map.mp hjob'
    exact ⟨job, hjob, (hg.id job).symm, hattempts job⟩
  sameLimits := rfl

variable {value : Video}

variable {id : String}

theorem Quiet.setVideo {value' : Video} (hget : db.videos.get? id = some value) (hfollows : Follows value value') :
    db.Quiet (db.setVideos (db.videos.set id value')) where
  videos id' old hold := by
    change ∃ new, (db.videos.set id value').get? id' = some new ∧ Follows old new
    rw [Dict.get?_set]
    split
    · rename_i hsame
      rw [hsame] at hold
      cases hget.symm.trans hold
      exact ⟨value', rfl, hfollows⟩
    · exact ⟨old, hold, .refl old⟩
  jobs job hjob := ⟨job, hjob, rfl, fun _ => rfl⟩
  limits _ _ hget := hget
  attempts job hjob := ⟨job, hjob, rfl, rfl⟩
  sameLimits := rfl

/-! ### Rows that change -/

/-- A change that leaves what identifies a row. -/
structure Same (f : Job → Job) : Prop where
  id : ∀ job, (f job).id = job.id
  video : ∀ job, (f job).video = job.video
  task : ∀ job, (f job).task = job.task

variable {p : Job → Bool} {f : Job → Job}

theorem Keeps.update (hf : Same f) (hp : ∀ job ∈ db.jobs, p job = true → job.state ≠ .done) :
    db.Keeps fun job => if p job = true then f job else job where
  id job := by
    split
    · exact hf.id job
    · rfl
  video job := by
    split
    · exact hf.video job
    · rfl
  task job := by
    split
    · exact hf.task job
    · rfl
  done job hjob hdone := if_neg fun htrue => hp job hjob htrue hdone

theorem update_sound (h : Sound c db) (hf : Same f) (hp : ∀ job ∈ db.jobs, p job = true → job.state ≠ .done)
    (hfine : ∀ job ∈ db.jobs, p job = true → (db.updateJobs p f).Fine (f job)) : Sound c (db.updateJobs p f) := by
  refine h.map (.update hf hp) fun job hjob hchanged => ?_
  by_cases htrue : p job = true
  · rw [if_pos htrue]
    exact hfine job hjob htrue
  · rw [if_neg htrue] at hchanged
    exact absurd rfl hchanged

theorem update_quiet (hf : Same f) (hp : ∀ job ∈ db.jobs, p job = true → job.state ≠ .done)
    (hattempts : ∀ job, (f job).attempts = job.attempts) : db.Quiet (db.updateJobs p f) := by
  refine .map (.update hf hp) fun job => ?_
  split
  · exact hattempts job
  · rfl

variable {job : Job}

theorem Sound.again (h : Sound c db) (hf : Same f) (hp : ∀ job ∈ db.jobs, p job = true → job.state ≠ .done)
    (hjob : job ∈ db.jobs) (htrue : p job = true) (hrunning : job.state = .running)
    (hattempts : (f job).attempts = job.attempts) (hstate : (f job).state = .running ∨ (f job).state = .queued ∧
      ∀ limit, db.jobLimits.get? job.id = some limit → job.attempts < limit) : (db.updateJobs p f).Fine (f job) := by
  have hfine := h.fine job hjob
  have hnot : ∀ {P : Prop}, (f job).state = .done → P := by
    intro P hdone
    obtain hstate | ⟨hstate, -⟩ := hstate <;> rw [hstate] at hdone <;> cases hdone
  refine ⟨fun _ => ?_, fun _ => ?_, fun hnone => ?_, fun limit hlimit => ?_, fun hdone => hnot hdone, fun hdone => hnot hdone⟩
  · rw [hf.video]
    exact hfine.active (.inr hrunning)
  · have hdeps := depsDone_map (.update hf hp) (hfine.deps (.inl hrunning))
    rw [if_pos htrue] at hdeps
    exact hdeps
  · rw [hf.id] at hnone
    obtain ⟨-, hqueued | hcancelled⟩ := hfine.unlimited hnone
    · rw [hrunning] at hqueued
      cases hqueued
    · rw [hrunning] at hcancelled
      cases hcancelled
  · rw [hf.id] at hlimit
    rw [hattempts]
    refine ⟨(hfine.limited limit hlimit).1, fun hqueued => ?_⟩
    obtain hstate | ⟨-, hless⟩ := hstate
    · rw [hstate] at hqueued
      cases hqueued
    · exact hless limit hlimit

/-! ### Cancelled rows -/

def isActive (job : Job) : Bool := job.state = .queued || job.state = .running

theorem isActive_iff : isActive job = true ↔ job.state = .queued ∨ job.state = .running := by
  rw [isActive, Bool.or_eq_true, decide_eq_true_eq, decide_eq_true_eq]

/-- Active rows are over in one way or another. -/
theorem end_sound (h : Sound c db) (state : JobState) (hf : Same f)
    (hattempts : ∀ job, (f job).attempts = job.attempts) (hover : ∀ job, (f job).state = state)
    (hp : ∀ job ∈ db.jobs, p job = true → isActive job = true)
    (hstate : (state = .failed ∧ ∀ job ∈ db.jobs, p job = true → job.state = .running) ∨ state = .cancelled) :
    Sound c (db.updateJobs p f) ∧ db.Quiet (db.updateJobs p f) := by
  have hdone : ∀ job ∈ db.jobs, p job = true → job.state ≠ .done := by
    intro job hjob htrue hdone
    obtain hactive | hactive := isActive_iff.mp (hp job hjob htrue) <;> rw [hdone] at hactive <;> cases hactive
  refine ⟨update_sound h hf hdone fun job hjob htrue => ?_, update_quiet hf hdone hattempts⟩
  refine (h.fine job hjob).over (hstate.imp_left fun hfailed => ⟨hfailed.1, fun hnone => ?_⟩) (hf.id job)
    (hattempts job) (hover job) rfl
  have hrunning := hfailed.2 job hjob htrue
  obtain ⟨-, hcase | hcase⟩ := (h.fine job hjob).unlimited hnone <;> rw [hrunning] at hcase <;> cases hcase

/-- No row of the video is active. -/
def Still (db : Db) (id : String) : Prop := ∀ job ∈ db.jobs, job.video = id → isActive job = false

theorem Still.allowed (h : db.Still id) (hover : value.state = .failed ∨ value.state = .removed) :
    db.Allowed id value where
  active job hjob hvideo hactive := by
    have hstill := h job hjob hvideo
    rw [isActive_iff.mpr hactive] at hstill
    cases hstill
  waiting hstate := by
    obtain hover | hover := hover <;> rw [hover] at hstate <;> obtain hstate | hstate := hstate <;> cases hstate
  ready hstate := by
    obtain hover | hover := hover <;> rw [hover] at hstate <;> cases hstate

/-- `UPDATE jobs SET state='CANCELLED'` of the active rows of a video. -/
def cancelJobs (id : String) (db : Db) : Db :=
  db.updateJobs (fun job => job.video = id && isActive job) fun job => { job with state := .cancelled }

theorem cancelJobs_sound (h : Sound c db) (id : String) :
    Sound c (db.cancelJobs id) ∧ db.Quiet (db.cancelJobs id) ∧ (db.cancelJobs id).Still id := by
  obtain ⟨hsound, hquiet⟩ := end_sound h (p := fun job => job.video = id && isActive job)
    (f := fun job => { job with state := .cancelled }) .cancelled ⟨fun _ => rfl, fun _ => rfl, fun _ => rfl⟩ (fun _ => rfl) (fun _ => rfl)
    (fun job _ htrue => (Bool.and_eq_true _ _ ▸ htrue).2) (.inr rfl)
  refine ⟨hsound, hquiet, fun job' hjob' hvideo => ?_⟩
  obtain ⟨job, -, rfl⟩ := mem_map.mp hjob'
  dsimp only at hvideo ⊢
  split
  · rfl
  · rename_i hp
    rw [if_neg hp] at hvideo
    rw [decide_eq_true hvideo, Bool.true_and, Bool.not_eq_true] at hp
    exact hp

theorem removed_reached (state : VideoState) : .removed ∈ state.reaches := by
  cases state <;> decide

theorem video_eq_ok : db.video id = .ok value ↔ db.videos.get? id = some value := by
  unfold video
  split
  · rename_i hget
    rw [hget]
    exact ⟨fun heq => congrArg some (Except.ok.inj heq), fun heq => congrArg Except.ok (Option.some.inj heq)⟩
  · rename_i hget
    rw [hget]
    exact ⟨nofun, nofun⟩

theorem cancel_sound (h : Sound c db) (id : String) : Sound c (db.cancel id) ∧ db.Quiet (db.cancel id) := by
  obtain ⟨hsound, hquiet, hstill⟩ := cancelJobs_sound h id
  have heq : db.cancel id = (db.cancelJobs id).setVideos (db.cancel id).videos := by
    unfold cancel cancelJobs updateJobs Db.setVideos isActive
    rfl
  rw [heq]
  unfold cancel
  dsimp only
  split
  · rename_i value hget
    split
    · rename_i hprocessing
      have hfollows : Follows value { value with state := .failed } := by
        refine ⟨?_, fun _ => rfl⟩
        rw [hprocessing]
        change VideoState.failed ∈ VideoState.processing.reaches
        decide
      exact ⟨hsound.setVideo hget (hstill.allowed (.inl rfl)), hquiet.trans (.setVideo hget hfollows)⟩
    · exact ⟨hsound, hquiet⟩
  · exact ⟨hsound, hquiet⟩

theorem remove_sound (h : Sound c db) {owner : String} (hremove : db.remove owner id = .ok db') :
    Sound c db' ∧ db.Quiet db' := by
  obtain ⟨value, hvideo, hremove⟩ := of_bind hremove
  obtain ⟨-, -, hremove⟩ := of_bind hremove
  cases hremove
  obtain ⟨hsound, hquiet, hstill⟩ := cancelJobs_sound h id
  have hget := video_eq_ok.mp hvideo
  exact ⟨hsound.setVideo hget (hstill.allowed (.inr rfl)),
    hquiet.trans (.setVideo hget ⟨removed_reached _, fun _ => rfl⟩)⟩

/-! ### Leases -/

variable {held : Lease} {now : ℚ}

theorem current_eq_some (h : db.current now held = some job) :
    job ∈ db.jobs ∧ job.id = held.job ∧ job.state = .running ∧ job.lease = some held.lease ∧ now < job.expires := by
  unfold current at h
  split at h
  · cases h
  · rename_i found hfound
    rw [Option.ite_none_right_eq_some] at h
    obtain ⟨hcurrent, heq⟩ := h
    cases heq
    have hid := find?_some hfound
    exact ⟨mem_of_find?_eq_some hfound, of_decide_eq_true hid, hcurrent.1, hcurrent.2.1, not_le.mp hcurrent.2.2.1⟩

theorem Sound.named (h : Sound c db) (hjob : job ∈ db.jobs) {state : JobState} (hstate : job.state = state) :
    ∀ other ∈ db.jobs, decide (other.id = job.id) = true → other = job ∧ other.state = state := by
  intro other hother hid
  have heq := h.eq_of_id hother hjob (of_decide_eq_true hid)
  exact ⟨heq, heq ▸ hstate⟩

variable {later : ℚ}

theorem renew_sound (h : Sound c db) {leaseSeconds : ℚ} {renewed : Bool}
    (hrenew : db.renew c now later leaseSeconds held = .ok (renewed, db')) : Sound c db' ∧ db.Quiet db' := by
  obtain ⟨-, -, hrenew⟩ := of_bind hrenew
  split at hrenew
  · cases hrenew
    exact ⟨h, .refl db⟩
  · rename_i job hcurrent
    cases hrenew
    obtain ⟨hjob, -, hrunning, -⟩ := current_eq_some hcurrent
    have hnamed := h.named hjob hrunning
    have hsame : Same fun other : Job => { other with expires := max job.expires (c.plus later leaseSeconds) } :=
      ⟨fun _ => rfl, fun _ => rfl, fun _ => rfl⟩
    have hdone : ∀ other ∈ db.jobs, decide (other.id = job.id) = true → other.state ≠ .done := by
      intro other hother hid hdone
      rw [(hnamed other hother hid).2] at hdone
      cases hdone
    exact ⟨update_sound h hsame hdone fun other hother hid =>
      h.again hsame hdone hother hid (hnamed other hother hid).2 rfl (.inl (hnamed other hother hid).2),
      update_quiet hsame hdone fun _ => rfl⟩

variable {maxAttempts : ℕ}

theorem fail_sound (h : Sound c db) {error : String} {fatal : Bool} {retryBase : ℚ} {recorded : Bool}
    (hfail : db.fail c now later held error fatal maxAttempts retryBase = .ok (recorded, db')) :
    Sound c db' ∧ db.Quiet db' := by
  obtain ⟨-, -, hfail⟩ := of_bind hfail
  obtain ⟨-, -, hfail⟩ := of_bind hfail
  split at hfail
  · cases hfail
    exact ⟨h, .refl db⟩
  · rename_i job hcurrent
    obtain ⟨hjob, -, hrunning, -⟩ := current_eq_some hcurrent
    have hnamed := h.named hjob hrunning
    have hdone : ∀ other ∈ db.jobs, decide (other.id = job.id) = true → other.state ≠ .done := by
      intro other hother hid hdone
      rw [(hnamed other hother hid).2] at hdone
      cases hdone
    cases hfail
    split
    · obtain ⟨hsound, hquiet⟩ := end_sound h (p := fun other => other.id = job.id) (f := fun other => { other with
          state := .failed
          error := some (String.ofList (error.toList.take 300))
          due := c.plus later (min 86400 (c.backoff retryBase (min (job.attempts - 1) 30)))
          lease := none }) .failed ⟨fun _ => rfl, fun _ => rfl, fun _ => rfl⟩ (fun _ => rfl)
        (fun _ => rfl) (fun other hother hid => isActive_iff.mpr (.inr (hnamed other hother hid).2))
        (.inl ⟨rfl, fun other hother hid => (hnamed other hother hid).2⟩)
      obtain ⟨hsound', hquiet'⟩ := cancel_sound hsound job.video
      exact ⟨hsound', hquiet.trans hquiet'⟩
    · rename_i hfatal
      refine ⟨update_sound h ⟨fun _ => rfl, fun _ => rfl, fun _ => rfl⟩ hdone fun other hother hid => ?_,
        update_quiet ⟨fun _ => rfl, fun _ => rfl, fun _ => rfl⟩ hdone fun _ => rfl⟩
      refine h.again (f := fun other => { other with
          state := .queued
          error := some (String.ofList (error.toList.take 300))
          due := c.plus later (min 86400 (c.backoff retryBase (min (job.attempts - 1) 30)))
          lease := none }) ⟨fun _ => rfl, fun _ => rfl, fun _ => rfl⟩ hdone hother hid (hnamed other hother hid).2 rfl
        (.inr ⟨rfl, fun limit hlimit => ?_⟩)
      rw [(hnamed other hother hid).1] at hlimit ⊢
      rw [Bool.or_eq_true, not_or, decide_eq_true_eq, hlimit, Option.getD_some] at hfatal
      exact not_le.mp hfatal.2

/-! ### Recovery -/

/-- A row of an earlier reading, as the tables still have it. -/
def Tracked (db : Db) (row : Job) : Prop :=
  (∃ limit, db.jobLimits.get? row.id = some limit) ∧ ∃ job ∈ db.jobs, job.id = row.id ∧ job.attempts = row.attempts

variable {row : Job}

theorem Tracked.quiet (h : db.Tracked row) (hsound : Sound c db) (hquiet : db.Quiet db') : db'.Tracked row := by
  obtain ⟨⟨limit, hlimit⟩, job, hjob, hid, hattempts⟩ := h
  refine ⟨⟨limit, hquiet.limits row.id limit hlimit⟩, ?_⟩
  obtain ⟨job', hjob', hid', -⟩ := hquiet.jobs job hjob
  refine ⟨job', hjob', hid'.trans hid, ?_⟩
  obtain ⟨other, hother, hsame, heq⟩ := hquiet.attempts job' hjob'
  rw [heq, hsound.eq_of_id hother hjob (hsame.trans hid'), hattempts]

theorem isRunning_iff : isRunning id job = true ↔ job.id = id ∧ job.state = .running := by
  rw [isRunning, Bool.and_eq_true, decide_eq_true_eq, decide_eq_true_eq]

theorem recoverOne_sound (h : Sound c db) (now : ℚ) (hrow : db.Tracked row) :
    Sound c (db.recoverOne now row) ∧ db.Quiet (db.recoverOne now row) := by
  obtain ⟨⟨limit, hlimit⟩, tracked, htracked, htrackedId, hattempts⟩ := hrow
  have hsame : db.limitTo row.id 3 = db := by
    unfold limitTo
    rw [hlimit]
    rfl
  have hrunning : ∀ job ∈ db.jobs, isRunning row.id job = true → job.state = .running :=
    fun job _ htrue => (isRunning_iff.mp htrue).2
  unfold recoverOne
  dsimp only
  rw [hsame, hlimit, Option.getD_some]
  split
  · obtain ⟨hsound, hquiet⟩ := end_sound h (p := isRunning row.id) (f := fun job => { job with
        state := .failed
        error := some "lease attempts exhausted" }) .failed ⟨fun _ => rfl, fun _ => rfl, fun _ => rfl⟩ (fun _ => rfl) (fun _ => rfl)
      (fun job hjob htrue => isActive_iff.mpr (.inr (hrunning job hjob htrue))) (.inl ⟨rfl, hrunning⟩)
    split
    · obtain ⟨hsound', hquiet'⟩ := cancel_sound hsound row.video
      exact ⟨hsound', hquiet.trans hquiet'⟩
    · exact ⟨hsound, hquiet⟩
  · rename_i hless
    have hdone : ∀ job ∈ db.jobs, isRunning row.id job = true → job.state ≠ .done := by
      intro job hjob htrue hdone
      rw [hrunning job hjob htrue] at hdone
      cases hdone
    refine ⟨update_sound h ⟨fun _ => rfl, fun _ => rfl, fun _ => rfl⟩ hdone fun job hjob htrue => ?_,
      update_quiet ⟨fun _ => rfl, fun _ => rfl, fun _ => rfl⟩ hdone fun _ => rfl⟩
    refine h.again (f := fun job => { job with state := .queued, lease := none, due := now })
      ⟨fun _ => rfl, fun _ => rfl, fun _ => rfl⟩ hdone hjob htrue (hrunning job hjob htrue) rfl
      (.inr ⟨rfl, fun limit' hlimit' => ?_⟩)
    have hid := (isRunning_iff.mp htrue).1
    rw [hid, hlimit] at hlimit'
    cases hlimit'
    rw [h.eq_of_id hjob htracked (hid.trans htrackedId.symm), hattempts]
    exact not_le.mp hless

theorem recoverAll_sound (h : Sound c db) (now : ℚ) : ∀ {rows : List Job}, (∀ row ∈ rows, db.Tracked row) →
    Sound c (rows.foldl (recoverOne now) db) ∧ db.Quiet (rows.foldl (recoverOne now) db) := by
  intro rows hrows
  induction rows generalizing db with
  | nil => exact ⟨h, .refl db⟩
  | cons row rows ih =>
    rw [forall_mem_cons] at hrows
    obtain ⟨hsound, hquiet⟩ := recoverOne_sound h now hrows.1
    obtain ⟨hsound', hquiet'⟩ := ih hsound fun row' hrow' => (hrows.2 row' hrow').quiet h hquiet
    exact ⟨hsound', hquiet.trans hquiet'⟩

theorem recover_sound (h : Sound c db) (now : ℚ) : Sound c (db.recover now) ∧ db.Quiet (db.recover now) := by
  refine recoverAll_sound h now fun row hrow => ?_
  obtain ⟨hjob, hstate⟩ := mem_filter.mp hrow
  rw [Bool.and_eq_true, decide_eq_true_eq] at hstate
  refine ⟨?_, row, hjob, rfl, rfl⟩
  cases hlimit : db.jobLimits.get? row.id with
  | some limit => exact ⟨limit, rfl⟩
  | none =>
    obtain ⟨-, hcase | hcase⟩ := (h.fine row hjob).unlimited hlimit <;> rw [hstate.1] at hcase <;> cases hcase

/-! ### Claims -/

theorem limitTo_get (id : String) (maxAttempts : ℕ) (id' : String) : (db.limitTo id maxAttempts).jobLimits.get? id' =
    if id' = id ∧ db.jobLimits.get? id = none then some maxAttempts else db.jobLimits.get? id' := by
  unfold limitTo
  dsimp only
  cases hlimit : db.jobLimits.get? id with
  | some limit => rw [Option.isSome_some, if_pos rfl, if_neg fun hcase => nomatch hcase.2]
  | none =>
    rw [Option.isSome_none, if_neg Bool.false_ne_true, Dict.get?_set]
    by_cases hid : id' = id
    · rw [if_pos hid, if_pos ⟨hid, rfl⟩]
    · rw [if_neg hid, if_neg fun hcase => hid hcase.1]

theorem Sound.limitTo (h : Sound c db) (hrow : row ∈ db.jobs) (hmax : 1 ≤ maxAttempts) :
    Sound c (db.limitTo row.id maxAttempts) := by
  refine ⟨h.ids, h.names, h.drawnJobs, h.drawnVideos, fun id limit hget => ?_, h.planned, h.waiting,
    fun job hjob => ?_, h.completed, h.ready⟩
  · rw [limitTo_get] at hget
    split at hget
    · rename_i hcase
      rw [hcase.1]
      exact h.drawnJobs row hrow
    · exact h.drawnLimits id limit hget
  · obtain ⟨hactive, hdeps, hunlimited, hlimited, houtput, hpublished⟩ := h.fine job hjob
    refine ⟨hactive, hdeps, fun hnone => ?_, fun limit hget => ?_, houtput, fun hdone hkind => ?_⟩
    · rw [limitTo_get] at hnone
      split at hnone
      · cases hnone
      · exact hunlimited hnone
    · rw [limitTo_get] at hget
      split at hget
      · rename_i hcase
        cases hget
        rw [(hunlimited (hcase.1 ▸ hcase.2)).1]
        exact ⟨Nat.zero_le _, fun _ => hmax⟩
      · exact hlimited limit hget
    · obtain ⟨completion, hcompletion, hsame, hassets⟩ := hpublished hdone hkind
      exact ⟨completion, hcompletion, hsame, hassets.frame rfl⟩

/-- What a claim does to the attempts. -/
structure Took (db db' : Db) (id : String) (maxAttempts : ℕ) : Prop extends Moves db db' where
  known : ∃ job ∈ db.jobs, job.id = id
  attempts : ∀ job' ∈ db'.jobs, ∃ job ∈ db.jobs, job.id = job'.id ∧
    job'.attempts = job.attempts + if job'.id = id then 1 else 0
  recorded : ∀ id', db'.jobLimits.get? id' =
    if id' = id ∧ db.jobLimits.get? id = none then some maxAttempts else db.jobLimits.get? id'

theorem firstReady_eq_some {kinds : Option (List Kind)} (h : db.firstReady now kinds = some row) :
    row ∈ db.jobs ∧ row.state = .queued ∧ db.depsDone row = true := by
  have hmem := mem_of_find?_eq_some h
  rw [mem_mergeSort] at hmem
  obtain ⟨hjob, hwaiting⟩ := mem_filter.mp hmem
  have hready := find?_some h
  rw [Bool.and_eq_true] at hready
  rw [Bool.and_eq_true, Bool.and_eq_true, decide_eq_true_eq] at hwaiting
  exact ⟨hjob, hwaiting.1.1, hready.1⟩

theorem take_sound (h : Sound c db) (hrow : row ∈ db.jobs) (hqueued : row.state = .queued)
    (hdeps : db.depsDone row = true) (hmax : 1 ≤ maxAttempts) (lease : Option String) (expires : ℚ) :
    Sound c ((db.limitTo row.id maxAttempts).updateJobs (fun job => job.id = row.id) fun job =>
      { job with state := .running, lease := lease, expires := expires, attempts := job.attempts + 1 }) ∧
    db.Took ((db.limitTo row.id maxAttempts).updateJobs (fun job => job.id = row.id) fun job =>
      { job with state := .running, lease := lease, expires := expires, attempts := job.attempts + 1 }) row.id maxAttempts := by
  have hlimited := h.limitTo hrow hmax
  have hnamed : ∀ other ∈ db.jobs, decide (other.id = row.id) = true → other = row ∧ other.state = .queued :=
    h.named hrow hqueued
  have hdone : ∀ other ∈ (db.limitTo row.id maxAttempts).jobs, decide (other.id = row.id) = true → other.state ≠ .done := by
    intro other hother hid hdone
    rw [(hnamed other hother hid).2] at hdone
    cases hdone
  have hsame : Same fun job : Job =>
    { job with state := .running, lease := lease, expires := expires, attempts := job.attempts + 1 } :=
    ⟨fun _ => rfl, fun _ => rfl, fun _ => rfl⟩
  have hkeeps := Keeps.update hsame hdone
  refine ⟨update_sound hlimited hsame hdone fun job hjob hid => ?_, ⟨⟨(Moves.refl db).videos, fun job hjob => ?_,
    fun id limit hget => ?_⟩, ⟨row, hrow, rfl⟩, fun job' hjob' => ?_, limitTo_get _ _⟩⟩
  · obtain ⟨rfl, -⟩ := hnamed job hjob hid
    have hfine := hlimited.fine job hjob
    refine ⟨fun _ => hfine.active (.inl hqueued), fun _ => ?_, fun hnone => ?_, fun limit hget => ?_, nofun, nofun⟩
    · have hbefore : (db.limitTo job.id maxAttempts).depsDone job = true := hdeps
      have hmapped := depsDone_map hkeeps hbefore
      rw [if_pos hid] at hmapped
      exact hmapped
    · change (db.limitTo job.id maxAttempts).jobLimits.get? job.id = none at hnone
      rw [limitTo_get] at hnone
      split at hnone
      · cases hnone
      · rename_i hcase
        exact absurd ⟨rfl, hnone⟩ hcase
    · exact ⟨(hfine.limited limit hget).2 hqueued, nofun⟩
  · exact ⟨_, mem_map_of_mem hjob, hkeeps.id job, hkeeps.done job hjob⟩
  · change (db.limitTo row.id maxAttempts).jobLimits.get? id = some limit
    rw [limitTo_get, if_neg, hget]
    rintro ⟨rfl, hnone⟩
    cases hget.symm.trans hnone
  · obtain ⟨job, hjob, rfl⟩ := mem_map.mp hjob'
    refine ⟨job, hjob, (hkeeps.id job).symm, ?_⟩
    rw [hkeeps.id job]
    by_cases hid : job.id = row.id
    · rw [if_pos (decide_eq_true hid), if_pos hid]
    · rw [if_neg (by simpa using hid), if_neg hid]
      rfl

theorem Took.draw (h : db.Took db' id maxAttempts) (n : ℕ) : db.Took { db' with drawn := n } id maxAttempts :=
  ⟨⟨h.videos, h.jobs, h.limits⟩, h.known, h.attempts, h.recorded⟩

theorem Quiet.took (h : db.Quiet db') (h' : db'.Took db'' id maxAttempts) : db.Took db'' id maxAttempts where
  toMoves := h.toMoves.trans h'.toMoves
  known := by
    obtain ⟨job', hjob', hid⟩ := h'.known
    obtain ⟨job, hjob, hsame, -⟩ := h.attempts job' hjob'
    exact ⟨job, hjob, hsame.trans hid⟩
  attempts job'' hjob'' := by
    obtain ⟨job', hjob', hid', hsame'⟩ := h'.attempts job'' hjob''
    obtain ⟨job, hjob, hid, hsame⟩ := h.attempts job' hjob'
    exact ⟨job, hjob, hid.trans hid', hsame ▸ hsame'⟩
  recorded := by
    rw [← h.sameLimits]
    exact h'.recorded

theorem claim_sound (h : Sound c db) {leaseSeconds : ℚ} {kinds : Option (List Kind)} {held : Option Lease}
    (hclaim : db.claim c now later leaseSeconds maxAttempts kinds = .ok (held, db')) :
    Sound c db' ∧ ((held = none ∧ db.Quiet db') ∨ ∃ lease, held = some lease ∧ db.Took db' lease.job maxAttempts) := by
  obtain ⟨-, -, hclaim⟩ := of_bind hclaim
  obtain ⟨_, hmax, hclaim⟩ := of_bind hclaim
  have hvalid := require_eq_ok.mp hmax
  obtain ⟨hsound, hquiet⟩ := recover_sound h now
  dsimp only at hclaim
  split at hclaim
  · cases hclaim
    exact ⟨hsound, .inl ⟨rfl, hquiet⟩⟩
  · rename_i row hready
    cases hclaim
    obtain ⟨hrow, hqueued, hdeps⟩ := firstReady_eq_some hready
    obtain ⟨htaken, htook⟩ := take_sound hsound hrow hqueued hdeps hvalid.1 (some (c.uuid (db.recover now).drawn))
      (c.plus later leaseSeconds)
    exact ⟨htaken.draw 1, .inr ⟨_, rfl, hquiet.took (htook.draw _)⟩⟩

end Db

end SystemDesign.VideoStreaming
