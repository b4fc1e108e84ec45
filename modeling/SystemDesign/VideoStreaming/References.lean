import SystemDesign.VideoStreaming.Publication

/-!
The objects that the tables refer to.

A transaction refers to what was referred to before it, or to what it has looked up in the object store.
-/

namespace SystemDesign.VideoStreaming

open Dict hiding keys

/-- An output names an object. -/
def Output.Names (output : Option Output) (key : String) : Prop :=
  ∃ assets : Assets, output = some (.assets assets) ∧ key ∈ assets.values

namespace Db

variable {c : Setup} {db db' db'' : Db}

/-- A video that gives up its parts. -/
def Gone (db : Db) (id : String) : Prop := db.stateOf id = some .removed ∨ db.stateOf id = some .expired

/-- What is needed: parts, sources, the outputs and completions of videos at work, and what is played. -/
inductive Refers (db : Db) (key : String) : Prop
  | part (id : String) (idx : ℕ) (part : Part) (hpart : db.parts.get? (id, idx) = some part) (hkept : ¬ db.Gone id)
      (hkey : part.key = key)
  | source (id : String) (value : Video) (hget : db.videos.get? id = some value)
      (hstate : value.state = .processing ∨ value.state = .ready) (hkey : value.source = some key)
  | output (job : Job) (hjob : job ∈ db.jobs) (hdone : job.state = .done) (hkind : job.kind ≠ .inspect)
      (hstate : db.stateOf job.video = some .processing) (hkey : Output.Names job.output key)
  | completion (id : String) (completion : Completion) (hget : db.completions.get? id = some completion)
      (hhandled : completion.handled = false) (hstate : db.stateOf id = some .processing) (hkey : key ∈ completion.assets.values)
  | asset (id : String) (value : Video) (hget : db.videos.get? id = some value) (hready : value.state = .ready)
      (hkey : key ∈ value.assets.values)

/-- A finished upload has a source. -/
def Sourced (db : Db) : Prop := ∀ id value, db.videos.get? id = some value → value.state = .processing ∨ value.state = .ready →
  ∃ key, value.source = some key

/-- Nothing is referred to that was not before. -/
structure Fewer (db db' : Db) : Prop where
  parts : ∀ at' part, db'.parts.get? at' = some part → db.parts.get? at' = some part
  gone : ∀ id, db.Gone id → db'.Gone id
  videos : ∀ id value', db'.videos.get? id = some value' → value'.state = .processing ∨ value'.state = .ready →
    ∃ value, db.videos.get? id = some value ∧ value.state = value'.state ∧ value.source = value'.source ∧
      value.assets = value'.assets
  jobs : ∀ job' ∈ db'.jobs, job'.state = .done → ∃ job ∈ db.jobs, job.state = .done ∧ job.video = job'.video ∧
    job.kind = job'.kind ∧ job.output = job'.output
  completions : ∀ id completion, db'.completions.get? id = some completion → db.completions.get? id = some completion

/-- Every object that is newly referred to was looked up. -/
structure Grows (isFile : String → Bool) (db db' : Db) : Prop where
  refers : ∀ key, db'.Refers key → db.Refers key ∨ isFile key = true
  sourced : db.Sourced → db'.Sourced

variable {id : String}

theorem stateOf_eq_some {state : VideoState} : db.stateOf id = some state ↔
    ∃ value, db.videos.get? id = some value ∧ value.state = state := Option.map_eq_some_iff

theorem Fewer.refl (db : Db) : db.Fewer db :=
  ⟨fun _ _ hpart => hpart, fun _ hgone => hgone, fun _ value hget _ => ⟨value, hget, rfl, rfl, rfl⟩,
    fun job hjob hdone => ⟨job, hjob, hdone, rfl, rfl, rfl⟩, fun _ _ hget => hget⟩

theorem Fewer.trans (h : db.Fewer db') (h' : db'.Fewer db'') : db.Fewer db'' where
  parts at' part hpart := h.parts at' part (h'.parts at' part hpart)
  gone id hgone := h'.gone id (h.gone id hgone)
  videos id value'' hget hstate := by
    obtain ⟨value', hget', hstate', hsource', hassets'⟩ := h'.videos id value'' hget hstate
    obtain ⟨value, hget, hsame, hsource, hassets⟩ := h.videos id value' hget' (by rwa [hstate'])
    exact ⟨value, hget, hsame.trans hstate', hsource.trans hsource', hassets.trans hassets'⟩
  jobs job'' hjob'' hdone := by
    obtain ⟨job', hjob', hdone', hvideo', hkind', houtput'⟩ := h'.jobs job'' hjob'' hdone
    obtain ⟨job, hjob, hdone, hvideo, hkind, houtput⟩ := h.jobs job' hjob' hdone'
    exact ⟨job, hjob, hdone, hvideo.trans hvideo', hkind.trans hkind', houtput.trans houtput'⟩
  completions id completion hget := h.completions id completion (h'.completions id completion hget)

theorem Fewer.processing (h : db.Fewer db') (hstate : db'.stateOf id = some .processing) :
    db.stateOf id = some .processing := by
  obtain ⟨value', hget', hstate'⟩ := stateOf_eq_some.mp hstate
  obtain ⟨value, hget, hsame, -⟩ := h.videos id value' hget' (.inl hstate')
  exact stateOf_eq_some.mpr ⟨value, hget, hsame.trans hstate'⟩

theorem Fewer.refers (h : db.Fewer db') {key : String} (hkey : db'.Refers key) : db.Refers key := by
  cases hkey with
  | part id idx part hpart hkept hkey => exact .part id idx part (h.parts _ _ hpart) (fun hgone => hkept (h.gone id hgone)) hkey
  | source id value hget hstate hkey =>
    obtain ⟨old, hold, hsame, hsource, -⟩ := h.videos id value hget hstate
    exact .source id old hold (by rwa [hsame]) (hsource.trans hkey)
  | output job hjob hdone hkind hstate hkey =>
    obtain ⟨old, hold, hdone', hvideo, hkind', houtput⟩ := h.jobs job hjob hdone
    refine .output old hold hdone' (by rwa [hkind']) ?_ (by rwa [houtput])
    rw [hvideo]
    exact h.processing hstate
  | completion id completion hget hhandled hstate hkey =>
    exact .completion id completion (h.completions id completion hget) hhandled (h.processing hstate) hkey
  | asset id value hget hready hkey =>
    obtain ⟨old, hold, hsame, -, hassets⟩ := h.videos id value hget (.inr hready)
    exact .asset id old hold (hsame.trans hready) (by rwa [hassets])

theorem Fewer.grows (h : db.Fewer db') (isFile : String → Bool) : db.Grows isFile db' where
  refers _ hkey := .inl (h.refers hkey)
  sourced hsourced id value hget hstate := by
    obtain ⟨old, hold, hsame, hsource, -⟩ := h.videos id value hget hstate
    obtain ⟨key, hkey⟩ := hsourced id old hold (by rwa [hsame])
    exact ⟨key, hsource.symm.trans hkey⟩

/-! ### Rows that change -/

theorem Fewer.update {p : Job → Bool} {f : Job → Job} (hf : ∀ job ∈ db.jobs, p job = true → (f job).state = .done →
    job.state = .done ∧ job.video = (f job).video ∧ job.kind = (f job).kind ∧ job.output = (f job).output) :
    db.Fewer (db.updateJobs p f) where
  parts := (Fewer.refl db).parts
  gone := (Fewer.refl db).gone
  videos := (Fewer.refl db).videos
  jobs job' hjob' hdone := by
    obtain ⟨job, hjob, rfl⟩ := List.mem_map.mp hjob'
    by_cases htrue : p job = true
    · rw [if_pos htrue] at hdone ⊢
      exact ⟨job, hjob, hf job hjob htrue hdone⟩
    · rw [if_neg htrue] at hdone ⊢
      exact ⟨job, hjob, hdone, rfl, rfl, rfl⟩
  completions := (Fewer.refl db).completions

theorem Fewer.undone {p : Job → Bool} {f : Job → Job} (state : JobState) (hstate : state ≠ .done)
    (hf : ∀ job, (f job).state = state) : db.Fewer (db.updateJobs p f) :=
  .update fun job _ _ hdone => absurd ((hf job).symm.trans hdone) hstate

theorem Fewer.limitTo (id : String) (attempts : ℕ) : db.Fewer (db.limitTo id attempts) :=
  ⟨(Fewer.refl db).parts, (Fewer.refl db).gone, (Fewer.refl db).videos, (Fewer.refl db).jobs, (Fewer.refl db).completions⟩

/-- A video that is not at work and not played. -/
theorem Fewer.setVideo {value : Video} (hgone : db.Gone id → value.state = .removed ∨ value.state = .expired)
    (hidle : value.state ≠ .processing ∧ value.state ≠ .ready) :
    db.Fewer (db.setVideos (db.videos.set id value)) where
  parts := (Fewer.refl db).parts
  gone id' hgone' := by
    unfold Gone stateOf
    simp only [setVideos, get?_set]
    split
    · rename_i hsame
      rw [hsame] at hgone'
      simpa using hgone hgone'
    · exact hgone'
  videos id' value' hget hstate := by
    obtain ⟨rfl, rfl⟩ | ⟨-, hget⟩ := get?_set_cases hget
    · exact absurd hstate (not_or.mpr hidle)
    · exact ⟨value', hget, rfl, rfl, rfl⟩
  jobs := (Fewer.refl db).jobs
  completions := (Fewer.refl db).completions

theorem Gone.state {value : Video} (h : db.Gone id) (hget : db.videos.get? id = some value) :
    value.state = .removed ∨ value.state = .expired := by
  unfold Gone stateOf at h
  rw [hget] at h
  simpa using h

theorem cancel_fewer (id : String) : db.Fewer (db.cancel id) := by
  have hjobs : db.Fewer (db.updateJobs (fun job => job.video = id && (job.state = .queued || job.state = .running))
      fun job => { job with state := .cancelled }) := .undone .cancelled (by decide) fun _ => rfl
  unfold cancel
  split
  · rename_i value hget
    split
    · rename_i hprocessing
      refine hjobs.trans (.setVideo (fun hgone => ?_) ⟨nofun, nofun⟩)
      have hstate := Gone.state hgone hget
      rw [hprocessing] at hstate
      obtain hstate | hstate := hstate <;> cases hstate
    · exact hjobs
  · exact hjobs

/-! ### Leases -/

theorem recoverOne_fewer (now : ℚ) (row : Job) : db.Fewer (db.recoverOne now row) := by
  unfold recoverOne
  dsimp only
  have hlimit : db.Fewer (db.limitTo row.id 3) := .limitTo row.id 3
  split
  · have hfailed := hlimit.trans (.undone (p := isRunning row.id) (f := fun job =>
      { job with state := .failed, error := some "lease attempts exhausted" }) .failed (by decide) fun _ => rfl)
    split
    · exact hfailed.trans (cancel_fewer row.video)
    · exact hfailed
  · exact hlimit.trans (.undone .queued (by decide) fun _ => rfl)

theorem recover_fewer (now : ℚ) : db.Fewer (db.recover now) := by
  unfold recover
  generalize db.jobs.filter _ = rows
  induction rows generalizing db with
  | nil => exact .refl db
  | cons row rows ih => exact (recoverOne_fewer now row).trans ih

variable {later now : ℚ}

theorem claim_fewer {leaseSeconds : ℚ} {maxAttempts : ℕ} {kinds : Option (List Kind)} {held : Option Lease}
    (h : db.claim c now later leaseSeconds maxAttempts kinds = .ok (held, db')) : db.Fewer db' := by
  obtain ⟨-, -, h⟩ := of_bind h
  obtain ⟨-, -, h⟩ := of_bind h
  dsimp only at h
  split at h
  · cases h
    exact recover_fewer now
  · rename_i row hready
    cases h
    have htaken := ((recover_fewer now : db.Fewer (db.recover now)).trans (.limitTo row.id maxAttempts)).trans
      (.undone (p := fun job => job.id = row.id) (f := fun job => { job with
        state := .running
        lease := some (c.uuid (db.recover now).drawn)
        expires := c.plus later leaseSeconds
        attempts := job.attempts + 1 }) .running (by decide) fun _ => rfl)
    exact ⟨htaken.parts, htaken.gone, htaken.videos, htaken.jobs, htaken.completions⟩

variable {held : Lease}

theorem renew_fewer {leaseSeconds : ℚ} {renewed : Bool}
    (h : db.renew c now later leaseSeconds held = .ok (renewed, db')) : db.Fewer db' := by
  obtain ⟨-, -, h⟩ := of_bind h
  split at h
  · cases h
    exact .refl db
  · cases h
    exact .update fun job _ _ hdone => ⟨hdone, rfl, rfl, rfl⟩

theorem fail_fewer {error : String} {fatal : Bool} {maxAttempts : ℕ} {retryBase : ℚ} {recorded : Bool}
    (h : db.fail c now later held error fatal maxAttempts retryBase = .ok (recorded, db')) : db.Fewer db' := by
  obtain ⟨-, -, h⟩ := of_bind h
  obtain ⟨-, -, h⟩ := of_bind h
  split at h
  · cases h
    exact .refl db
  · rename_i job hcurrent
    cases h
    split
    · exact Fewer.trans (.undone .failed (by decide) fun _ => rfl) (cancel_fewer job.video)
    · exact .undone .queued (by decide) fun _ => rfl

/-! ### Videos -/

variable {owner : String}

theorem create_fewer (hdb : Sound c db) {title : String} {size partSize ttl : ℕ}
    (h : db.create c now owner title size partSize ttl = .ok (id, db')) : db.Fewer db' := by
  obtain ⟨-, -, h⟩ := of_bind h
  cases h
  have hnew : ¬ db.Gone (c.uuid db.drawn) := by
    intro hgone
    have hsome : ∃ value, db.videos.get? (c.uuid db.drawn) = some value := by
      obtain hgone | hgone := hgone
      · exact (stateOf_eq_some.mp hgone).imp fun _ hget => hget.1
      · exact (stateOf_eq_some.mp hgone).imp fun _ hget => hget.1
    obtain ⟨value, hget⟩ := hsome
    obtain ⟨n, hn, heq⟩ := hdb.drawnVideos _ value hget
    exact absurd (c.uuid_injective heq) (Nat.ne_of_gt hn)
  have hset : db.Fewer (db.setVideos (db.videos.set (c.uuid db.drawn) ⟨owner, title, size, partSize, .uploading, none, .empty, now⟩)) :=
    .setVideo (fun hgone => absurd hgone hnew) ⟨nofun, nofun⟩
  exact ⟨hset.parts, hset.gone, hset.videos, hset.jobs, hset.completions⟩

theorem uploadGrants_fewer (h : db.uploadGrants now owner id = .ok db') : db.Fewer db' := by
  obtain ⟨value, hvideo, h⟩ := of_bind h
  obtain ⟨-, -, h⟩ := of_bind h
  obtain ⟨_, hstate, h⟩ := of_bind h
  rw [require_eq_ok] at hstate
  cases h
  have hget := video_eq_ok.mp hvideo
  refine .setVideo (fun hgone => ?_) ?_
  · have hover := Gone.state hgone hget
    exact hover
  · simp [hstate]

theorem remove_fewer (h : db.remove owner id = .ok db') : db.Fewer db' := by
  obtain ⟨value, -, h⟩ := of_bind h
  obtain ⟨-, -, h⟩ := of_bind h
  cases h
  have hjobs : db.Fewer (db.updateJobs (fun job => job.video = id && (job.state = .queued || job.state = .running))
      fun job => { job with state := .cancelled }) := .undone .cancelled (by decide) fun _ => rfl
  exact hjobs.trans (.setVideo (fun _ => .inl rfl) ⟨nofun, nofun⟩)

theorem expireUploads_fewer (now uploadAge : ℚ) : db.Fewer (db.expireUploads c now uploadAge) where
  parts at' part hpart := by
    unfold expireUploads at hpart
    dsimp only at hpart
    generalize db.parts.keys = keys at hpart
    revert hpart
    generalize db.parts = parts
    intro hpart
    induction keys generalizing parts with
    | nil => exact hpart
    | cons key keys ih =>
      have hrest := ih _ hpart
      dsimp only at hrest
      split at hrest
      · split at hrest
        · rw [get?_erase] at hrest
          split at hrest
          · cases hrest
          · exact hrest
        · exact hrest
      · exact hrest
  gone id hgone := by
    have hkeep : ∀ state, state = .removed ∨ state = .expired → db.stateOf id = some state →
        (db.expireUploads c now uploadAge).stateOf id = some state := by
      intro state hover hstate
      obtain ⟨value, hget, rfl⟩ := stateOf_eq_some.mp hstate
      refine stateOf_eq_some.mpr ⟨expireUpload c now uploadAge value, ?_, ?_⟩
      · exact (get?_mapVal _ _ _).trans (by rw [hget]; rfl)
      · unfold expireUpload
        split
        · rename_i hcase
          rw [hcase.1] at hover
          obtain hover | hover := hover <;> cases hover
        · rfl
    exact hgone.imp (hkeep _ (.inl rfl)) (hkeep _ (.inr rfl))
  videos id value' hget hstate := by
    obtain ⟨value, hold, rfl⟩ := Option.map_eq_some_iff.mp ((get?_mapVal _ _ _).symm.trans hget)
    unfold expireUpload at hstate ⊢
    split
    · rename_i hcase
      rw [if_pos hcase] at hstate
      obtain hstate | hstate := hstate <;> cases hstate
    · exact ⟨value, hold, rfl, rfl, rfl⟩
  jobs := (Fewer.refl db).jobs
  completions := (Fewer.refl db).completions

/-! ### What is looked up -/

variable {isFile : String → Bool}

/-- Where the videos stay as they are, the other tables are looked at one by one. -/
theorem Grows.tables (hvideos : db'.videos = db.videos)
    (hparts : ∀ at' part, db'.parts.get? at' = some part → db.parts.get? at' = some part ∨ isFile part.key = true)
    (hjobs : ∀ job ∈ db'.jobs, job.state = .done → job.kind ≠ .inspect →
      job ∈ db.jobs ∨ ∀ key, Output.Names job.output key → isFile key = true)
    (hcompletions : ∀ id completion, db'.completions.get? id = some completion → completion.handled = false →
      db.completions.get? id = some completion ∨ ∀ key ∈ completion.assets.values, isFile key = true) :
    db.Grows isFile db' := by
  have hstates : ∀ id, db'.stateOf id = db.stateOf id := fun id => by rw [stateOf, hvideos, stateOf]
  refine ⟨fun key hrefers => ?_, fun hsourced id value hget => hsourced id value (hvideos ▸ hget)⟩
  cases hrefers with
  | part id idx part hpart hkept hkey =>
    obtain hpart | hfile := hparts _ part hpart
    · refine .inl (.part id idx part hpart (fun hgone => hkept ?_) hkey)
      unfold Gone
      rwa [hstates]
    · exact .inr (hkey ▸ hfile)
  | source id value hget hstate hkey => exact .inl (.source id value (hvideos ▸ hget) hstate hkey)
  | output job hjob hdone hkind hstate hkey =>
    obtain hold | hfiles := hjobs job hjob hdone hkind
    · exact .inl (.output job hold hdone hkind ((hstates _).symm.trans hstate) hkey)
    · exact .inr (hfiles key hkey)
  | completion id completion hget hhandled hstate hkey =>
    obtain hold | hfiles := hcompletions id completion hget hhandled
    · exact .inl (.completion id completion hold hhandled ((hstates _).symm.trans hstate) hkey)
    · exact .inr (hfiles key hkey)
  | asset id value hget hready hkey => exact .inl (.asset id value (hvideos ▸ hget) hready hkey)

theorem putPart_grows {key : String} {idx size : ℕ} {new : Bool}
    (h : db.putPart id idx key size (isFile key) = .ok (new, db')) : db.Grows isFile db' := by
  obtain ⟨value, -, h⟩ := of_bind h
  obtain ⟨-, -, h⟩ := of_bind h
  split at h
  · obtain ⟨-, -, h⟩ := of_bind h
    cases h
    exact (Fewer.refl db).grows isFile
  · obtain ⟨-, -, h⟩ := of_bind h
    obtain ⟨_, hfile, h⟩ := of_bind h
    rw [require_eq_ok] at hfile
    cases h
    refine .tables rfl (fun at' part hpart => ?_) (fun _ hjob _ _ => .inl hjob) fun _ _ hget _ => .inl hget
    obtain ⟨-, rfl⟩ | ⟨-, hpart⟩ := get?_set_cases hpart
    · exact .inr hfile
    · exact .inl hpart

theorem stateOf_set_of_ne {id' : String} (hne : id' ≠ id) (value : Video) :
    ((db.videos.set id value).get? id').map (·.state) = db.stateOf id' := by
  rw [get?_set_of_ne _ hne]
  rfl

theorem finishCommit_grows (hdb : Sound c db) {key : String} {pipeline : Option Plan} {priority : ℤ}
    (h : db.finishCommit c id pipeline priority key (isFile key) = .ok db') : db.Grows isFile db' := by
  obtain ⟨value, hvideo, h⟩ := of_bind h
  have hget := video_eq_ok.mp hvideo
  split at h
  · obtain ⟨-, -, h⟩ := of_bind h
    cases h
    exact (Fewer.refl db).grows isFile
  · obtain ⟨_, huploading, h⟩ := of_bind h
    obtain ⟨_, hfile, h⟩ := of_bind h
    rw [require_eq_ok] at huploading hfile
    cases h
    have hnone : ∀ job ∈ db.jobs, job.video ≠ id :=
      hdb.waiting id (.inr (.inl (stateOf_eq_some.mpr ⟨value, hget, huploading⟩)))
    refine ⟨fun key' hrefers => ?_, fun hsourced id' value' hget' hstate => ?_⟩
    · cases hrefers with
      | part id' idx part hpart hkept hkey =>
        refine .inl (.part id' idx part hpart (fun hgone => hkept ?_) hkey)
        have hne : id' ≠ id := by
          rintro rfl
          have hover := Gone.state hgone hget
          rw [huploading] at hover
          obtain hover | hover := hover <;> cases hover
        exact hgone.imp (stateOf_set_of_ne hne _).trans (stateOf_set_of_ne hne _).trans
      | source id' value' hget' hstate hkey =>
        obtain ⟨rfl, rfl⟩ | ⟨-, hget'⟩ := get?_set_cases hget'
        · cases hkey
          exact .inr hfile
        · exact .inl (.source id' value' hget' hstate hkey)
      | output job hjob hdone hkind hstate hkey =>
        obtain hjob | hjob := List.mem_append.mp hjob
        · exact .inl (.output job hjob hdone hkind ((stateOf_set_of_ne (hnone job hjob) _).symm.trans hstate) hkey)
        · obtain ⟨entry, -, rfl⟩ := List.mem_map.mp hjob
          cases hdone
      | completion id' completion hcompletion hhandled hstate hkey =>
        obtain ⟨job, hjob, rfl, -⟩ := hdb.completed id' completion hcompletion
        exact .inl (.completion _ completion hcompletion hhandled ((stateOf_set_of_ne (hnone job hjob) _).symm.trans hstate) hkey)
      | asset id' value' hget' hready hkey =>
        obtain ⟨rfl, rfl⟩ | ⟨-, hget'⟩ := get?_set_cases hget'
        · cases hready
        · exact .inl (.asset id' value' hget' hready hkey)
    · obtain ⟨rfl, rfl⟩ | ⟨-, hget'⟩ := get?_set_cases hget'
      · exact ⟨key, rfl⟩
      · exact hsourced id' value' hget' hstate

variable {output : Output}

/-- What `complete` takes has been looked up. -/
theorem checkOutput_isFile {job : Job} {u : Unit} (h : db.checkOutput job output isFile = .ok u)
    (hkind : job.kind ≠ .inspect) : ∃ assets, output = .assets assets ∧ ∀ key ∈ assets.values, isFile key = true := by
  unfold checkOutput at h
  rw [if_neg hkind] at h
  split at h
  · cases h
  · rename_i assets
    obtain ⟨-, -, h⟩ := of_bind h
    obtain ⟨-, -, h⟩ := of_bind h
    obtain ⟨_, hfiles, -⟩ := of_bind h
    rw [require_eq_ok, List.all_eq_true] at hfiles
    exact ⟨assets, rfl, fun key hkey => (Bool.and_eq_true _ _ ▸ hfiles key hkey).2⟩

theorem finished_grows (hdb : Sound c db) {job : Job} (hjob : job ∈ db.jobs)
    (hfiles : job.kind ≠ .inspect → ∃ assets, output = .assets assets ∧ ∀ key ∈ assets.values, isFile key = true) :
    db.Grows isFile (db.finished job output) := by
  refine .tables rfl (fun _ _ hpart => .inl hpart) (fun job' hjob' _ hkind => ?_) fun _ _ hget _ => .inl hget
  obtain ⟨other, hother, rfl⟩ := List.mem_map.mp hjob'
  by_cases hid : decide (other.id = job.id) = true
  · rw [if_pos hid] at hkind ⊢
    obtain rfl := hdb.eq_of_id hother hjob (of_decide_eq_true hid)
    obtain ⟨assets, rfl, hlooked⟩ := hfiles hkind
    refine .inr ?_
    rintro key ⟨assets', heq, hkey⟩
    cases heq
    exact hlooked key hkey
  · rw [if_neg hid]
    exact .inl hother

theorem addCompletion_grows {assets : Assets} (hfiles : ∀ key ∈ assets.values, isFile key = true) :
    db.Grows isFile (db.addCompletion id assets) := by
  refine .tables rfl (fun _ _ hpart => .inl hpart) (fun _ hjob _ _ => .inl hjob) fun id' completion hget _ => ?_
  unfold addCompletion at hget
  dsimp only at hget
  split at hget
  · exact .inl hget
  · obtain ⟨-, rfl⟩ | ⟨-, hget⟩ := get?_set_cases hget
    · exact .inr hfiles
    · exact .inl hget

theorem Grows.trans (h : db.Grows isFile db') (h' : db'.Grows isFile db'') : db.Grows isFile db'' where
  refers key hkey := (h'.refers key hkey).elim (h.refers key) .inr
  sourced hsourced := h'.sourced (h.sourced hsourced)

theorem complete_grows (hdb : Sound c db) {completed : Bool}
    (h : db.complete now later held output isFile = .ok (completed, db')) : db.Grows isFile db' := by
  unfold complete at h
  split at h
  · cases h
    exact (Fewer.refl db).grows isFile
  · rename_i first hfirst
    obtain ⟨_, hcheck, h⟩ := of_bind h
    split at h
    · cases h
      exact (Fewer.refl db).grows isFile
    · rename_i job hcurrent
      obtain ⟨done, hfinish, heq⟩ := of_bind h
      cases heq
      obtain ⟨hfirstJob, hfirstId, -⟩ := current_eq_some hfirst
      obtain ⟨hjob, hid, -⟩ := current_eq_some hcurrent
      cases hdb.eq_of_id hfirstJob hjob (hfirstId.trans hid.symm)
      have hfinished := finished_grows hdb hjob (checkOutput_isFile hcheck)
      obtain ⟨-, rfl⟩ | ⟨assets, hkind, rfl, rfl⟩ := finishJob_cases hfinish
      · exact hfinished
      · obtain ⟨assets', heq, hfiles⟩ := checkOutput_isFile hcheck (by rw [hkind]; decide)
        cases heq
        exact hfinished.trans (addCompletion_grows hfiles)

/-- Handling refers to nothing new; its files have been looked up outside. -/
theorem handleCompletion_grows {row : String × Assets} {seen : String → Bool} (h : db.handleCompletion row seen = .ok db') :
    db.Grows isFile db' := by
  unfold handleCompletion at h
  split at h
  · cases h
    exact (Fewer.refl db).grows isFile
  · rename_i completion hcompletion
    split at h
    · cases h
      exact (Fewer.refl db).grows isFile
    · rename_i hpending
      rw [not_or, not_not, Bool.not_eq_true] at hpending
      obtain ⟨value, hvideo, h⟩ := of_bind h
      have hget := video_eq_ok.mp hvideo
      have hset : db.Grows isFile (db.setCompletions (db.completions.set row.1 { completion with handled := true })) := by
        refine .tables rfl (fun _ _ hpart => .inl hpart) (fun _ hjob _ _ => .inl hjob) fun id completion' hget hhandled => ?_
        obtain ⟨-, rfl⟩ | ⟨-, hget⟩ := get?_set_cases hget
        · cases hhandled
        · exact .inl hget
      dsimp only at h
      split at h
      · rename_i hprocessing
        split at h
        · cases h
          have hstate := stateOf_eq_some.mpr ⟨value, hget, hprocessing⟩
          refine ⟨fun key hrefers => .inl ?_, fun hsourced id value' hget' hstate' => ?_⟩
          · cases hrefers with
            | part id idx part hpart hkept hkey =>
              refine .part id idx part hpart (fun hgone => hkept ?_) hkey
              have hne : id ≠ row.1 := by
                rintro rfl
                have hover := Gone.state hgone hget
                rw [hprocessing] at hover
                obtain hover | hover := hover <;> cases hover
              exact hgone.imp (stateOf_set_of_ne hne _).trans (stateOf_set_of_ne hne _).trans
            | source id value' hget' hstate' hkey =>
              obtain ⟨rfl, rfl⟩ | ⟨-, hget'⟩ := get?_set_cases hget'
              · exact .source row.1 value hget (.inl hprocessing) hkey
              · exact .source id value' hget' hstate' hkey
            | output job hjob hdone hkind hstate' hkey =>
              refine .output job hjob hdone hkind ?_ hkey
              by_cases hsame : job.video = row.1
              · rw [hsame]
                exact hstate
              · exact (stateOf_set_of_ne hsame _).symm.trans hstate'
            | completion id completion' hget' hhandled hstate' hkey =>
              obtain ⟨-, rfl⟩ | ⟨hne, hget'⟩ := get?_set_cases hget'
              · cases hhandled
              · exact .completion id completion' hget' hhandled ((stateOf_set_of_ne hne _).symm.trans hstate') hkey
            | asset id value' hget' hready hkey =>
              obtain ⟨rfl, rfl⟩ | ⟨-, hget'⟩ := get?_set_cases hget'
              · refine .completion row.1 completion hcompletion hpending.1 hstate ?_
                rw [Dict.values, hpending.2]
                exact hkey
              · exact .asset id value' hget' hready hkey
          · obtain ⟨rfl, rfl⟩ | ⟨-, hget'⟩ := get?_set_cases hget'
            · exact hsourced row.1 value hget (.inl hprocessing)
            · exact hsourced id value' hget' hstate'
        · cases h
          exact (Fewer.refl db).grows isFile
      · cases h
        exact hset

end Db

end SystemDesign.VideoStreaming
