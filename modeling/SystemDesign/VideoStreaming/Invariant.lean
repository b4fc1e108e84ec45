import SystemDesign.VideoStreaming.Jobs

/-!
What holds of the tables between transactions.

Most statements change rows of `jobs` and leave what identifies them. `Sound.map` says what is
to be shown of the changed rows; a row that is done is never changed, so what depends on it
stays.
-/

namespace SystemDesign.VideoStreaming

open List

/-- The asset of a name in an output. -/
def Output.get? (output : Option Output) (name : String) : Option String :=
  match output with
  | some (.assets value) => value.get? name
  | _ => none

namespace Db

def stateOf (db : Db) (id : String) : Option VideoState := (db.videos.get? id).map (·.state)

/-- A done dependency of a row. -/
structure Feeds (db : Db) (job other : Job) : Prop where
  mem : other ∈ db.jobs
  video : other.video = job.video
  state : other.state = .done
  name : other.name ∈ job.deps

variable {job : Job}

theorem depsDone_iff {db : Db} : db.depsDone job = true ↔
    ∀ dep ∈ job.deps, ∃ other, db.Feeds job other ∧ other.name = dep := by
  unfold depsDone
  rw [all_eq_true]
  constructor
  · intro h dep hdep
    obtain ⟨other, hmem, hother⟩ := any_eq_true.mp (h dep hdep)
    rw [Bool.and_eq_true, Bool.and_eq_true, decide_eq_true_eq, decide_eq_true_eq, decide_eq_true_eq] at hother
    exact ⟨other, ⟨hmem, hother.1.1, hother.2, hother.1.2 ▸ hdep⟩, hother.1.2⟩
  · intro h dep hdep
    obtain ⟨other, hfeeds, hname⟩ := h dep hdep
    refine any_eq_true.mpr ⟨other, hfeeds.mem, ?_⟩
    rw [Bool.and_eq_true, Bool.and_eq_true, decide_eq_true_eq, decide_eq_true_eq, decide_eq_true_eq]
    exact ⟨⟨hfeeds.video, hname⟩, hfeeds.state⟩

/-- The assets are what the dependencies put out, the key and the master playlist. -/
structure Published (db : Db) (job : Job) (assets : Assets) : Prop where
  key : assets.contains "key.bin" = true
  master : assets.contains "master.m3u8" = true
  from' : ∀ name, assets.contains name = true → name = "key.bin" ∨ name = "master.m3u8" ∨
    ∃ other, db.Feeds job other ∧ (Output.get? other.output name).isSome = true
  all : ∀ other, db.Feeds job other → ∀ name key, Output.get? other.output name = some key → assets.get? name = some key

/-- What holds of a row. -/
structure Fine (db : Db) (job : Job) : Prop where
  active : job.state = .queued ∨ job.state = .running → db.stateOf job.video = some .processing
  deps : job.state = .running ∨ job.state = .done → db.depsDone job = true
  unlimited : db.jobLimits.get? job.id = none → job.attempts = 0 ∧ (job.state = .queued ∨ job.state = .cancelled)
  limited : ∀ limit, db.jobLimits.get? job.id = some limit → job.attempts ≤ limit ∧
    (job.state = .queued → job.attempts < limit)
  output : job.state = .done → job.kind ≠ .inspect → ∃ assets, job.output = some (.assets assets) ∧
    validateAssets job assets.keys = true
  published : job.state = .done → job.kind = .publish → ∃ completion, db.completions.get? job.video = some completion ∧
    job.output = some (.assets completion.assets) ∧ db.Published job completion.assets

structure Sound (c : Setup) (db : Db) : Prop where
  ids : (db.jobs.map (·.id)).Nodup
  names : (db.jobs.map fun job => (job.video, job.name)).Nodup
  drawnJobs : ∀ job ∈ db.jobs, ∃ n < db.drawn, job.id = c.uuid n
  drawnVideos : ∀ id value, db.videos.get? id = some value → ∃ n < db.drawn, id = c.uuid n
  drawnLimits : ∀ id limit, db.jobLimits.get? id = some limit → ∃ n < db.drawn, id = c.uuid n
  planned : ∀ id, (∀ job ∈ db.jobs, job.video ≠ id) ∨
    ∃ plan : Plan, (db.jobs.filter fun job => job.video = id).map Job.task = plan.tasks
  waiting : ∀ id, db.stateOf id = none ∨ db.stateOf id = some .uploading ∨ db.stateOf id = some .expired →
    ∀ job ∈ db.jobs, job.video ≠ id
  fine : ∀ job ∈ db.jobs, db.Fine job
  completed : ∀ id completion, db.completions.get? id = some completion →
    ∃ job ∈ db.jobs, job.video = id ∧ job.kind = .publish ∧ job.state = .done
  ready : ∀ id value, db.videos.get? id = some value → value.state = .ready →
    ∃ completion, db.completions.get? id = some completion ∧ value.assets = completion.assets

variable {c : Setup} {db : Db}

theorem Sound.eq_of_id (h : Sound c db) {job' : Job} (hj : job ∈ db.jobs) (hj' : job' ∈ db.jobs)
    (hid : job.id = job'.id) : job = job' := inj_on_of_nodup_map h.ids hj hj' hid

theorem Sound.eq_of_name (h : Sound c db) {job' : Job} (hj : job ∈ db.jobs) (hj' : job' ∈ db.jobs)
    (hvideo : job.video = job'.video) (hname : job.name = job'.name) : job = job' :=
  inj_on_of_nodup_map h.names hj hj' (Prod.ext hvideo hname)

/-! ### Changes of rows -/

/-- A change of rows that keeps what identifies them and the rows that are done. -/
structure Keeps (db : Db) (g : Job → Job) : Prop where
  id : ∀ job, (g job).id = job.id
  video : ∀ job, (g job).video = job.video
  task : ∀ job, (g job).task = job.task
  done : ∀ job ∈ db.jobs, job.state = .done → g job = job

def mapJobs (g : Job → Job) (db : Db) : Db := { db with jobs := db.jobs.map g }

def setCompletions (completions : Dict String Completion) (db : Db) : Db := { db with completions := completions }

variable {g : Job → Job}

theorem Feeds.map (hg : db.Keeps g) {other : Job} (h : db.Feeds job other) : (db.mapJobs g).Feeds (g job) other where
  mem := mem_map.mpr ⟨other, h.mem, hg.done other h.mem h.state⟩
  video := h.video.trans (hg.video job).symm
  state := h.state
  name := by
    have hdeps : (g job).deps = job.deps := congrArg Task.dependencies (hg.task job)
    rw [hdeps]
    exact h.name

theorem depsDone_map (hg : db.Keeps g) (h : db.depsDone job = true) : (db.mapJobs g).depsDone (g job) = true := by
  rw [depsDone_iff] at h ⊢
  intro dep hdep
  have hdeps : (g job).deps = job.deps := congrArg Task.dependencies (hg.task job)
  obtain ⟨other, hfeeds, hname⟩ := h dep (hdeps ▸ hdep)
  exact ⟨other, hfeeds.map hg, hname⟩

/-- What feeds a row whose dependencies were done before fed it before. -/
theorem Sound.feeds_of_map (h : Sound c db) (hg : db.Keeps g) {other : Job} (hdeps : db.depsDone job = true)
    (hfeeds : (db.mapJobs g).Feeds (g job) other) : db.Feeds job other := by
  obtain ⟨other', hmem, rfl⟩ := mem_map.mp hfeeds.mem
  have hname : (g other').name = other'.name := congrArg Task.name (hg.task other')
  have hdeps' : (g job).deps = job.deps := congrArg Task.dependencies (hg.task job)
  have hvideo : other'.video = job.video := by
    rw [← hg.video other', ← hg.video job]
    exact hfeeds.video
  obtain ⟨before, hbefore, hsame⟩ := depsDone_iff.mp hdeps other'.name (hdeps' ▸ hname ▸ hfeeds.name)
  have heq : before = other' := h.eq_of_name hbefore.mem hmem (hbefore.video.trans hvideo.symm) hsame
  rw [← heq, hg.done before hbefore.mem hbefore.state]
  exact hbefore

theorem Published.map (h : Sound c db) {g : Job → Job} (hg : db.Keeps g) {job : Job} {assets : Assets}
    (hdeps : db.depsDone job = true) (hpublished : db.Published job assets) :
    (db.mapJobs g).Published (g job) assets where
  key := hpublished.key
  master := hpublished.master
  from' name hname := by
    obtain hkey | hmaster | ⟨other, hfeeds, hsome⟩ := hpublished.from' name hname
    · exact .inl hkey
    · exact .inr (.inl hmaster)
    · exact .inr (.inr ⟨other, hfeeds.map hg, hsome⟩)
  all other hfeeds := hpublished.all other (h.feeds_of_map hg hdeps hfeeds)

theorem Feeds.frame {other : Job} (h : db.Feeds job other) {db' : Db} (hjobs : db'.jobs = db.jobs) :
    db'.Feeds job other := ⟨hjobs ▸ h.mem, h.video, h.state, h.name⟩

theorem Published.frame {job : Job} {assets : Assets} (h : db.Published job assets) {db' : Db}
    (hjobs : db'.jobs = db.jobs) : db'.Published job assets where
  key := h.key
  master := h.master
  from' name hname := (h.from' name hname).imp_right fun hcase => hcase.imp_right
    fun ⟨other, hfeeds, hsome⟩ => ⟨other, hfeeds.frame hjobs, hsome⟩
  all other hfeeds := h.all other (hfeeds.frame hjobs.symm)

variable {completions : Dict String Completion}

/-- A row that is not changed is as fine as before. -/
theorem Sound.fine_map (h : Sound c db) (hg : db.Keeps g)
    (hkept : ∀ id completion, db.completions.get? id = some completion → completions.get? id = some completion)
    (hjob : job ∈ db.jobs) (hsame : g job = job) : ((db.mapJobs g).setCompletions completions).Fine job where
  active := (h.fine job hjob).active
  deps hstate := by
    have hdeps := depsDone_map hg ((h.fine job hjob).deps hstate)
    rw [hsame] at hdeps
    exact hdeps
  unlimited := (h.fine job hjob).unlimited
  limited := (h.fine job hjob).limited
  output := (h.fine job hjob).output
  published hdone hkind := by
    obtain ⟨completion, hget, houtput, hpublished⟩ := (h.fine job hjob).published hdone hkind
    have hmapped := hpublished.map h hg ((h.fine job hjob).deps (.inr hdone))
    rw [hsame] at hmapped
    exact ⟨completion, hkept _ _ hget, houtput, hmapped.frame rfl⟩

theorem Sound.mapWith (h : Sound c db) (hg : db.Keeps g)
    (hkept : ∀ id completion, db.completions.get? id = some completion → completions.get? id = some completion)
    (hnew : ∀ id completion, completions.get? id = some completion → db.completions.get? id = none →
      ∃ job ∈ db.jobs.map g, job.video = id ∧ job.kind = .publish ∧ job.state = .done)
    (hchanged : ∀ job ∈ db.jobs, g job ≠ job → ((db.mapJobs g).setCompletions completions).Fine (g job)) :
    Sound c ((db.mapJobs g).setCompletions completions) := by
  have hname : ∀ job, (g job).name = job.name := fun job => congrArg Task.name (hg.task job)
  have hkind : ∀ job, (g job).kind = job.kind := fun job => congrArg Task.kind (hg.task job)
  constructor
  · change ((db.jobs.map g).map (·.id)).Nodup
    have hsame : (db.jobs.map g).map (·.id) = db.jobs.map (·.id) := by
      rw [map_map]
      exact map_congr_left fun job _ => hg.id job
    rw [hsame]
    exact h.ids
  · change ((db.jobs.map g).map fun job => (job.video, job.name)).Nodup
    have hsame : (db.jobs.map g).map (fun job => (job.video, job.name)) = db.jobs.map fun job => (job.video, job.name) := by
      rw [map_map]
      exact map_congr_left fun job _ => Prod.ext (hg.video job) (hname job)
    rw [hsame]
    exact h.names
  · intro job hjob
    obtain ⟨job', hjob', rfl⟩ := mem_map.mp hjob
    rw [hg.id]
    exact h.drawnJobs job' hjob'
  · exact h.drawnVideos
  · exact h.drawnLimits
  · intro id
    obtain hnone | ⟨plan, hplan⟩ := h.planned id
    · left
      intro job hjob
      obtain ⟨job', hjob', rfl⟩ := mem_map.mp hjob
      rw [hg.video]
      exact hnone job' hjob'
    · refine .inr ⟨plan, ?_⟩
      rw [← hplan]
      change ((db.jobs.map g).filter fun job => job.video = id).map Job.task = _
      rw [filter_map, map_map]
      have hfilter : ((fun job : Job => decide (job.video = id)) ∘ g) = fun job => decide (job.video = id) := by
        funext job
        exact congrArg (fun video => decide (video = id)) (hg.video job)
      rw [hfilter]
      exact map_congr_left fun job _ => hg.task job
  · intro id hstate job hjob
    obtain ⟨job', hjob', rfl⟩ := mem_map.mp hjob
    rw [hg.video]
    exact h.waiting id hstate job' hjob'
  · intro job hjob
    obtain ⟨job', hjob', rfl⟩ := mem_map.mp hjob
    by_cases hsame : g job' = job'
    · rw [hsame]
      exact h.fine_map hg hkept hjob' hsame
    · exact hchanged job' hjob' hsame
  · intro id completion hget
    cases hold : db.completions.get? id with
    | none => exact hnew id completion hget hold
    | some old =>
      obtain ⟨job, hjob, hvideo, hpublish, hdone⟩ := h.completed id old hold
      exact ⟨job, mem_map.mpr ⟨job, hjob, hg.done job hjob hdone⟩, hvideo, hpublish, hdone⟩
  · intro id value hget hready
    obtain ⟨completion, hcompletion, hassets⟩ := h.ready id value hget hready
    exact ⟨completion, hkept id completion hcompletion, hassets⟩

theorem Sound.map (h : Sound c db) (hg : db.Keeps g)
    (hchanged : ∀ job ∈ db.jobs, g job ≠ job → (db.mapJobs g).Fine (g job)) : Sound c (db.mapJobs g) :=
  h.mapWith hg (fun _ _ hget => hget) (fun _ _ hget hnone => nomatch hget.symm.trans hnone) hchanged

/-- A row that neither waits nor runs and is not done. -/
theorem Fine.over {state : JobState} (h : db.Fine job)
    (hstate : state = .failed ∧ db.jobLimits.get? job.id ≠ none ∨ state = .cancelled) {job' : Job}
    (hid : job'.id = job.id) (hattempts : job'.attempts = job.attempts) (hjob' : job'.state = state) {db' : Db}
    (hlimits : db'.jobLimits = db.jobLimits) : db'.Fine job' where
  active hactive := by
    rw [hjob'] at hactive
    obtain ⟨rfl, -⟩ | rfl := hstate
    · obtain hactive | hactive := hactive <;> cases hactive
    · obtain hactive | hactive := hactive <;> cases hactive
  deps hactive := by
    rw [hjob'] at hactive
    obtain ⟨rfl, -⟩ | rfl := hstate
    · obtain hactive | hactive := hactive <;> cases hactive
    · obtain hactive | hactive := hactive <;> cases hactive
  unlimited hnone := by
    rw [hlimits, hid] at hnone
    rw [hjob', hattempts]
    obtain ⟨-, hlimit⟩ | rfl := hstate
    · exact absurd hnone hlimit
    · exact ⟨(h.unlimited hnone).1, .inr rfl⟩
  limited limit hlimit := by
    rw [hlimits, hid] at hlimit
    rw [hjob', hattempts]
    refine ⟨(h.limited limit hlimit).1, fun hqueued => ?_⟩
    obtain ⟨rfl, -⟩ | rfl := hstate <;> cases hqueued
  output hdone := by
    rw [hjob'] at hdone
    obtain ⟨rfl, -⟩ | rfl := hstate <;> cases hdone
  published hdone := by
    rw [hjob'] at hdone
    obtain ⟨rfl, -⟩ | rfl := hstate <;> cases hdone

/-! ### Changes of videos -/

/-- A state that a video can take on, given its rows. -/
structure Allowed (db : Db) (id : String) (value : Video) : Prop where
  active : ∀ job ∈ db.jobs, job.video = id → job.state = .queued ∨ job.state = .running → value.state = .processing
  waiting : value.state = .uploading ∨ value.state = .expired → ∀ job ∈ db.jobs, job.video ≠ id
  ready : value.state = .ready → ∃ completion, db.completions.get? id = some completion ∧
    value.assets = completion.assets

def setVideos (videos : Dict String Video) (db : Db) : Db := { db with videos := videos }

theorem Sound.allowed (h : Sound c db) {id : String} {value : Video} (hget : db.videos.get? id = some value) :
    db.Allowed id value where
  active job hjob hvideo hactive := by
    have hstate := (h.fine job hjob).active hactive
    rw [hvideo, stateOf, hget] at hstate
    exact Option.some.inj hstate
  waiting hstate job hjob := by
    refine h.waiting id ?_ job hjob
    rw [stateOf, hget]
    exact .inr (hstate.imp (congrArg some) (congrArg some))
  ready := h.ready id value hget

theorem Sound.setVideos (h : Sound c db) {videos : Dict String Video}
    (hkept : ∀ id, db.videos.get? id = none → videos.get? id = none)
    (hsome : ∀ id value, db.videos.get? id = some value → ∃ value', videos.get? id = some value' ∧ db.Allowed id value') :
    Sound c (db.setVideos videos) := by
  have hallowed : ∀ id value, videos.get? id = some value → db.Allowed id value := by
    intro id value hget
    cases hold : db.videos.get? id with
    | none =>
      rw [hkept id hold] at hget
      cases hget
    | some old =>
      obtain ⟨value', hget', hvalue⟩ := hsome id old hold
      cases hget.symm.trans hget'
      exact hvalue
  refine ⟨h.ids, h.names, h.drawnJobs, ?_, h.drawnLimits, h.planned, ?_, ?_, h.completed, ?_⟩
  · intro id value hget
    cases hold : db.videos.get? id with
    | none =>
      change videos.get? id = some value at hget
      rw [hkept id hold] at hget
      cases hget
    | some old => exact h.drawnVideos id old hold
  · intro id hstate job hjob
    unfold stateOf Db.setVideos at hstate
    dsimp only at hstate
    cases hget : videos.get? id with
    | none =>
      cases hold : db.videos.get? id with
      | none =>
        refine h.waiting id (.inl ?_) job hjob
        rw [stateOf, hold]
        rfl
      | some old =>
        obtain ⟨value', hget', -⟩ := hsome id old hold
        cases hget.symm.trans hget'
    | some value =>
      rw [hget] at hstate
      obtain hstate | hstate | hstate := hstate
      · cases hstate
      · exact (hallowed id value hget).waiting (.inl (Option.some.inj hstate)) job hjob
      · exact (hallowed id value hget).waiting (.inr (Option.some.inj hstate)) job hjob
  · intro job hjob
    obtain ⟨hactive, hdeps, hunlimited, hlimited, houtput, hpublished⟩ := h.fine job hjob
    refine ⟨fun hcase => ?_, hdeps, hunlimited, hlimited, houtput, fun hdone hkind => ?_⟩
    · have hstate := hactive hcase
      unfold stateOf at hstate ⊢
      obtain ⟨old, hold, -⟩ := Option.map_eq_some_iff.mp hstate
      obtain ⟨value, hget, hvalue⟩ := hsome job.video old hold
      change (videos.get? job.video).map (·.state) = some .processing
      rw [hget]
      exact congrArg some (hvalue.active job hjob rfl hcase)
    · obtain ⟨completion, hcompletion, hsame, hassets⟩ := hpublished hdone hkind
      exact ⟨completion, hcompletion, hsame, hassets.frame rfl⟩
  · intro id value hget
    exact (hallowed id value hget).ready

theorem Sound.setVideo (h : Sound c db) {id : String} {value value' : Video} (hget : db.videos.get? id = some value)
    (hallowed : db.Allowed id value') : Sound c (db.setVideos (db.videos.set id value')) := by
  refine h.setVideos (fun id' hnone => ?_) fun id' old hold => ?_
  · rw [Dict.get?_set]
    split
    · rename_i hsame
      rw [hsame, hget] at hnone
      cases hnone
    · exact hnone
  · rw [Dict.get?_set]
    split
    · rename_i hsame
      exact ⟨value', rfl, hsame ▸ hallowed⟩
    · exact ⟨old, hold, h.allowed hold⟩

/-! ### What was drawn -/

theorem Sound.draw (h : Sound c db) (n : ℕ) : Sound c { db with drawn := db.drawn + n } := by
  have hmore : ∀ {id : String}, (∃ k < db.drawn, id = c.uuid k) → ∃ k < db.drawn + n, id = c.uuid k :=
    fun ⟨k, hk, hid⟩ => ⟨k, by omega, hid⟩
  exact ⟨h.ids, h.names, fun job hjob => hmore (h.drawnJobs job hjob), fun id value hget => hmore (h.drawnVideos id value hget),
    fun id limit hget => hmore (h.drawnLimits id limit hget), h.planned, h.waiting,
    fun job hjob => ⟨(h.fine job hjob).active, (h.fine job hjob).deps, (h.fine job hjob).unlimited,
      (h.fine job hjob).limited, (h.fine job hjob).output, fun hdone hkind => by
        obtain ⟨completion, hget, houtput, hpublished⟩ := (h.fine job hjob).published hdone hkind
        exact ⟨completion, hget, houtput, hpublished.frame rfl⟩⟩,
    h.completed, h.ready⟩

end Db

end SystemDesign.VideoStreaming
