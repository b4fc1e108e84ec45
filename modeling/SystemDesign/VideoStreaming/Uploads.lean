import SystemDesign.VideoStreaming.Publication

/-!
Uploads, their finalization and their expiry keep the tables sound.
-/

namespace SystemDesign.VideoStreaming.Db

open Dict List

variable {c : Setup} {db db' : Db}

/-! ### Videos -/

theorem Sound.setParts (h : Sound c db) (parts : Dict (String × ℕ) Part) : Sound c { db with parts := parts } :=
  ⟨h.ids, h.names, h.drawnJobs, h.drawnVideos, h.drawnLimits, h.planned, h.waiting,
    fun job hjob => ⟨(h.fine job hjob).active, (h.fine job hjob).deps, (h.fine job hjob).unlimited,
      (h.fine job hjob).limited, (h.fine job hjob).output, fun hdone hkind => by
        obtain ⟨completion, hget, houtput, hpublished⟩ := (h.fine job hjob).published hdone hkind
        exact ⟨completion, hget, houtput, hpublished.frame rfl⟩⟩,
    h.completed, h.ready⟩

theorem Quiet.tables {videos : Dict String Video}
    (hvideos : ∀ id value, db.videos.get? id = some value → ∃ value', videos.get? id = some value' ∧ Follows value value')
    (parts : Dict (String × ℕ) Part) (drawn : ℕ) :
    db.Quiet { db with videos := videos, parts := parts, drawn := drawn } :=
  ⟨⟨hvideos, (Moves.refl db).jobs, (Moves.refl db).limits⟩, (Quiet.refl db).attempts, rfl⟩

theorem create_sound (h : Sound c db) {now : ℚ} {owner title id : String} {size partSize ttl : ℕ}
    (hcreate : db.create c now owner title size partSize ttl = .ok (id, db')) : Sound c db' ∧ db.Quiet db' := by
  obtain ⟨-, -, hcreate⟩ := of_bind hcreate
  cases hcreate
  have hnone : db.videos.get? (c.uuid db.drawn) = none := by
    cases hget : db.videos.get? (c.uuid db.drawn) with
    | none => rfl
    | some value =>
      obtain ⟨n, hn, heq⟩ := h.drawnVideos _ value hget
      exact absurd (c.uuid_injective heq) (Nat.ne_of_gt hn)
  have hnew : ∀ job ∈ db.jobs, job.video ≠ c.uuid db.drawn := h.waiting _ (.inl (by rw [stateOf, hnone]; rfl))
  obtain ⟨hids, hnames, hdrawnJobs, hdrawnVideos, hdrawnLimits, hplanned, hwaiting, hfine, hcompleted, hready⟩ := h.draw 1
  refine ⟨⟨hids, hnames, hdrawnJobs, fun id value hget => ?_, hdrawnLimits, hplanned, fun id hstate => ?_,
    fun job hjob => ?_, hcompleted, fun id value hget hvalue => ?_⟩, .tables (fun id value hget => ?_) db.parts _⟩
  · obtain ⟨rfl, -⟩ | ⟨-, hget⟩ := get?_set_cases hget
    · exact ⟨db.drawn, Nat.lt_succ_self _, rfl⟩
    · exact hdrawnVideos id value hget
  · by_cases hsame : id = c.uuid db.drawn
    · rw [hsame]
      exact hnew
    · unfold stateOf at hstate
      dsimp only at hstate
      rw [get?_set_of_ne _ hsame] at hstate
      exact h.waiting id hstate
  · obtain ⟨hactive, hdeps, hunlimited, hlimited, houtput, hpublished⟩ := h.fine job hjob
    refine ⟨fun hcase => ?_, hdeps, hunlimited, hlimited, houtput, fun hdone hkind => ?_⟩
    · unfold stateOf
      dsimp only
      rw [get?_set_of_ne _ (hnew job hjob)]
      exact hactive hcase
    · obtain ⟨completion, hget, hsame, hassets⟩ := hpublished hdone hkind
      exact ⟨completion, hget, hsame, hassets.frame rfl⟩
  · obtain ⟨-, rfl⟩ | ⟨-, hget⟩ := get?_set_cases hget
    · cases hvalue
    · exact hready id value hget hvalue
  · refine ⟨value, ?_, .refl value⟩
    rw [get?_set_of_ne]
    · exact hget
    · rintro rfl
      cases hget.symm.trans hnone

theorem uploadGrants_sound (h : Sound c db) {now : ℚ} {owner id : String}
    (hgrants : db.uploadGrants now owner id = .ok db') : Sound c db' ∧ db.Quiet db' := by
  obtain ⟨value, hvideo, hgrants⟩ := of_bind hgrants
  replace hgrants := of_check hgrants
  obtain ⟨_, hstate, hgrants⟩ := of_bind hgrants
  rw [require_eq_ok] at hstate
  cases hgrants
  have hget := video_eq_ok.mp hvideo
  obtain ⟨hactive, hwaiting, hready⟩ := h.allowed hget
  exact ⟨h.setVideo hget ⟨hactive, hwaiting, hready⟩, .setVideo hget ⟨VideoState.reaches_refl _, fun _ => rfl⟩⟩

theorem putPart_sound (h : Sound c db) {id key : String} {idx size : ℕ} {isFile new : Bool}
    (hput : db.putPart id idx key size isFile = .ok (new, db')) : Sound c db' ∧ db.Quiet db' := by
  obtain ⟨value, -, hput⟩ := of_bind hput
  replace hput := of_check hput
  split at hput
  · replace hput := of_check hput
    cases hput
    exact ⟨h, .refl db⟩
  · replace hput := of_check hput
    replace hput := of_check hput
    cases hput
    exact ⟨h.setParts _, .tables (Moves.refl db).videos _ _⟩

theorem Sound.expireUpload (h : Sound c db) (now uploadAge : ℚ) {id : String} {value : Video}
    (hget : db.videos.get? id = some value) : db.Allowed id (Db.expireUpload c now uploadAge value) ∧
      Follows value (Db.expireUpload c now uploadAge value) := by
  have hallowed := h.allowed hget
  unfold Db.expireUpload
  split
  · rename_i hexpired
    refine ⟨⟨fun job hjob hvideo => ?_, fun _ => hallowed.waiting (.inl hexpired.1), nofun⟩, ?_, fun _ => rfl⟩
    · exact absurd hvideo (hallowed.waiting (.inl hexpired.1) job hjob)
    · rw [hexpired.1]
      change VideoState.expired ∈ VideoState.uploading.reaches
      decide
  · exact ⟨hallowed, .refl value⟩

theorem expireUploads_sound (h : Sound c db) (now uploadAge : ℚ) :
    Sound c (db.expireUploads c now uploadAge) ∧ db.Quiet (db.expireUploads c now uploadAge) := by
  have hget : ∀ id, (db.videos.mapVal (expireUpload c now uploadAge)).get? id =
      (db.videos.get? id).map (expireUpload c now uploadAge) := get?_mapVal _ _
  have hsound : Sound c (db.setVideos (db.videos.mapVal (expireUpload c now uploadAge))) := by
    refine h.setVideos (fun id hnone => ?_) fun id value hvalue => ?_
    · rw [hget, hnone]
      rfl
    · exact ⟨_, by rw [hget, hvalue]; rfl, (h.expireUpload now uploadAge hvalue).1⟩
  refine ⟨hsound.setParts _, .tables (fun id value hvalue => ?_) _ _⟩
  exact ⟨_, by rw [hget, hvalue]; rfl, (h.expireUpload now uploadAge hvalue).2⟩

/-! ### The rows of a plan -/

theorem planJobs_task (id : String) (priority : ℤ) (tasks : List Task) (drawn : ℕ) :
    (planJobs c id priority tasks drawn).map Job.task = tasks := by
  unfold planJobs
  rw [map_map]
  exact zipIdx_map_fst drawn tasks

theorem planJobs_id (id : String) (priority : ℤ) (tasks : List Task) (drawn : ℕ) :
    (planJobs c id priority tasks drawn).map (·.id) = (List.range' drawn tasks.length).map c.uuid := by
  unfold planJobs
  rw [map_map, ← zipIdx_map_snd drawn tasks, map_map]
  rfl

/-- A row as it is inserted. -/
structure Fresh (c : Setup) (id : String) (drawn count : ℕ) (job : Job) : Prop where
  number : ∃ n, drawn ≤ n ∧ n < drawn + count ∧ job.id = c.uuid n
  video : job.video = id
  state : job.state = .queued
  attempts : job.attempts = 0

theorem planJobs_fresh {id : String} {priority : ℤ} {tasks : List Task} {drawn : ℕ} {job : Job}
    (h : job ∈ planJobs c id priority tasks drawn) : Fresh c id drawn tasks.length job := by
  obtain ⟨⟨task, n⟩, hentry, rfl⟩ := mem_map.mp h
  have hn := mem_map_of_mem (f := Prod.snd) hentry
  rw [zipIdx_map_snd, mem_range'_1] at hn
  exact ⟨⟨n, hn.1, hn.2, rfl⟩, rfl, rfl, rfl⟩

/-- What a finalization does to the attempts. -/
structure Added (db db' : Db) : Prop extends Moves db db' where
  attempts : ∀ job' ∈ db'.jobs, job' ∈ db.jobs ∨ job'.attempts = 0 ∧ ∀ job ∈ db.jobs, job.id ≠ job'.id
  sameLimits : db'.jobLimits = db.jobLimits

theorem Sound.fresh_id (h : Sound c db) {id : String} {count : ℕ} {job : Job} (hfresh : Fresh c id db.drawn count job) :
    ∀ other ∈ db.jobs, other.id ≠ job.id := by
  intro other hother heq
  obtain ⟨n, hn, -, hid⟩ := hfresh.number
  obtain ⟨k, hk, hother⟩ := h.drawnJobs other hother
  have hsame := c.uuid_injective (hother.symm.trans (heq.trans hid))
  omega

theorem enqueue_sound (h : Sound c db) {id : String} {value : Video} (hget : db.videos.get? id = some value)
    (huploading : value.state = .uploading) (plan : Plan) (priority : ℤ) (source : Option String) :
    Sound c ((db.enqueue c id plan priority).setVideos (db.videos.set id { value with state := .processing, source := source })) ∧
    db.Added ((db.enqueue c id plan priority).setVideos (db.videos.set id { value with state := .processing, source := source })) := by
  have hnone : ∀ job ∈ db.jobs, job.video ≠ id := (h.allowed hget).waiting (.inl huploading)
  have hfresh := @planJobs_fresh c id priority plan.tasks db.drawn
  have hstate : ∀ id', stateOf ((db.enqueue c id plan priority).setVideos
      (db.videos.set id { value with state := .processing, source := source })) id' =
        if id' = id then some .processing else db.stateOf id' := by
    intro id'
    unfold stateOf Db.setVideos
    dsimp only
    rw [get?_set]
    split
    · rfl
    · rfl
  have hfeeds : ∀ job other, ((db.enqueue c id plan priority).setVideos
      (db.videos.set id { value with state := .processing, source := source })).Feeds job other ↔ db.Feeds job other := by
    intro job other
    constructor
    · rintro ⟨hmem, hvideo, hdone, hname⟩
      obtain hmem | hmem := mem_append.mp hmem
      · exact ⟨hmem, hvideo, hdone, hname⟩
      · rw [(hfresh hmem).state] at hdone
        cases hdone
    · exact fun hold => ⟨mem_append.mpr (.inl hold.mem), hold.video, hold.state, hold.name⟩
  constructor
  · refine ⟨?_, ?_, fun job hjob => ?_, fun id' value' hget' => ?_, fun id' limit hlimit => ?_, fun id' => ?_,
      fun id' hcase job hjob => ?_, fun job hjob => ?_, fun id' completion hcompletion => ?_, fun id' value' hget' hready => ?_⟩
    · change ((db.jobs ++ planJobs c id priority plan.tasks db.drawn).map (·.id)).Nodup
      rw [map_append, nodup_append']
      refine ⟨h.ids, ?_, fun key hkey hkey' => ?_⟩
      · rw [planJobs_id]
        exact Nodup.map c.uuid_injective nodup_range'
      · obtain ⟨other, hother, rfl⟩ := mem_map.mp hkey
        obtain ⟨job, hjob, hid⟩ := mem_map.mp hkey'
        exact h.fresh_id (hfresh hjob) other hother hid.symm
    · change ((db.jobs ++ planJobs c id priority plan.tasks db.drawn).map fun job => (job.video, job.name)).Nodup
      rw [map_append, nodup_append']
      refine ⟨h.names, ?_, fun key hkey hkey' => ?_⟩
      · have hnames : ((planJobs c id priority plan.tasks db.drawn).map (·.name)).Nodup := by
          have hsame : (planJobs c id priority plan.tasks db.drawn).map (·.name) = plan.tasks.map (·.name) := by
            rw [← planJobs_task id priority plan.tasks db.drawn, map_map, planJobs_task]
            rfl
          rw [hsame]
          exact plan.tasks_distinct
        exact Nodup.of_map Prod.snd (by rw [map_map]; exact hnames)
      · obtain ⟨other, hother, rfl⟩ := mem_map.mp hkey
        obtain ⟨job, hjob, hsame⟩ := mem_map.mp hkey'
        exact hnone other hother ((congrArg Prod.fst hsame).symm.trans (hfresh hjob).video)
    · obtain hjob | hjob := mem_append.mp hjob
      · obtain ⟨n, hn, hid⟩ := h.drawnJobs job hjob
        exact ⟨n, Nat.lt_add_right _ hn, hid⟩
      · obtain ⟨n, -, hn, hid⟩ := (hfresh hjob).number
        exact ⟨n, hn, hid⟩
    · obtain ⟨n, hn, hid⟩ : ∃ n < db.drawn, id' = c.uuid n := by
        obtain ⟨rfl, -⟩ | ⟨-, hget'⟩ := get?_set_cases hget'
        · exact h.drawnVideos _ value hget
        · exact h.drawnVideos id' value' hget'
      exact ⟨n, Nat.lt_add_right _ hn, hid⟩
    · obtain ⟨n, hn, hid⟩ := h.drawnLimits id' limit hlimit
      exact ⟨n, Nat.lt_add_right _ hn, hid⟩
    · change (∀ job ∈ db.jobs ++ planJobs c id priority plan.tasks db.drawn, job.video ≠ id') ∨ ∃ plan' : Plan,
        ((db.jobs ++ planJobs c id priority plan.tasks db.drawn).filter fun job => job.video = id').map Job.task = plan'.tasks
      rw [filter_append]
      by_cases hsame : id' = id
      · refine .inr ⟨plan, ?_⟩
        rw [hsame, filter_eq_nil_iff.mpr fun job hjob => by simpa using hnone job hjob,
          filter_eq_self.mpr fun job hjob => decide_eq_true (hfresh hjob).video, nil_append]
        exact planJobs_task id priority plan.tasks db.drawn
      · have hnew : (planJobs c id priority plan.tasks db.drawn).filter (fun job => job.video = id') = [] :=
          filter_eq_nil_iff.mpr fun job hjob => by
            rw [(hfresh hjob).video]
            simpa using Ne.symm hsame
        rw [hnew, append_nil]
        refine (h.planned id').imp_left fun hold job hjob => ?_
        obtain hjob | hjob := mem_append.mp hjob
        · exact hold job hjob
        · rw [(hfresh hjob).video]
          exact Ne.symm hsame
    · rw [hstate] at hcase
      split at hcase
      · obtain hcase | hcase | hcase := hcase <;> cases hcase
      · rename_i hsame
        obtain hjob | hjob := mem_append.mp hjob
        · exact h.waiting id' hcase job hjob
        · rw [(hfresh hjob).video]
          exact Ne.symm hsame
    · obtain hjob | hjob := mem_append.mp hjob
      · obtain ⟨hactive, hdeps, hunlimited, hlimited, houtput, hpublished⟩ := h.fine job hjob
        refine ⟨fun hcase => ?_, fun hcase => ?_, hunlimited, hlimited, houtput, fun hdone hkind => ?_⟩
        · rw [hstate, if_neg (hnone job hjob)]
          exact hactive hcase
        · have hold := hdeps hcase
          rw [depsDone_iff] at hold ⊢
          intro dep hdep
          obtain ⟨other, hother, hname⟩ := hold dep hdep
          exact ⟨other, (hfeeds job other).mpr hother, hname⟩
        · obtain ⟨completion, hcompletion, hsame, hassets⟩ := hpublished hdone hkind
          exact ⟨completion, hcompletion, hsame, hassets.key, hassets.master,
            fun name hname => (hassets.from' name hname).imp_right fun hcase => hcase.imp_right
              fun ⟨other, hother, hissome⟩ => ⟨other, (hfeeds job other).mpr hother, hissome⟩,
            fun other hother => hassets.all other ((hfeeds job other).mp hother)⟩
      · have hqueued := (hfresh hjob).state
        have hnot : ∀ {P : Prop} {state : JobState}, state ≠ .queued → job.state = state → P :=
          fun hne heq => absurd (heq.symm.trans hqueued) hne
        refine ⟨fun _ => ?_, fun hcase => ?_, fun _ => ⟨(hfresh hjob).attempts, .inl hqueued⟩, fun limit hlimit => ?_,
          hnot (by decide), hnot (by decide)⟩
        · rw [hstate, if_pos (hfresh hjob).video]
        · obtain hcase | hcase := hcase
          · exact hnot (by decide) hcase
          · exact hnot (by decide) hcase
        · obtain ⟨n, hn, -, hid⟩ := (hfresh hjob).number
          obtain ⟨k, hk, hold⟩ := h.drawnLimits job.id limit hlimit
          have hsame := c.uuid_injective (hid.symm.trans hold)
          omega
    · obtain ⟨job, hjob, hrest⟩ := h.completed id' completion hcompletion
      exact ⟨job, mem_append.mpr (.inl hjob), hrest⟩
    · obtain ⟨-, rfl⟩ | ⟨-, hget'⟩ := get?_set_cases hget'
      · cases hready
      · exact h.ready id' value' hget' hready
  · have hfollows : Follows value { value with state := .processing, source := source } := by
      refine ⟨?_, fun _ => rfl⟩
      rw [huploading]
      change VideoState.processing ∈ VideoState.uploading.reaches
      decide
    refine ⟨⟨(Quiet.setVideo hget hfollows).videos, fun job hjob => ?_, fun _ _ hlimit => hlimit⟩, fun job hjob => ?_, rfl⟩
    · exact ⟨job, mem_append.mpr (.inl hjob), rfl, fun _ => rfl⟩
    · obtain hjob | hjob := mem_append.mp hjob
      · exact .inl hjob
      · exact .inr ⟨(hfresh hjob).attempts, h.fresh_id (hfresh hjob)⟩

theorem finishCommit_sound (h : Sound c db) {id key : String} {pipeline : Option Plan} {priority : ℤ} {isFile : Bool}
    (hfinish : db.finishCommit c id pipeline priority key isFile = .ok db') : Sound c db' ∧ db.Added db' := by
  obtain ⟨value, hvideo, hfinish⟩ := of_bind hfinish
  split at hfinish
  · replace hfinish := of_check hfinish
    cases hfinish
    exact ⟨h, .refl db, fun job hjob => .inl hjob, rfl⟩
  · obtain ⟨_, hstate, hfinish⟩ := of_bind hfinish
    replace hfinish := of_check hfinish
    rw [require_eq_ok] at hstate
    cases hfinish
    exact enqueue_sound h (video_eq_ok.mp hvideo) hstate (pipeline.getD c.pipeline) priority (some key)

end SystemDesign.VideoStreaming.Db
