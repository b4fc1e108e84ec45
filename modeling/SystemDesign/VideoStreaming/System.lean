import SystemDesign.VideoStreaming.Uploads

/-!
The video service under any number of clients and workers.

A step is a transaction that returns; one that raises changes nothing. Workers may hold any
lease, and the readings of a clock need not agree with each other. `claims` and `completed` are
for statements only: what was claimed under which limit, and the leases that completed, in order.
-/

namespace SystemDesign.VideoStreaming

open List

/-- A call of `finish` that assembles its object. -/
structure Finish where
  id : String
  pipeline : Option Plan
  priority : ℤ
  parts : List String

/-- A claim and the limit that its worker asked for. -/
structure Claim where
  lease : Db.Lease
  maxAttempts : ℕ

structure State where
  db : Db
  finishing : List Finish
  handling : List (String × Assets)
  claims : List Claim
  completed : List Db.Lease

variable (c : Setup)

inductive Step (s : State) : State → Prop
  | create (now : ℚ) (owner title : String) (size partSize ttl : ℕ) {id : String} {db : Db}
      (h : s.db.create c now owner title size partSize ttl = .ok (id, db)) : Step s { s with db := db }
  | uploadGrants (now : ℚ) (owner id : String) {db : Db} (h : s.db.uploadGrants now owner id = .ok db) :
      Step s { s with db := db }
  | putPart (id : String) (idx : ℕ) (key : String) (size : ℕ) (isFile : Bool) {new : Bool} {db : Db}
      (h : s.db.putPart id idx key size isFile = .ok (new, db)) : Step s { s with db := db }
  | finishRead (owner id : String) (checksum : Option String) (pipeline : Option Plan) (priority : ℤ) {parts : List String}
      (h : s.db.finishRead owner id checksum pipeline = .ok (some parts)) :
      Step s { s with finishing := s.finishing ++ [⟨id, pipeline, priority, parts⟩] }
  | finishCommit (before after : List Finish) (work : Finish) (hwork : s.finishing = before ++ work :: after)
      (key : String) (isFile : Bool) {db : Db}
      (h : s.db.finishCommit c work.id work.pipeline work.priority key isFile = .ok db) :
      Step s { s with db := db, finishing := before ++ after }
  | claim (now later leaseSeconds : ℚ) (maxAttempts : ℕ) (kinds : Option (List Kind)) {held : Option Db.Lease} {db : Db}
      (h : s.db.claim c now later leaseSeconds maxAttempts kinds = .ok (held, db)) :
      Step s { s with db := db, claims := s.claims ++ (held.map fun lease => ⟨lease, maxAttempts⟩).toList }
  | renew (now later leaseSeconds : ℚ) (held : Db.Lease) {renewed : Bool} {db : Db}
      (h : s.db.renew c now later leaseSeconds held = .ok (renewed, db)) : Step s { s with db := db }
  | complete (now later : ℚ) (held : Db.Lease) (output : Output) (isFile : String → Bool) {completed : Bool} {db : Db}
      (h : s.db.complete now later held output isFile = .ok (completed, db)) :
      Step s { s with db := db, completed := s.completed ++ if completed then [held] else [] }
  | fail (now later : ℚ) (held : Db.Lease) (error : String) (fatal : Bool) (maxAttempts : ℕ) (retryBase : ℚ)
      {recorded : Bool} {db : Db}
      (h : s.db.fail c now later held error fatal maxAttempts retryBase = .ok (recorded, db)) : Step s { s with db := db }
  | handleRead (limit : ℕ) : Step s { s with handling := s.handling ++ s.db.pending limit }
  | handleCommit (before after : List (String × Assets)) (row : String × Assets)
      (hrow : s.handling = before ++ row :: after) (isFile : String → Bool) {db : Db}
      (h : s.db.handleCompletion row isFile = .ok db) : Step s { s with db := db, handling := before ++ after }
  | remove (owner id : String) {db : Db} (h : s.db.remove owner id = .ok db) : Step s { s with db := db }
  | expireUploads (now uploadAge : ℚ) : Step s { s with db := s.db.expireUploads c now uploadAge }
  | lost (before after : List Finish) (work : Finish) (hwork : s.finishing = before ++ work :: after) :
      Step s { s with finishing := before ++ after }

def init : State := ⟨⟨.empty, .empty, [], .empty, .empty, 0⟩, [], [], [], []⟩

def service : Transitions State where
  start s := s = init
  step := Step c

/-- Any number of steps. -/
abbrev Run : State → State → Prop := Relation.ReflTransGen (Step c)

variable {c}

/-! ### What a step does -/

namespace State

/-- The claims of a job, the first one first. -/
def claimsOf (s : State) (id : String) : List Claim := s.claims.filter fun claim => claim.lease.job = id

structure Logged (s : State) : Prop where
  attempts : ∀ job ∈ s.db.jobs, job.attempts = (s.claimsOf job.id).length
  limits : ∀ id, s.db.jobLimits.get? id = (s.claimsOf id).head?.map (·.maxAttempts)
  known : ∀ claim ∈ s.claims, ∃ job ∈ s.db.jobs, job.id = claim.lease.job
  once : (s.completed.map (·.job)).Nodup
  done : ∀ held ∈ s.completed, ∃ job ∈ s.db.jobs, job.id = held.job ∧ job.state = .done

structure Sound (c : Setup) (s : State) : Prop where
  db : Db.Sound c s.db
  logged : s.Logged

variable {s s' : State}
variable {db : Db}

theorem Logged.done_moves (h : s.Logged) (hmoves : s.db.Moves db) :
    ∀ held ∈ s.completed, ∃ job ∈ db.jobs, job.id = held.job ∧ job.state = .done := by
  intro held hheld
  obtain ⟨job, hjob, hid, hdone⟩ := h.done held hheld
  obtain ⟨job', hjob', -, hsame⟩ := hmoves.jobs job hjob
  cases hsame hdone
  exact ⟨job, hjob', hid, hdone⟩

theorem Logged.known_moves (h : s.Logged) (hmoves : s.db.Moves db) :
    ∀ claim ∈ s.claims, ∃ job ∈ db.jobs, job.id = claim.lease.job := by
  intro claim hclaim
  obtain ⟨job, hjob, hid⟩ := h.known claim hclaim
  obtain ⟨job', hjob', hid', -⟩ := hmoves.jobs job hjob
  exact ⟨job', hjob', hid'.trans hid⟩

theorem Logged.quiet (h : s.Logged) (hquiet : s.db.Quiet db) : Logged { s with db := db } where
  attempts job' hjob' := by
    obtain ⟨job, hjob, hid, hattempts⟩ := hquiet.attempts job' hjob'
    rw [hattempts, h.attempts job hjob, hid]
    rfl
  limits id := by
    change db.jobLimits.get? id = _
    rw [hquiet.sameLimits]
    exact h.limits id
  known := h.known_moves hquiet.toMoves
  once := h.once
  done := h.done_moves hquiet.toMoves

theorem Logged.added (h : s.Logged) (hadded : s.db.Added db) : Logged { s with db := db } where
  attempts job' hjob' := by
    obtain hjob | ⟨hzero, hnew⟩ := hadded.attempts job' hjob'
    · exact h.attempts job' hjob
    · rw [hzero, eq_comm, length_eq_zero_iff]
      refine filter_eq_nil_iff.mpr fun claim hclaim hid => ?_
      obtain ⟨job, hjob, hknown⟩ := h.known claim hclaim
      exact hnew job hjob (hknown.trans (of_decide_eq_true hid))
  limits id := by
    change db.jobLimits.get? id = _
    rw [hadded.sameLimits]
    exact h.limits id
  known := h.known_moves hadded.toMoves
  once := h.once
  done := h.done_moves hadded.toMoves

theorem Logged.took (h : s.Logged) {lease : Db.Lease} {maxAttempts : ℕ} (htook : s.db.Took db lease.job maxAttempts) :
    Logged { s with db := db, claims := s.claims ++ [⟨lease, maxAttempts⟩] } := by
  have hclaims : ∀ id, claimsOf { s with db := db, claims := s.claims ++ [⟨lease, maxAttempts⟩] } id =
      s.claimsOf id ++ if lease.job = id then [⟨lease, maxAttempts⟩] else [] := by
    intro id
    unfold claimsOf
    rw [filter_append]
    congr 1
    by_cases hid : lease.job = id
    · rw [if_pos hid, filter_singleton, decide_eq_true hid]
      rfl
    · rw [if_neg hid, filter_singleton, decide_eq_false hid]
      rfl
  refine ⟨fun job' hjob' => ?_, fun id => ?_, fun claim hclaim => ?_, h.once, h.done_moves htook.toMoves⟩
  · obtain ⟨job, hjob, hid, hattempts⟩ := htook.attempts job' hjob'
    rw [hattempts, h.attempts job hjob, hid, hclaims, length_append]
    by_cases hsame : job'.id = lease.job
    · rw [if_pos hsame, if_pos hsame.symm]
      rfl
    · rw [if_neg hsame, if_neg (Ne.symm hsame)]
      rfl
  · change db.jobLimits.get? id = _
    rw [htook.recorded, hclaims, head?_append, h.limits id, h.limits lease.job]
    by_cases hid : id = lease.job
    · subst hid
      rw [if_pos rfl]
      cases (s.claimsOf lease.job).head? with
      | none =>
        rw [if_pos ⟨rfl, rfl⟩]
        rfl
      | some first =>
        rw [if_neg fun hcase => nomatch hcase.2]
        rfl
    · rw [if_neg fun hcase => hid hcase.1, if_neg (Ne.symm hid)]
      simp
  · obtain hclaim | hclaim := mem_append.mp hclaim
    · exact h.known_moves htook.toMoves claim hclaim
    · rw [mem_singleton.mp hclaim]
      obtain ⟨job, hjob, hid⟩ := htook.known
      obtain ⟨job', hjob', hid', -⟩ := htook.jobs job hjob
      exact ⟨job', hjob', hid'.trans hid⟩

theorem Sound.quiet (h : s.Sound c) {db : Db} (hdb : Db.Sound c db ∧ s.db.Quiet db) :
    Sound c { s with db := db } ∧ s.db.Moves db := ⟨⟨hdb.1, h.logged.quiet hdb.2⟩, hdb.2.toMoves⟩

theorem Sound.step (h : s.Sound c) (hstep : Step c s s') : s'.Sound c ∧ s.db.Moves s'.db := by
  cases hstep with
  | create now owner title size partSize ttl hcreate => exact h.quiet (Db.create_sound h.db hcreate)
  | uploadGrants now owner id hgrants => exact h.quiet (Db.uploadGrants_sound h.db hgrants)
  | putPart id idx key size isFile hput => exact h.quiet (Db.putPart_sound h.db hput)
  | finishRead owner id checksum pipeline priority hread => exact ⟨⟨h.db, h.logged.1, h.logged.2, h.logged.3, h.logged.4, h.logged.5⟩, .refl s.db⟩
  | finishCommit before after work hwork key isFile hfinish =>
    obtain ⟨hdb, hadded⟩ := Db.finishCommit_sound h.db hfinish
    obtain ⟨hattempts, hlimits, hknown, honce, hdone⟩ := h.logged.added hadded
    exact ⟨⟨hdb, hattempts, hlimits, hknown, honce, hdone⟩, hadded.toMoves⟩
  | claim now later leaseSeconds maxAttempts kinds hclaim =>
    obtain ⟨hdb, ⟨rfl, hquiet⟩ | ⟨lease, rfl, htook⟩⟩ := Db.claim_sound h.db hclaim
    · rw [Option.map_none, Option.toList_none, append_nil]
      exact h.quiet ⟨hdb, hquiet⟩
    · exact ⟨⟨hdb, h.logged.took htook⟩, htook.toMoves⟩
  | renew now later leaseSeconds held hrenew => exact h.quiet (Db.renew_sound h.db hrenew)
  | complete now later held output isFile hcomplete =>
    obtain ⟨hdb, hquiet, hcompleted⟩ := Db.complete_sound h.db hcomplete
    obtain ⟨hattempts, hlimits, hknown, honce, hdone⟩ := h.logged.quiet hquiet
    refine ⟨⟨hdb, hattempts, hlimits, hknown, ?_, ?_⟩, hquiet.toMoves⟩
    · split
      · rename_i htrue
        obtain ⟨⟨job, hjob, hid, hrunning, -⟩, -⟩ := hcompleted htrue
        rw [map_append, nodup_append']
        refine ⟨honce, nodup_singleton _, fun id hid' hsame => ?_⟩
        obtain ⟨other, hother, rfl⟩ := mem_map.mp hid'
        obtain ⟨row, hrow, hrowId, hrowDone⟩ := h.logged.done other hother
        have heq := h.db.eq_of_id hrow hjob (hrowId.trans ((mem_singleton.mp hsame).trans hid.symm))
        rw [heq, hrunning] at hrowDone
        cases hrowDone
      · rw [append_nil]
        exact honce
    · intro other hother
      split at hother
      · rename_i htrue
        obtain hother | hother := mem_append.mp hother
        · exact hdone other hother
        · rw [mem_singleton.mp hother]
          exact (hcompleted htrue).2
      · rw [append_nil] at hother
        exact hdone other hother
  | fail now later held error fatal maxAttempts retryBase hfail => exact h.quiet (Db.fail_sound h.db hfail)
  | handleRead limit => exact ⟨⟨h.db, h.logged.1, h.logged.2, h.logged.3, h.logged.4, h.logged.5⟩, .refl s.db⟩
  | handleCommit before after row hrow isFile hhandle =>
    obtain ⟨hdb, hquiet⟩ := Db.handleCompletion_sound h.db hhandle
    obtain ⟨hattempts, hlimits, hknown, honce, hdone⟩ := h.logged.quiet hquiet
    exact ⟨⟨hdb, hattempts, hlimits, hknown, honce, hdone⟩, hquiet.toMoves⟩
  | remove owner id hremove => exact h.quiet (Db.remove_sound h.db hremove)
  | expireUploads now uploadAge => exact h.quiet (Db.expireUploads_sound h.db now uploadAge)
  | lost before after work hwork => exact ⟨⟨h.db, h.logged.1, h.logged.2, h.logged.3, h.logged.4, h.logged.5⟩, .refl s.db⟩

theorem init_sound : Sound c init where
  db := by
    have hnoJob : ∀ {P : Job → Prop}, ∀ job ∈ init.db.jobs, P job := fun job hjob => absurd hjob not_mem_nil
    have hnoVideo : ∀ {P : Prop} {id : String} {value : Video}, init.db.videos.get? id = some value → P := by
      intro P id value hget
      cases (Dict.get?_empty id).symm.trans hget
    have hnoLimit : ∀ {P : Prop} {id : String} {limit : ℕ}, init.db.jobLimits.get? id = some limit → P := by
      intro P id limit hget
      cases (Dict.get?_empty id).symm.trans hget
    have hnoCompletion : ∀ {P : Prop} {id : String} {completion : Completion},
        init.db.completions.get? id = some completion → P := by
      intro P id completion hget
      cases (Dict.get?_empty id).symm.trans hget
    exact ⟨nodup_nil, nodup_nil, hnoJob, fun _ _ => hnoVideo, fun _ _ => hnoLimit, fun id => .inl hnoJob,
      fun id _ => hnoJob, hnoJob, fun _ _ => hnoCompletion, fun _ _ => hnoVideo⟩
  logged := ⟨fun job hjob => absurd hjob not_mem_nil, Dict.get?_empty,
    fun claim hclaim => absurd hclaim not_mem_nil, nodup_nil, fun held hheld => absurd hheld not_mem_nil⟩

theorem reachable_sound (h : (service c).Reachable s) : s.Sound c :=
  h.invariant (fun _ hstart => hstart ▸ init_sound) fun _ _ _ hsound hstep => (hsound.step hstep).1

theorem Sound.run (h : s.Sound c) (hrun : Run c s s') : s'.Sound c ∧ s.db.Moves s'.db := by
  induction hrun with
  | refl => exact ⟨h, .refl s.db⟩
  | tail _ hstep ih =>
    obtain ⟨hsound, hmoves⟩ := ih.1.step hstep
    exact ⟨hsound, ih.2.trans hmoves⟩

/-! ### Safety -/

/-- What holds of a state. -/
structure Safe (s : State) : Prop where
  leased : ∀ job ∈ s.db.jobs, job.state = .running → s.db.stateOf job.video = some .processing ∧
    ∀ dep ∈ job.deps, ∃ other ∈ s.db.jobs, other.video = job.video ∧ other.name = dep ∧ other.state = .done
  unexpired : ∀ now later held output isFile db, s.db.complete now later held output isFile = .ok (true, db) →
    ∃ job ∈ s.db.jobs, job.id = held.job ∧ job.state = .running ∧ job.lease = some held.lease ∧ later < job.expires
  once : (s.completed.map (·.job)).Nodup
  attempts : ∀ job ∈ s.db.jobs, job.attempts = (s.claimsOf job.id).length ∧
    ∀ first, (s.claimsOf job.id).head? = some first → job.attempts ≤ first.maxAttempts
  ready : ∀ id value, s.db.videos.get? id = some value → value.state = .ready →
    (∃ plan : Plan, (s.db.jobs.filter fun job => job.video = id).map Job.task = plan.tasks) ∧
    (∀ job ∈ s.db.jobs, job.video = id → job.state = .done) ∧
    value.assets.contains "key.bin" = true ∧ value.assets.contains "master.m3u8" = true ∧
    ∀ name, name ≠ "key.bin" ∧ name ≠ "master.m3u8" → ∀ key, value.assets.get? name = some key ↔
      ∃ job ∈ s.db.jobs, job.video = id ∧ (job.kind = .encode ∨ job.kind = .thumbnail) ∧
        Output.get? job.output name = some key
  special : ∀ job ∈ s.db.jobs, job.state = .done → (job.kind = .encode ∨ job.kind = .thumbnail) →
    Output.get? job.output "key.bin" = none ∧ Output.get? job.output "master.m3u8" = none
  stopped : ∀ id, s.db.stateOf id = some .failed ∨ s.db.stateOf id = some .removed →
    ∀ job ∈ s.db.jobs, job.video = id → job.state ≠ .queued ∧ job.state ≠ .running

theorem Sound.ready (h : s.Sound c) {id : String} {value : Video} (hget : s.db.videos.get? id = some value)
    (hready : value.state = .ready) :
    (∃ plan : Plan, (s.db.jobs.filter fun job => job.video = id).map Job.task = plan.tasks) ∧
    (∀ job ∈ s.db.jobs, job.video = id → job.state = .done) ∧
    value.assets.contains "key.bin" = true ∧ value.assets.contains "master.m3u8" = true ∧
    ∀ name, name ≠ "key.bin" ∧ name ≠ "master.m3u8" → ∀ key, value.assets.get? name = some key ↔
      ∃ job ∈ s.db.jobs, job.video = id ∧ (job.kind = .encode ∨ job.kind = .thumbnail) ∧
        Output.get? job.output name = some key := by
  obtain ⟨completion, hcompletion, hassets⟩ := h.db.ready id value hget hready
  obtain ⟨publish, hpublish, rfl, hkind, hdone⟩ := h.db.completed id completion hcompletion
  obtain ⟨completion', hcompletion', -, hpublished⟩ := (h.db.fine publish hpublish).published hdone hkind
  cases hcompletion.symm.trans hcompletion'
  have hall := h.db.all_done hpublish hkind hdone
  rw [hassets]
  refine ⟨?_, hall, hpublished.key, hpublished.master, fun name hname key => ⟨fun hkey => ?_, ?_⟩⟩
  · exact (h.db.planned publish.video).resolve_left fun hnone => hnone publish hpublish rfl
  · obtain heq | heq | ⟨other, hfeeds, hissome⟩ := hpublished.from' name (Dict.contains_iff.mpr ⟨key, hkey⟩)
    · exact absurd heq hname.1
    · exact absurd heq hname.2
    · obtain ⟨key', hkey'⟩ := Option.isSome_iff_exists.mp hissome
      cases hkey.symm.trans (hpublished.all other hfeeds name key' hkey')
      exact ⟨other, hfeeds.mem, hfeeds.video, (h.db.terminal hpublish hkind hfeeds.mem hfeeds.video).mp hfeeds.name, hkey'⟩
  · rintro ⟨job, hjob, hvideo, hterminal, hkey⟩
    exact hpublished.all job ⟨hjob, hvideo, hall job hjob hvideo,
      (h.db.terminal hpublish hkind hjob hvideo).mpr hterminal⟩ name key hkey

theorem Sound.safe (h : s.Sound c) : s.Safe where
  leased job hjob hrunning := by
    refine ⟨(h.db.fine job hjob).active (.inr hrunning), fun dep hdep => ?_⟩
    obtain ⟨other, hfeeds, hname⟩ := Db.depsDone_iff.mp ((h.db.fine job hjob).deps (.inl hrunning)) dep hdep
    exact ⟨other, hfeeds.mem, hfeeds.video, hname, hfeeds.state⟩
  unexpired now later held output isFile db hcomplete := ((Db.complete_sound h.db hcomplete).2.2 rfl).1
  once := h.logged.once
  attempts job hjob := by
    refine ⟨h.logged.attempts job hjob, fun first hfirst => ?_⟩
    have hlimit := h.logged.limits job.id
    rw [hfirst] at hlimit
    exact ((h.db.fine job hjob).limited first.maxAttempts hlimit).1
  ready id value hget hready := h.ready hget hready
  special job hjob hdone hkind := by
    have hterminal := h.db.terminal_of_kind hjob hkind
    constructor
    · by_contra hne
      exact (h.db.not_special hjob hdone hterminal (Option.isSome_iff_ne_none.mpr hne)).1 rfl
    · by_contra hne
      exact (h.db.not_special hjob hdone hterminal (Option.isSome_iff_ne_none.mpr hne)).2 rfl
  stopped id hover job hjob hvideo := by
    have hactive := (h.db.fine job hjob).active
    rw [hvideo] at hactive
    refine ⟨fun hqueued => ?_, fun hrunning => ?_⟩
    · rw [hactive (.inl hqueued)] at hover
      simp at hover
    · rw [hactive (.inr hrunning)] at hover
      simp at hover

theorem stateOf_moves {db' : Db} (h : db.Moves db') {id : String} {state : VideoState}
    (hstate : db.stateOf id = some state) : ∃ state' ∈ state.reaches, db'.stateOf id = some state' := by
  obtain ⟨value, hget, rfl⟩ := Option.map_eq_some_iff.mp hstate
  obtain ⟨value', hget', hfollows⟩ := h.videos id value hget
  exact ⟨value'.state, hfollows.state, by rw [Db.stateOf, hget']; rfl⟩

end State

/-- Every reachable state is safe, and what a run does to a video is never undone. -/
theorem dag_safe {s : State} (h : (service c).Reachable s) : s.Safe ∧ ∀ s', Run c s s' →
    (∀ id value, s.db.videos.get? id = some value → value.state = .ready → ∀ value', s'.db.videos.get? id = some value' →
      value'.state = .ready → value'.assets = value.assets) ∧
    (∀ id, s.db.stateOf id = some .failed ∨ s.db.stateOf id = some .removed → s'.db.stateOf id ≠ some .ready) ∧
    (∀ id limit, s.db.jobLimits.get? id = some limit → s'.db.jobLimits.get? id = some limit) ∧
    ∀ s'', Run c s' s'' → ∀ id state, s.db.stateOf id = some state → s''.db.stateOf id = some state →
      s'.db.stateOf id = some state := by
  have hsound := State.reachable_sound h
  refine ⟨hsound.safe, fun s' hrun => ?_⟩
  obtain ⟨hsound', hmoves⟩ := hsound.run hrun
  refine ⟨fun id value hget hready value' hget' _ => ?_, fun id hover hready => ?_, hmoves.limits,
    fun s'' hrun' id state hstate hstate'' => ?_⟩
  · obtain ⟨next, hnext, hfollows⟩ := hmoves.videos id value hget
    cases hget'.symm.trans hnext
    exact hfollows.assets (.inl hready)
  · obtain hfailed | hremoved := hover
    · obtain ⟨state', hreached, hstate'⟩ := State.stateOf_moves hmoves hfailed
      cases hready.symm.trans hstate'
      revert hreached
      decide
    · obtain ⟨state', hreached, hstate'⟩ := State.stateOf_moves hmoves hremoved
      cases hready.symm.trans hstate'
      revert hreached
      decide
  · obtain ⟨state', hreached, hstate'⟩ := State.stateOf_moves hmoves hstate
    obtain ⟨state'', hreached', hsame⟩ := State.stateOf_moves (hsound'.run hrun').2 hstate'
    cases hstate''.symm.trans hsame
    rw [hstate', VideoState.reaches_antisymm hreached hreached']

theorem clip_injective : Function.Injective fun n => String.ofList (List.replicate (n + 1) 'a') := by
  intro n m h
  have hlength := congrArg List.length (String.ofList_injective h)
  rw [length_replicate, length_replicate] at hlength
  exact Nat.succ.inj hlength

def clipSetup : Setup where
  plus a b := a + b
  minus a b := a - b
  backoff base n := base * 2 ^ n
  uuid n := String.ofList (List.replicate (n + 1) 'a')
  uuid_injective := clip_injective
  maxBytes := 1000
  pipeline := ⟨[144], false, false, by decide, by decide, by decide⟩

/-- The tables after the finalization of a clip. -/
def clipDb : Db where
  videos := Dict.empty.set "a" ⟨"alice", "clip", 1, 1, .processing, some "key", .empty, 0⟩
  parts := Dict.empty.set ("a", 0) ⟨"key", 1⟩
  jobs := Db.planJobs clipSetup "a" 0 clipSetup.pipeline.tasks 1
  completions := .empty
  jobLimits := .empty
  drawn := 4

theorem clip_reachable : (service clipSetup).Reachable ⟨clipDb, [], [], [], []⟩ := by
  have h0 : (service clipSetup).Reachable init := .start rfl
  have h1 := h0.step (.create 0 "alice" "clip" 1 1 60 rfl)
  have h2 := h1.step (.putPart "a" 0 "key" 1 true rfl)
  have h3 := h2.step (.finishRead "alice" "a" none none 0 rfl)
  exact h3.step (.finishCommit [] [] _ rfl "key" true rfl)

theorem clip_ready : clipDb.firstReady 0 (some [.inspect]) = clipDb.jobs.head? := by
  unfold Db.firstReady
  change (List.mergeSort [_] _).find? _ = _
  rw [mergeSort_singleton]
  rfl

theorem clip_claimed : ∃ s, (service clipSetup).Reachable s ∧ s.db.jobs.map (fun job => (job.name, job.state)) =
    [("inspect", .running), ("encode-144", .queued), ("publish", .queued)] := by
  have hlease : Db.duration 60 "lease" false = .ok () := require_eq_ok.mpr (by norm_num)
  have hlimit : Db.validAttempts 3 = .ok () := require_eq_ok.mpr (by decide)
  have hready : (clipDb.recover 0).firstReady 0 (some [.inspect]) = clipDb.jobs.head? := clip_ready
  have hclaim : clipDb.claim clipSetup 0 0 60 3 (some [.inspect]) = .ok (some ⟨"aa", clipSetup.uuid 4⟩,
      { (clipDb.limitTo "aa" 3).updateJobs (fun job => job.id = "aa") fun job => { job with
          state := .running
          lease := some (clipSetup.uuid 4)
          expires := clipSetup.plus 0 60
          attempts := job.attempts + 1 } with drawn := 5 }) := by
    unfold Db.claim
    rw [hlease, hlimit]
    dsimp only [bind, Except.bind]
    rw [hready]
    rfl
  exact ⟨_, clip_reachable.step (.claim 0 0 60 3 (some [.inspect]) hclaim), rfl⟩

theorem dag_safe_clip : ∃ s, (service clipSetup).Reachable s ∧ s.db.jobs.map (fun job => (job.name, job.state)) =
    [("inspect", .running), ("encode-144", .queued), ("publish", .queued)] ∧ s.Safe := by
  obtain ⟨s, hreachable, hjobs⟩ := clip_claimed
  exact ⟨s, hreachable, hjobs, (dag_safe hreachable).1⟩

end SystemDesign.VideoStreaming
