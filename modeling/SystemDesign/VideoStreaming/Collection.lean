import SystemDesign.Lib.Json
import SystemDesign.VideoStreaming.References
import SystemDesign.VideoStreaming.System

/-!
The garbage collection of objects (`cleanup`) under any number of services.

Objects are written before and outside the transactions that refer to them; an object is its key and its modification
time. Every service has the one directory. Temporary files and the directories of attempts, which no table names, are
left out.
-/

namespace SystemDesign.VideoStreaming

open Dict List
open Db (isKey)

/-! ### Collection -/

mutual
/-- `collect`. -/
def collect : Json → List String
  | .obj fields => collectFields fields
  | .str value => if isKey value then [value] else []
  | _ => []

def collectFields : List (String × Json) → List String
  | [] => []
  | (_, child) :: fields => collect child ++ collectFields fields
end

/-- `collect` of an object of texts. -/
def objectKeys (assets : Assets) : List String := assets.values.filter isKey

/-- `collect` of an output. -/
def Output.keys : Output → List String
  | .assets value => objectKeys value
  | .other text => (Json.loads text).elim [] collect

/-- `state NOT IN ('REMOVED','EXPIRED')`. -/
def VideoState.kept (state : VideoState) : Bool := state ≠ .removed && state ≠ .expired

/-- `references` in `cleanup`. -/
def Db.references (db : Db) : List String :=
  ((db.videos.values.filter fun value => value.state.kept).flatMap fun value =>
    value.source.toList.filter isKey ++ objectKeys value.assets) ++
  db.parts.values.map (·.key) ++
  (db.jobs.flatMap fun job => match db.stateOf job.video, job.output with
    | some state, some output =>
      if state.kept && !(job.kind = .preprocess && (state = .ready || state = .failed)) then output.keys else []
    | _, _ => []) ++
  db.completions.entries.flatMap fun entry => match db.stateOf entry.1 with
    | some state => if state.kept then objectKeys entry.2.assets else []
    | none => []

/-- The keys of the objects, with their times. -/
abbrev Objects := Dict String ℚ

variable (c : Setup)

/-- The second transaction of `cleanup`; a file may be in use. -/
def Objects.sweep (references : List String) (wallNow minAge : ℚ) (inUse : String → Bool) (objects : Objects) : Objects :=
  ⟨objects.entries.filter fun entry =>
    !(!references.contains entry.1 && minAge < c.minus wallNow entry.2) || inUse entry.1,
    objects.nodup.sublist (filter_sublist.map _)⟩

/-! ### Services -/

/-- A step of a service that looks up objects under its lock. What `handle_completions` looks up, it does before. -/
inductive Locked (isFile : String → Bool) (s : State) : State → Prop
  | create (now : ℚ) (owner title : String) (size partSize ttl : ℕ) {id : String} {db : Db}
      (h : s.db.create c now owner title size partSize ttl = .ok (id, db)) : Locked isFile s { s with db := db }
  | uploadGrants (now : ℚ) (owner id : String) {db : Db} (h : s.db.uploadGrants now owner id = .ok db) :
      Locked isFile s { s with db := db }
  | putPart (id : String) (idx : ℕ) (key : String) (size : ℕ) {new : Bool} {db : Db}
      (h : s.db.putPart id idx key size (isFile key) = .ok (new, db)) : Locked isFile s { s with db := db }
  | finishRead (owner id : String) (checksum : Option String) (pipeline : Option Plan) (priority : ℤ) {parts : List String}
      (h : s.db.finishRead owner id checksum pipeline = .ok (some parts)) :
      Locked isFile s { s with finishing := s.finishing ++ [⟨id, pipeline, priority, parts⟩] }
  | finishCommit (before after : List Finish) (work : Finish) (hwork : s.finishing = before ++ work :: after)
      (key : String) {db : Db} (h : s.db.finishCommit c work.id work.pipeline work.priority key (isFile key) = .ok db) :
      Locked isFile s { s with db := db, finishing := before ++ after }
  | claim (now later leaseSeconds : ℚ) (maxAttempts : ℕ) (kinds : Option (List Kind)) {held : Option Db.Lease} {db : Db}
      (h : s.db.claim c now later leaseSeconds maxAttempts kinds = .ok (held, db)) :
      Locked isFile s { s with db := db, claims := s.claims ++ (held.map fun lease => ⟨lease, maxAttempts⟩).toList }
  | renew (now later leaseSeconds : ℚ) (held : Db.Lease) {renewed : Bool} {db : Db}
      (h : s.db.renew c now later leaseSeconds held = .ok (renewed, db)) : Locked isFile s { s with db := db }
  | complete (now later : ℚ) (held : Db.Lease) (output : Output) {completed : Bool} {db : Db}
      (h : s.db.complete now later held output isFile = .ok (completed, db)) :
      Locked isFile s { s with db := db, completed := s.completed ++ if completed then [held] else [] }
  | fail (now later : ℚ) (held : Db.Lease) (error : String) (fatal : Bool) (maxAttempts : ℕ) (retryBase : ℚ)
      {recorded : Bool} {db : Db}
      (h : s.db.fail c now later held error fatal maxAttempts retryBase = .ok (recorded, db)) :
      Locked isFile s { s with db := db }
  | handleRead (limit : ℕ) : Locked isFile s { s with handling := s.handling ++ s.db.pending limit }
  | handleCommit (before after : List (String × Assets)) (row : String × Assets)
      (hrow : s.handling = before ++ row :: after) (seen : String → Bool) {db : Db}
      (h : s.db.handleCompletion row seen = .ok db) : Locked isFile s { s with db := db, handling := before ++ after }
  | remove (owner id : String) {db : Db} (h : s.db.remove owner id = .ok db) : Locked isFile s { s with db := db }
  | expireUploads (now uploadAge : ℚ) : Locked isFile s { s with db := s.db.expireUploads c now uploadAge }
  | lost (before after : List Finish) (work : Finish) (hwork : s.finishing = before ++ work :: after) :
      Locked isFile s { s with finishing := before ++ after }

structure Store where
  service : State
  objects : Objects

def Store.isFile (s : Store) (key : String) : Bool := s.objects.contains key

inductive Collects (s : Store) : Store → Prop
  /-- `put` and `assemble`: an object that is there gets a new time. -/
  | write (now : ℚ) (key : String) (hkey : isKey key = true) : Collects s { s with objects := s.objects.set key now }
  | serve {service : State} (h : Locked c s.isFile s.service service) : Collects s { s with service := service }
  | sweep (wallNow minAge : ℚ) (hage : 300 ≤ minAge) (inUse : String → Bool) :
      Collects s { s with objects := s.objects.sweep c s.service.db.references wallNow minAge inUse }

def store : Transitions Store where
  start s := s = ⟨init, .empty⟩
  step := Collects c

variable {c} {isFile : String → Bool} {s s' : State}

theorem Locked.step (h : Locked c isFile s s') : Step c s s' := by
  cases h with
  | create now owner title size partSize ttl h => exact .create now owner title size partSize ttl h
  | uploadGrants now owner id h => exact .uploadGrants now owner id h
  | putPart id idx key size h => exact .putPart id idx key size (isFile key) h
  | finishRead owner id checksum pipeline priority h => exact .finishRead owner id checksum pipeline priority h
  | finishCommit before after work hwork key h => exact .finishCommit before after work hwork key (isFile key) h
  | claim now later leaseSeconds maxAttempts kinds h => exact .claim now later leaseSeconds maxAttempts kinds h
  | renew now later leaseSeconds held h => exact .renew now later leaseSeconds held h
  | complete now later held output h => exact .complete now later held output isFile h
  | fail now later held error fatal maxAttempts retryBase h => exact .fail now later held error fatal maxAttempts retryBase h
  | handleRead limit => exact .handleRead limit
  | handleCommit before after row hrow seen h => exact .handleCommit before after row hrow seen h
  | remove owner id h => exact .remove owner id h
  | expireUploads now uploadAge => exact .expireUploads now uploadAge
  | lost before after work hwork => exact .lost before after work hwork

theorem Locked.grows (h : Locked c isFile s s') (hs : s.Sound c) : s.db.Grows isFile s'.db := by
  cases h with
  | create now owner title size partSize ttl h => exact (Db.create_fewer hs.db h).grows isFile
  | uploadGrants now owner id h => exact (Db.uploadGrants_fewer h).grows isFile
  | putPart id idx key size h => exact Db.putPart_grows h
  | finishRead owner id checksum pipeline priority h => exact (Db.Fewer.refl s.db).grows isFile
  | finishCommit before after work hwork key h => exact Db.finishCommit_grows hs.db h
  | claim now later leaseSeconds maxAttempts kinds h => exact (Db.claim_fewer h).grows isFile
  | renew now later leaseSeconds held h => exact (Db.renew_fewer h).grows isFile
  | complete now later held output h => exact Db.complete_grows hs.db h
  | fail now later held error fatal maxAttempts retryBase h => exact (Db.fail_fewer h).grows isFile
  | handleRead limit => exact (Db.Fewer.refl s.db).grows isFile
  | handleCommit before after row hrow seen h => exact Db.handleCompletion_grows h
  | remove owner id h => exact (Db.remove_fewer h).grows isFile
  | expireUploads now uploadAge => exact (Db.expireUploads_fewer now uploadAge).grows isFile
  | lost before after work hwork => exact (Db.Fewer.refl s.db).grows isFile

/-! ### What is kept -/

variable {key : String}

theorem mem_objectKeys {assets : Assets} (h : key ∈ assets.values) (hkey : isKey key = true) :
    key ∈ objectKeys assets := mem_filter.mpr ⟨h, hkey⟩

/-- Everything that is referred to is collected. -/
theorem Db.Refers.collected {db : Db} (h : db.Refers key) (hkey : isKey key = true) : key ∈ db.references := by
  unfold references
  simp only [mem_append]
  cases h with
  | part id idx part hpart hkept heq =>
    exact .inl (.inl (.inr (mem_map.mpr ⟨part, mem_values.mpr ⟨_, hpart⟩, heq⟩)))
  | source id value hget hstate heq =>
    refine .inl (.inl (.inl (mem_flatMap.mpr ⟨value, mem_filter.mpr ⟨mem_values.mpr ⟨id, hget⟩, ?_⟩, ?_⟩)))
    · obtain hstate | hstate := hstate <;> rw [hstate] <;> rfl
    · refine mem_append_left _ (mem_filter.mpr ⟨?_, hkey⟩)
      rw [heq]
      exact mem_singleton_self key
  | output job hjob hdone hkind hstate hnames =>
    refine .inl (.inr (mem_flatMap.mpr ⟨job, hjob, ?_⟩))
    obtain ⟨assets, houtput, hmem⟩ := hnames
    rw [hstate, houtput]
    simpa [VideoState.kept, Output.keys] using mem_objectKeys hmem hkey
  | completion id completion hget hhandled hstate hmem =>
    refine .inr (mem_flatMap.mpr ⟨(id, completion), mem_entries.mpr hget, ?_⟩)
    rw [hstate]
    exact mem_objectKeys hmem hkey
  | asset id value hget hready hmem =>
    refine .inl (.inl (.inl (mem_flatMap.mpr ⟨value, mem_filter.mpr ⟨mem_values.mpr ⟨id, hget⟩, ?_⟩, ?_⟩)))
    · rw [hready]
      rfl
    · exact mem_append_right _ (mem_objectKeys hmem hkey)

theorem Objects.sweep_get? {objects : Objects} {references : List String} {wallNow minAge time : ℚ}
    {inUse : String → Bool} : (objects.sweep c references wallNow minAge inUse).get? key = some time →
      objects.get? key = some time := by
  intro h
  exact mem_entries.mp (mem_filter.mp (mem_entries.mpr h)).1

theorem Objects.sweep_contains {objects : Objects} {references : List String} {wallNow minAge : ℚ}
    {inUse : String → Bool} (h : objects.contains key = true) (hkey : key ∈ references) :
    (objects.sweep c references wallNow minAge inUse).contains key = true := by
  obtain ⟨time, hget⟩ := Dict.contains_iff.mp h
  refine Dict.contains_iff.mpr ⟨time, mem_entries.mp (mem_filter.mpr ⟨mem_entries.mpr hget, ?_⟩)⟩
  simp [hkey]

structure Store.Held (c : Setup) (s : Store) : Prop where
  sound : s.service.Sound c
  named : ∀ key, s.isFile key = true → isKey key = true
  refers : ∀ key, s.service.db.Refers key → s.isFile key = true
  sourced : s.service.db.Sourced

theorem Collects.held {s s' : Store} (hstep : Collects c s s') (h : s.Held c) : s'.Held c := by
  cases hstep with
  | write now key hkey =>
    refine ⟨h.sound, fun key' hfile => ?_, fun key' hrefers => ?_, h.sourced⟩
    · obtain ⟨time, hget⟩ := Dict.contains_iff.mp hfile
      obtain ⟨rfl, -⟩ | ⟨-, hget⟩ := get?_set_cases hget
      · exact hkey
      · exact h.named key' (Dict.contains_iff.mpr ⟨time, hget⟩)
    · exact Dict.contains_iff.mpr (exists_get?_set (Dict.contains_iff.mp (h.refers key' hrefers)))
  | serve hserve =>
    have hgrows := hserve.grows h.sound
    refine ⟨(h.sound.step hserve.step).1, h.named, fun key hrefers => ?_, hgrows.sourced h.sourced⟩
    obtain hold | hnew := hgrows.refers key hrefers
    · exact h.refers key hold
    · exact hnew
  | sweep wallNow minAge hage inUse =>
    refine ⟨h.sound, fun key hfile => ?_, fun key hrefers => ?_, h.sourced⟩
    · obtain ⟨time, hget⟩ := Dict.contains_iff.mp hfile
      exact h.named key (Dict.contains_iff.mpr ⟨time, Objects.sweep_get? hget⟩)
    · have hfile := h.refers key hrefers
      exact Objects.sweep_contains hfile (hrefers.collected (h.named key hfile))

theorem store_held {s : Store} (h : (store c).Reachable s) : s.Held c := by
  refine h.invariant (P := Store.Held c) ?_ fun _ _ _ hs hstep => Collects.held hstep hs
  rintro s rfl
  refine ⟨State.init_sound, fun key hfile => ?_, fun key hrefers => ?_, fun id value hget => ?_⟩
  · obtain ⟨time, hget⟩ := Dict.contains_iff.mp hfile
    cases hget
  · cases hrefers with
    | part id idx part hpart hkept hkey => cases hpart
    | source id value hget hstate hkey => cases hget
    | output job hjob hdone hkind hstate hkey => cases hjob
    | completion id completion hget hhandled hstate hkey => cases hget
    | asset id value hget hready hkey => cases hget
  · cases hget

/-- Every reference of a video at work, or played, names an object that is there. -/
theorem objects_kept {s : Store} (h : (store c).Reachable s) :
    (∀ id value idx part, s.service.db.videos.get? id = some value → value.state ≠ .removed → value.state ≠ .expired →
      s.service.db.parts.get? (id, idx) = some part → s.isFile part.key = true) ∧
    (∀ id value, s.service.db.videos.get? id = some value → value.state = .processing ∨ value.state = .ready →
      ∃ key, value.source = some key ∧ s.isFile key = true) ∧
    (∀ job ∈ s.service.db.jobs, job.state = .done → job.kind ≠ .inspect → s.service.db.stateOf job.video = some .processing →
      ∃ assets, job.output = some (.assets assets) ∧ ∀ key ∈ assets.values, s.isFile key = true) ∧
    (∀ id completion, s.service.db.completions.get? id = some completion → completion.handled = false →
      s.service.db.stateOf id = some .processing → ∀ key ∈ completion.assets.values, s.isFile key = true) ∧
    ∀ id value, s.service.db.videos.get? id = some value → value.state = .ready →
      ∀ key ∈ value.assets.values, s.isFile key = true := by
  have hs := store_held h
  refine ⟨fun id value idx part hget hremoved hexpired hpart => ?_, fun id value hget hstate => ?_,
    fun job hjob hdone hkind hstate => ?_, fun id completion hget hhandled hstate key hkey => ?_,
    fun id value hget hready key hkey => ?_⟩
  · refine hs.refers _ (.part id idx part hpart (fun hgone => ?_) rfl)
    exact (Db.Gone.state hgone hget).elim hremoved hexpired
  · obtain ⟨key, hkey⟩ := hs.sourced id value hget hstate
    exact ⟨key, hkey, hs.refers key (.source id value hget hstate hkey)⟩
  · obtain ⟨assets, houtput, -⟩ := (hs.sound.db.fine job hjob).output hdone hkind
    exact ⟨assets, houtput, fun key hkey => hs.refers key (.output job hjob hdone hkind hstate ⟨assets, houtput, hkey⟩)⟩
  · exact hs.refers key (.completion id completion hget hhandled hstate hkey)
  · exact hs.refers key (.asset id value hget hready hkey)

def clipKey : String := String.ofList (List.replicate 64 'a')

/-- A part is written long before its row; the sweep that comes after keeps it. -/
theorem objects_kept_clip : ∃ s, (store clipSetup).Reachable s ∧
    (s.service.db.parts.get? ("a", 0)).map (·.key) = some clipKey ∧ s.isFile clipKey = true := by
  have h0 : (store clipSetup).Reachable ⟨init, .empty⟩ := .start rfl
  have h1 := h0.step (.serve (.create 0 "alice" "clip" 1 1 60 rfl))
  have h2 := h1.step (.write 0 clipKey (by decide +kernel))
  have h3 := h2.step (.serve (.putPart "a" 0 clipKey 1 rfl))
  have h4 := h3.step (.sweep 9000 3600 (by norm_num) fun _ => false)
  have hkept := (objects_kept h4).1 "a" _ 0 ⟨clipKey, 1⟩ rfl (by decide) (by decide) rfl
  exact ⟨_, h4, rfl, hkept⟩

end SystemDesign.VideoStreaming
