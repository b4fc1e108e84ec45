import SystemDesign.Chat.Push

/-!
An offline push is acknowledged once, for a reason, whatever consumers do.

A token is drawn once, so a handle whose token is the stored one has held the lock since it read the
attempts: they are still the stored ones when it writes them. A handle that lost its lock writes nothing.
-/

namespace SystemDesign.Chat.Push

open List hiding lt_irrefl not_le not_lt
open Function (update update_apply update_of_ne update_self)

variable {c : Worker} {s s' : System} {token entry : ℕ}

/-! ### The programs -/

variable {r : Redis}

theorem Redis.holder_eq_some (h : r.holder entry = some token) :
    ∃ lock, r.locks entry = some lock ∧ lock.token = token := by
  simp only [Redis.holder, Option.map_eq_some_iff, Option.filter_eq_some_iff] at h
  obtain ⟨lock, ⟨hlock, -⟩, htoken⟩ := h
  exact ⟨lock, hlock, htoken⟩

theorem Redis.owns_iff : r.owns entry token = true ↔ r.holder entry = some token ∧ (r.pending entry).isSome = true := by
  simp [Redis.owns]

theorem Redis.complete_cases {r' : Redis} {letter : Option DeadLetter} {ok : Bool}
    (h : r.complete entry token letter = (ok, r')) :
    (ok = true ∧ r.owns entry token = true ∧ r' = { r with
      deadLetters := r.deadLetters ++ letter.toList
      pending := update r.pending entry none
      retries := update r.retries entry none }) ∨ (ok = false ∧ r' = r) := by
  unfold Redis.complete at h
  split at h
  · rename_i howns
    cases h
    exact .inl ⟨rfl, howns, rfl⟩
  · cases h
    exact .inr ⟨rfl, rfl⟩

theorem Redis.lock_cases {r' : Redis} {ttl : ℚ} {ok : Bool} (h : r.lock entry token ttl = (ok, r')) :
    (ok = true ∧ r' = { r with locks := update r.locks entry (some ⟨token, r.clock + ttl⟩) }) ∨ (ok = false ∧ r' = r) := by
  unfold Redis.lock at h
  split at h
  · cases h
    exact .inr ⟨rfl, rfl⟩
  · split at h
    · cases h
      exact .inr ⟨rfl, rfl⟩
    · cases h
      exact .inl ⟨rfl, rfl⟩

/-! ### What holds in every state -/

/-- The attempts that a handle has read: they failed, and as long as its token is stored they are the stored ones. -/
structure Based (s : System) (token entry attempts : ℕ) : Prop where
  failed : attempts ≤ s.failures.count entry
  current : ∀ lock, s.redis.locks entry = some lock → lock.token = token → s.redis.attempts entry = attempts

/-- One attempt more than those that a handle has read. -/
def Counted (c : Worker) (s : System) (token entry attempts : ℕ) : Prop :=
  attempts < c.maxAttempts ∧ attempts ≤ s.failures.count entry ∧ ∃ read, attempts = read + 1 ∧ Based s token entry read

/-- Why an entry may be acknowledged. -/
def Settled (c : Worker) (s : System) (entry : ℕ) : Prop :=
  entry ∈ s.seen ∨ (∃ fields, s.redis.stream[entry]? = some fields ∧ c.identity fields ∈ s.delivered) ∨
    c.maxAttempts ≤ s.failures.count entry

def Phase.Fits (c : Worker) (s : System) (token : ℕ) (handle : Handle) : Phase → Prop
  | .locked | .done => True
  | .read attempts _ | .ready attempts | .delivering attempts => Based s token handle.entry attempts
  | .failed attempts _ => Counted c s token handle.entry attempts
  | .retrying state => Counted c s token handle.entry state.attempts
  | .completing letter => Settled c s handle.entry ∧ ∀ d ∈ letter, d.entry = handle.entry

structure Sound (c : Worker) (s : System) : Prop where
  locks : ∀ entry lock, s.redis.locks entry = some lock → lock.token < s.drawn
  handles : ∀ token handle, s.handles token = some handle → token < s.drawn ∧
    s.redis.stream[handle.entry]? = some handle.fields ∧ handle.phase.Fits c s token handle
  /-- An entry that was delivered to the group is pending or acknowledged. -/
  once : ∀ entry, s.acks.count entry + (if (s.redis.pending entry).isSome then 1 else 0) =
    if entry < s.redis.lastDelivered then 1 else 0
  retries : ∀ entry state, s.redis.retries entry = some state → (s.redis.pending entry).isSome = true ∧
    state.attempts < c.maxAttempts ∧ state.attempts ≤ s.failures.count entry
  settled : ∀ entry ∈ s.acks, Settled c s entry
  letters : ∀ entry, s.redis.deadLetters.countP (·.entry = entry) ≤ s.acks.count entry

theorem Sound.attempts_le (h : Sound c s) (entry : ℕ) : s.redis.attempts entry ≤ s.failures.count entry := by
  unfold Redis.attempts
  cases hstate : s.redis.retries entry with
  | none => exact Nat.zero_le _
  | some state => exact (h.retries entry state hstate).2.2

/-! ### Keeping it -/

/-- What was seen, delivered and failed stays, and the stored attempts are as before while a token stays. -/
structure Later (s s' : System) : Prop where
  stream : ∀ (entry : ℕ) (fields : Fields), s.redis.stream[entry]? = some fields → s'.redis.stream[entry]? = some fields
  seen : s.seen ⊆ s'.seen
  delivered : s.delivered ⊆ s'.delivered
  failures : ∀ entry, s.failures.count entry ≤ s'.failures.count entry

theorem Settled.later (h : Settled c s entry) (hlater : Later s s') : Settled c s' entry := by
  obtain hseen | ⟨fields, hfields, hdelivered⟩ | hfailed := h
  · exact .inl (hlater.seen hseen)
  · exact .inr (.inl ⟨fields, hlater.stream _ _ hfields, hlater.delivered hdelivered⟩)
  · exact .inr (.inr (hfailed.trans (hlater.failures entry)))

/-- A token that is stored afterwards was stored before, over the same attempts. -/
def Held (s s' : System) (token entry : ℕ) : Prop := ∀ lock, s'.redis.locks entry = some lock → lock.token = token →
  (∃ lock, s.redis.locks entry = some lock ∧ lock.token = token) ∧ s'.redis.attempts entry = s.redis.attempts entry

theorem Based.later {attempts : ℕ} (h : Based s token entry attempts) (hlater : Later s s') (hheld : Held s s' token entry) :
    Based s' token entry attempts where
  failed := h.failed.trans (hlater.failures entry)
  current lock hlock htoken := by
    obtain ⟨⟨lock', hlock', htoken'⟩, hsame⟩ := hheld lock hlock htoken
    exact hsame.trans (h.current lock' hlock' htoken')

theorem Phase.Fits.later {handle : Handle} {phase : Phase} (h : phase.Fits c s token handle) (hlater : Later s s')
    (hheld : Held s s' token handle.entry) : phase.Fits c s' token handle := by
  have hcounted : ∀ {attempts}, Counted c s token handle.entry attempts → Counted c s' token handle.entry attempts := by
    rintro attempts ⟨hmax, hfailed, read, heq, hbased⟩
    exact ⟨hmax, hfailed.trans (hlater.failures _), read, heq, hbased.later hlater hheld⟩
  cases phase with
  | locked | done => trivial
  | read | ready | delivering => exact Based.later h hlater hheld
  | failed | retrying => exact hcounted h
  | completing letter => exact ⟨h.1.later hlater, h.2⟩

/-- A step that leaves Redis alone moves one handle, and may see, deliver or fail. -/
theorem Sound.move (h : Sound c s) {handle : Handle} (hhandle : s.handles token = some handle) (phase : Phase)
    (seen failures : List ℕ) (delivered : List String)
    (hfits : phase.Fits c { s with seen := s.seen ++ seen, delivered := s.delivered ++ delivered, failures := s.failures ++ failures }
      token handle) :
    Sound c { s.move token handle phase with
      seen := s.seen ++ seen, delivered := s.delivered ++ delivered, failures := s.failures ++ failures } := by
  have hlater : Later s { s.move token handle phase with
      seen := s.seen ++ seen, delivered := s.delivered ++ delivered, failures := s.failures ++ failures } := by
    refine ⟨fun _ _ hfields => hfields, subset_append_left _ _, subset_append_left _ _, fun entry => ?_⟩
    simp only [count_append]
    omega
  refine ⟨h.locks, fun token' handle' hhandle' => ?_, h.once, fun entry state hstate => ?_,
    fun entry hentry => (h.settled entry hentry).later hlater, h.letters⟩
  · simp only [System.move, update_apply] at hhandle'
    split at hhandle'
    · rename_i hsame
      subst hsame
      cases hhandle'
      obtain ⟨hdrawn, hfields, -⟩ := h.handles _ _ hhandle
      exact ⟨hdrawn, hfields, hfits.later ⟨fun _ _ hfields => hfields, fun _ hx => hx, fun _ hx => hx, fun _ => le_rfl⟩
        fun lock hlock htoken => ⟨⟨lock, hlock, htoken⟩, rfl⟩⟩
    · obtain ⟨hdrawn, hfields, hfits'⟩ := h.handles _ _ hhandle'
      exact ⟨hdrawn, hfields, hfits'.later hlater fun lock hlock htoken => ⟨⟨lock, hlock, htoken⟩, rfl⟩⟩
  · obtain ⟨hpending, hmax, hfailed⟩ := h.retries entry state hstate
    exact ⟨hpending, hmax, hfailed.trans (hlater.failures entry)⟩

/-- A step of Redis under handles that stay. -/
theorem Sound.redis (h : Sound c s) (redis : Redis) (acks : List ℕ)
    (hstream : ∀ (entry : ℕ) (fields : Fields), s.redis.stream[entry]? = some fields → redis.stream[entry]? = some fields)
    (hlocks : ∀ entry lock, redis.locks entry = some lock → lock.token < s.drawn)
    (hheld : ∀ token handle, s.handles token = some handle →
      handle.phase = .done ∨ Held s { s with redis := redis, acks := acks } token handle.entry)
    (honce : ∀ entry, acks.count entry + (if (redis.pending entry).isSome then 1 else 0) = if entry < redis.lastDelivered then 1 else 0)
    (hretries : ∀ entry state, redis.retries entry = some state → (redis.pending entry).isSome = true ∧
      state.attempts < c.maxAttempts ∧ state.attempts ≤ s.failures.count entry)
    (hsettled : ∀ entry ∈ acks, Settled c s entry)
    (hletters : ∀ entry, redis.deadLetters.countP (·.entry = entry) ≤ acks.count entry) :
    Sound c { s with redis := redis, acks := acks } := by
  have hlater : Later s { s with redis := redis, acks := acks } :=
    ⟨hstream, fun _ hx => hx, fun _ hx => hx, fun _ => le_rfl⟩
  refine ⟨hlocks, fun token handle hhandle => ?_, honce, hretries, fun entry hentry => (hsettled entry hentry).later hlater, hletters⟩
  obtain ⟨hdrawn, hfields, hfits⟩ := h.handles token handle hhandle
  refine ⟨hdrawn, hstream _ _ hfields, ?_⟩
  obtain hdone | hheld := hheld token handle hhandle
  · rw [hdone]
    trivial
  · exact hfits.later hlater hheld

/-! ### Each step -/

variable {handle : Handle}

theorem Sound.go (h : Sound c s) (hhandle : s.handles token = some handle) {phase : Phase}
    (hfits : phase.Fits c s token handle) : Sound c (s.move token handle phase) := by
  have hmove := h.move hhandle phase [] [] []
  simp only [append_nil] at hmove
  exact hmove hfits

theorem Sound.done (h : Sound c s) (hhandle : s.handles token = some handle) : Sound c (s.move token handle .done) :=
  h.go hhandle trivial

/-- What the owner of a lock writes on the state of its entry is none of the others' business. -/
theorem held_by_others {redis : Redis} {acks : List ℕ} (hholder : s.redis.holder handle.entry = some token)
    (hlocks : redis.locks = s.redis.locks)
    (hretries : ∀ entry, entry ≠ handle.entry → redis.retries entry = s.redis.retries entry) :
    ∀ token' handle', (s.move token handle .done).handles token' = some handle' → handle'.phase = .done ∨
      Held (s.move token handle .done) { s.move token handle .done with redis := redis, acks := acks } token' handle'.entry := by
  intro token' handle' hhandle'
  simp only [System.move, update_apply] at hhandle'
  split at hhandle'
  · cases hhandle'
    exact .inl rfl
  · rename_i hother
    refine .inr fun lock hlock htoken => ?_
    simp only [hlocks] at hlock
    refine ⟨⟨lock, hlock, htoken⟩, ?_⟩
    have hentry : handle'.entry ≠ handle.entry := by
      intro hsame
      obtain ⟨lock', hlock', htoken'⟩ := Redis.holder_eq_some hholder
      rw [hsame, hlock'] at hlock
      cases hlock
      exact hother (htoken.symm.trans htoken')
    simp only [Redis.attempts, System.move, hretries _ hentry]

theorem Sound.complete (h : Sound c s) {letter : Option DeadLetter} {ok : Bool} {redis : Redis}
    (hhandle : s.handles token = some handle) (hphase : handle.phase = .completing letter)
    (hscript : s.redis.complete handle.entry token letter = (ok, redis)) :
    Sound c { s.move token handle .done with redis := redis, acks := if ok then s.acks ++ [handle.entry] else s.acks } := by
  obtain ⟨rfl, howns, rfl⟩ | ⟨rfl, rfl⟩ := Redis.complete_cases hscript
  · obtain ⟨hholder, hpending⟩ := Redis.owns_iff.mp howns
    obtain ⟨-, -, hfits⟩ := h.handles token handle hhandle
    rw [hphase] at hfits
    obtain ⟨hsettled, hletter⟩ := hfits
    rw [if_pos rfl]
    refine (h.done hhandle).redis _ _ (fun _ _ hfields => hfields) h.locks ?_ ?_ ?_ ?_ ?_
    · exact held_by_others hholder rfl fun entry hne => update_of_ne hne _ _
    · intro entry
      have hbefore := h.once entry
      simp only [count_append, count_singleton, update_apply]
      by_cases hsame : entry = handle.entry
      · subst hsame
        rw [hpending] at hbefore
        simpa using hbefore
      · simp [hsame, Ne.symm hsame, hbefore]
    · intro entry state hstate
      simp only [update_apply] at hstate ⊢
      split at hstate
      · cases hstate
      · rename_i hne
        rw [if_neg hne]
        exact h.retries entry state hstate
    · intro entry hentry
      rw [mem_append, mem_singleton] at hentry
      obtain hentry | rfl := hentry
      · exact h.settled entry hentry
      · exact hsettled
    · intro entry
      have hbefore := h.letters entry
      simp only [countP_append, count_append, count_singleton]
      refine Nat.add_le_add hbefore ?_
      cases letter with
      | none => simp
      | some d =>
        have hd : d.entry = handle.entry := hletter d rfl
        simp [hd]
  · exact h.done hhandle

theorem Sound.retry (h : Sound c s) {handle : Handle} {state : Retry} (hhandle : s.handles token = some handle)
    (hphase : handle.phase = .retrying state) :
    Sound c { s.move token handle .done with redis := (s.redis.retry handle.entry token state).2 } := by
  unfold Redis.retry
  split
  · rename_i howns
    obtain ⟨hholder, hpending⟩ := Redis.owns_iff.mp howns
    obtain ⟨-, -, hfits⟩ := h.handles token handle hhandle
    rw [hphase] at hfits
    obtain ⟨hmax, hfailed, -⟩ := hfits
    refine (h.done hhandle).redis _ s.acks (fun _ _ hfields => hfields) h.locks ?_ h.once ?_ h.settled h.letters
    · exact held_by_others hholder rfl fun entry hne => update_of_ne hne _ _
    · intro entry state' hstate
      simp only [update_apply] at hstate
      split at hstate
      · rename_i hsame
        cases hstate
        rw [hsame]
        exact ⟨hpending, hmax, hfailed⟩
      · exact h.retries entry state' hstate
  · exact h.done hhandle

/-- Locks that are taken by the next token, given back or prolonged. -/
theorem Sound.lock (h : Sound c s) (locks : ℕ → Option Lock)
    (hlocks : ∀ entry lock, locks entry = some lock → ∃ lock', s.redis.locks entry = some lock' ∧ lock'.token = lock.token) :
    Sound c { s with redis := { s.redis with locks := locks } } := by
  refine h.redis _ s.acks (fun _ _ hfields => hfields) ?_ ?_ h.once h.retries h.settled h.letters
  · intro entry lock hlock
    obtain ⟨lock', hlock', htoken⟩ := hlocks entry lock hlock
    exact htoken ▸ h.locks entry lock' hlock'
  · refine fun token handle _ => .inr fun lock hlock htoken => ?_
    obtain ⟨lock', hlock', hsame⟩ := hlocks _ lock hlock
    exact ⟨⟨lock', hlock', hsame.trans htoken⟩, rfl⟩

/-- A handle that begins with the next token. -/
theorem Sound.spawn (h : Sound c s) {fields : Fields} (hfields : s.redis.stream[entry]? = some fields) (expires : ℚ) :
    Sound c { s with
      redis := { s.redis with locks := update s.redis.locks entry (some ⟨s.drawn, expires⟩) }
      drawn := s.drawn + 1
      handles := update s.handles s.drawn (some ⟨entry, fields, .locked⟩) } := by
  refine ⟨fun entry' lock hlock => ?_, fun token handle hhandle => ?_, h.once, h.retries, h.settled, h.letters⟩
  · simp only [update_apply] at hlock
    split at hlock
    · cases hlock
      exact Nat.lt_succ_self _
    · exact (h.locks entry' lock hlock).trans (Nat.lt_succ_self _)
  · simp only [update_apply] at hhandle
    split at hhandle
    · rename_i hsame
      cases hhandle
      exact ⟨hsame ▸ Nat.lt_succ_self _, hfields, trivial⟩
    · obtain ⟨hdrawn, hfields', hfits⟩ := h.handles token handle hhandle
      refine ⟨hdrawn.trans (Nat.lt_succ_self _), hfields', hfits.later
        ⟨fun _ _ hx => hx, fun _ hx => hx, fun _ hx => hx, fun _ => le_rfl⟩ fun lock hlock htoken => ?_⟩
      simp only [update_apply] at hlock
      split at hlock
      · cases hlock
        exact absurd htoken (Nat.ne_of_gt hdrawn)
      · exact ⟨⟨lock, hlock, htoken⟩, rfl⟩

/-- Numbers that are drawn and batches that change matter to nobody. -/
theorem Sound.draw (h : Sound c s) (batch : ℕ → List ℕ) {drawn : ℕ} (hdrawn : s.drawn ≤ drawn) :
    Sound c { s with batch := batch, drawn := drawn } where
  locks entry lock hlock := (h.locks entry lock hlock).trans_le hdrawn
  handles token handle hhandle := by
    obtain ⟨hlt, hfields, hfits⟩ := h.handles token handle hhandle
    exact ⟨hlt.trans_le hdrawn, hfields, hfits.later ⟨fun _ _ hx => hx, fun _ hx => hx, fun _ hx => hx, fun _ => le_rfl⟩
      fun lock hlock htoken => ⟨⟨lock, hlock, htoken⟩, rfl⟩⟩
  once := h.once
  retries := h.retries
  settled := h.settled
  letters := h.letters

theorem Worker.failure_fits {attempts : ℕ} (error : String) (hbased : Based s token handle.entry attempts) :
    (c.failure handle attempts error).Fits c { s with failures := s.failures ++ [handle.entry] } token handle := by
  have hcount : attempts + 1 ≤ (s.failures ++ [handle.entry]).count handle.entry := by
    rw [count_append, count_singleton_self]
    exact Nat.succ_le_succ hbased.failed
  unfold Worker.failure
  split
  · rename_i hmax
    refine ⟨.inr (.inr (hmax.trans hcount)), fun d hd => ?_⟩
    cases hd
    rfl
  · rename_i hmax
    exact ⟨not_le.mp hmax, hcount, attempts, rfl, Nat.le_of_succ_le hcount, hbased.current⟩

theorem Sound.step (h : Sound c s) {label : Option ℕ} (hstep : Acts c s label s') : Sound c s' := by
  cases hstep with
  | tick now hnow =>
    exact h.redis _ s.acks (fun _ _ hfields => hfields) h.locks
      (fun _ _ _ => .inr fun lock hlock htoken => ⟨⟨lock, hlock, htoken⟩, rfl⟩) h.once h.retries h.settled h.letters
  | append fields =>
    refine h.redis _ s.acks (fun entry fields' hfields => ?_) h.locks
      (fun _ _ _ => .inr fun lock hlock htoken => ⟨⟨lock, hlock, htoken⟩, rfl⟩) h.once h.retries h.settled h.letters
    rw [getElem?_append_left (List.getElem?_eq_some_iff.mp hfields).1, hfields]
  | claim consumer entries hcount hidle =>
    have hsame : ∀ entry, ((s.redis.claim consumer entries).pending entry).isSome = (s.redis.pending entry).isSome := by
      intro entry
      simp only [Redis.claim]
      split
      · rename_i hmem
        obtain ⟨p, hp, -⟩ := hidle entry hmem
        rw [hp]
        rfl
      · rfl
    refine (h.redis (s.redis.claim consumer entries) s.acks (fun _ _ hfields => hfields) h.locks
      (fun _ _ _ => .inr fun lock hlock htoken => ⟨⟨lock, hlock, htoken⟩, rfl⟩) (fun entry => ?_) (fun entry state hstate => ?_)
      h.settled h.letters).draw _ le_rfl
    · rw [hsame]
      exact h.once entry
    · rw [hsame]
      exact h.retries entry state hstate
  | fetch consumer count hcount hstream =>
    have hsome : ∀ entry, ((s.redis.fetch consumer count).pending entry).isSome =
        (decide (s.redis.lastDelivered ≤ entry ∧ entry < s.redis.lastDelivered + count) || (s.redis.pending entry).isSome) := by
      intro entry
      simp only [Redis.fetch]
      split <;> simp_all
    refine (h.redis (s.redis.fetch consumer count) s.acks (fun _ _ hfields => hfields) h.locks
      (fun _ _ _ => .inr fun lock hlock htoken => ⟨⟨lock, hlock, htoken⟩, rfl⟩) (fun entry => ?_) (fun entry state hstate => ?_)
      h.settled h.letters).draw _ le_rfl
    · have hbefore := h.once entry
      rw [hsome]
      change _ = if entry < s.redis.lastDelivered + count then 1 else 0
      by_cases hdelivered : entry < s.redis.lastDelivered
      · rw [if_pos hdelivered] at hbefore
        rw [if_pos (Nat.lt_add_right count hdelivered)]
        simpa [not_le.mpr hdelivered] using hbefore
      · rw [if_neg hdelivered, Nat.add_eq_zero_iff] at hbefore
        rw [hbefore.1]
        have hpending : (s.redis.pending entry).isSome = false := by simpa using hbefore.2
        simp [hpending, not_lt.mp hdelivered]
    · obtain ⟨hpending, hrest⟩ := h.retries entry state hstate
      refine ⟨?_, hrest⟩
      rw [hsome, hpending, Bool.or_true]
  | abandon consumer => exact h.draw _ le_rfl
  | lock consumer entry rest fields hbatch hfields hlock =>
    obtain ⟨rfl, rfl⟩ | ⟨rfl, rfl⟩ := Redis.lock_cases hlock
    · exact (h.spawn hfields _).draw _ le_rfl
    · exact h.draw _ (Nat.le_succ _)
  | renew token handle hhandle =>
    unfold Redis.renew
    split
    · rename_i hholder
      obtain ⟨lock, hlock, htoken⟩ := Redis.holder_eq_some hholder
      refine h.lock _ fun entry lock' hlock' => ?_
      simp only [update_apply] at hlock'
      split at hlock'
      · rename_i hsame
        cases hlock'
        exact ⟨lock, hsame ▸ hlock, htoken⟩
      · exact ⟨lock', hlock', rfl⟩
    · exact h
  | release token handle hhandle =>
    unfold Redis.release
    split
    · refine h.lock _ fun entry lock hlock => ?_
      simp only [update_apply] at hlock
      split at hlock
      · cases hlock
      · exact ⟨lock, hlock, rfl⟩
    · exact h
  | read token handle hhandle hphase =>
    have hfits : (Phase.read (s.redis.attempts handle.entry) ((s.redis.retries handle.entry).elim 0 Retry.due)).Fits c s token handle :=
      ⟨h.attempts_le _, fun _ _ _ => rfl⟩
    exact h.go hhandle hfits
  | begin token handle hhandle attempts due hphase =>
    have hfits := (h.handles token handle hhandle).2.2
    rw [hphase] at hfits
    split
    · exact h.done hhandle
    · exact h.go hhandle hfits
  | online token handle hhandle attempts hphase =>
    have hseen : handle.entry ∈ s.seen ++ [handle.entry] := by simp
    have hmove := h.move hhandle (.completing none) [handle.entry] [] [] ⟨.inl hseen, nofun⟩
    simp only [append_nil] at hmove
    exact hmove
  | offline token handle hhandle attempts hphase =>
    have hfits := (h.handles token handle hhandle).2.2
    rw [hphase] at hfits
    exact h.go hhandle hfits
  | deliver token handle hhandle attempts hphase =>
    have hdelivered : c.identity handle.fields ∈ s.delivered ++ [c.identity handle.fields] := by simp
    have hfields := (h.handles token handle hhandle).2.1
    have hmove := h.move hhandle (.completing none) [] [] [c.identity handle.fields] ⟨.inr (.inl ⟨_, hfields, hdelivered⟩), nofun⟩
    simp only [append_nil] at hmove
    exact hmove
  | fail token handle hhandle attempts hphase error =>
    have hfits := (h.handles token handle hhandle).2.2
    rw [hphase] at hfits
    have hmove := h.move hhandle (c.failure handle attempts error) [] [handle.entry] []
    simp only [append_nil] at hmove
    exact hmove (Worker.failure_fits error hfits)
  | schedule token handle hhandle attempts error hphase =>
    have hfits := (h.handles token handle hhandle).2.2
    rw [hphase] at hfits
    exact h.go hhandle hfits
  | retry token handle hhandle state hphase => exact h.retry hhandle hphase
  | complete token handle hhandle letter hphase hscript => exact h.complete hhandle hphase hscript
  | stop token handle hhandle => exact h.done hhandle

theorem Sound.start : Sound c .start where
  locks _ _ h := by cases h
  handles _ _ h := by cases h
  once _ := rfl
  retries _ _ h := by cases h
  settled _ h := by cases h
  letters _ := le_rfl

theorem push_sound (h : (push c).Reachable s) : Sound c s :=
  h.invariant (fun _ hstart => hstart ▸ .start) fun _ _ _ hsound ⟨_, hstep⟩ => hsound.step hstep

/-! ### Single steps -/

/-- What a step does to the pending entries, their stored attempts and the dead letters. -/
structure Frame (c : Worker) (s s' : System) : Prop where
  acks : s'.acks = s.acks ∨ ∃ entry, s'.acks = s.acks ++ [entry] ∧ (s.redis.pending entry).isSome = true ∧
    s'.redis.pending entry = none
  /-- A dead letter is written with the acknowledgement of its entry. -/
  letters : s'.redis.deadLetters = s.redis.deadLetters ∨ ∃ letter, s'.redis.deadLetters = s.redis.deadLetters ++ [letter] ∧
    s'.acks = s.acks ++ [letter.entry]
  attempts : ∀ entry state, s.redis.retries entry = some state → s'.redis.retries entry = some state ∨
    (∃ state', s'.redis.retries entry = some state' ∧ state.attempts < state'.attempts) ∨
    (s'.redis.retries entry = none ∧ s'.acks = s.acks ++ [entry])

theorem Frame.quiet (hacks : s'.acks = s.acks) (hletters : s'.redis.deadLetters = s.redis.deadLetters)
    (hretries : s'.redis.retries = s.redis.retries) : Frame c s s' where
  acks := .inl hacks
  letters := .inl hletters
  attempts entry state hstate := .inl (by rw [hretries, hstate])

theorem Sound.frame (h : Sound c s) {label : Option ℕ} (hstep : Acts c s label s') : Frame c s s' := by
  cases hstep with
  | tick | append | claim | fetch | abandon | read | begin | online | offline | deliver | fail | schedule | stop =>
    exact .quiet rfl rfl rfl
  | lock consumer entry rest fields hbatch hfields hlock =>
    obtain ⟨-, rfl⟩ | ⟨-, rfl⟩ := Redis.lock_cases hlock
    · exact .quiet rfl rfl rfl
    · exact .quiet rfl rfl rfl
  | renew =>
    unfold Redis.renew
    split
    · exact .quiet rfl rfl rfl
    · exact .quiet rfl rfl rfl
  | release =>
    unfold Redis.release
    split
    · exact .quiet rfl rfl rfl
    · exact .quiet rfl rfl rfl
  | retry token handle hhandle state hphase =>
    unfold Redis.retry
    split
    · rename_i howns
      obtain ⟨lock, hlock, htoken⟩ := Redis.holder_eq_some (Redis.owns_iff.mp howns).1
      have hfits := (h.handles token handle hhandle).2.2
      rw [hphase] at hfits
      obtain ⟨-, -, read, hread, hbased⟩ := hfits
      refine ⟨.inl rfl, .inl rfl, fun entry old hold => ?_⟩
      simp only [update_apply]
      split
      · rename_i hsame
        subst hsame
        have hstored := hbased.current lock hlock htoken
        simp only [Redis.attempts, hold, Option.elim] at hstored
        exact .inr (.inl ⟨state, rfl, by omega⟩)
      · exact .inl hold
    · exact .quiet rfl rfl rfl
  | complete token handle hhandle letter hphase hscript =>
    obtain ⟨rfl, howns, rfl⟩ | ⟨rfl, rfl⟩ := Redis.complete_cases hscript
    · have hfits := (h.handles token handle hhandle).2.2
      rw [hphase] at hfits
      refine ⟨.inr ⟨handle.entry, rfl, (Redis.owns_iff.mp howns).2, update_self _ _ _⟩, ?_, fun entry old hold => ?_⟩
      · cases letter with
        | none => exact .inl (append_nil _)
        | some letter =>
          have hletter : letter.entry = handle.entry := hfits.2 letter rfl
          exact .inr ⟨letter, rfl, by rw [hletter]; rfl⟩
      · simp only [update_apply]
        split
        · rename_i hsame
          exact .inr (.inr ⟨rfl, by rw [hsame]; rfl⟩)
        · exact .inl hold
    · exact .quiet rfl rfl rfl

/-- A handle whose token does not hold the lock writes nothing. -/
theorem Acts.stale (hstep : Acts c s (some token) s') (hhandle : s.handles token = some handle)
    (hstale : s.redis.holder handle.entry ≠ some token) : s'.redis.pending = s.redis.pending ∧
      s'.redis.retries = s.redis.retries ∧ s'.redis.deadLetters = s.redis.deadLetters ∧ s'.acks = s.acks := by
  have howns : ∀ handle', s.handles token = some handle' → s.redis.owns handle'.entry token = false := by
    intro handle' hhandle'
    cases hhandle.symm.trans hhandle'
    simp [Redis.owns, hstale]
  cases hstep with
  | read | begin | online | offline | deliver | fail | schedule | stop => exact ⟨rfl, rfl, rfl, rfl⟩
  | renew =>
    unfold Redis.renew
    split
    · exact ⟨rfl, rfl, rfl, rfl⟩
    · exact ⟨rfl, rfl, rfl, rfl⟩
  | release =>
    unfold Redis.release
    split
    · exact ⟨rfl, rfl, rfl, rfl⟩
    · exact ⟨rfl, rfl, rfl, rfl⟩
  | retry _ handle' hhandle' state hphase =>
    rw [Redis.retry, howns handle' hhandle']
    exact ⟨rfl, rfl, rfl, rfl⟩
  | complete _ handle' hhandle' letter hphase hscript =>
    rw [Redis.complete, howns handle' hhandle'] at hscript
    cases hscript
    exact ⟨rfl, rfl, rfl, rfl⟩

/-! ### Whole runs -/

/-- In every interleaving an entry is acknowledged at most once and for a reason, with at most one dead letter,
which is written with the acknowledgement; its stored attempts only grow, stay below the maximum and go
with the acknowledgement; a handle whose token is not current writes nothing. -/
theorem push_ends_once (h : (push c).Reachable s) :
    (∀ entry, s.acks.count entry ≤ 1 ∧ s.redis.deadLetters.countP (·.entry = entry) ≤ s.acks.count entry) ∧
    (∀ entry ∈ s.acks, s.redis.pending entry = none ∧ Settled c s entry) ∧
    (∀ entry state, s.redis.retries entry = some state → (s.redis.pending entry).isSome = true ∧ state.attempts < c.maxAttempts) ∧
    ∀ label s', Acts c s label s' → Frame c s s' ∧ ∀ token handle, label = some token → s.handles token = some handle →
      s.redis.holder handle.entry ≠ some token → s'.redis.pending = s.redis.pending ∧
        s'.redis.retries = s.redis.retries ∧ s'.redis.deadLetters = s.redis.deadLetters ∧ s'.acks = s.acks := by
  have hsound := push_sound h
  refine ⟨fun entry => ⟨?_, hsound.letters entry⟩, fun entry hentry => ⟨?_, hsound.settled entry hentry⟩,
    fun entry state hstate => ?_, fun label s' hstep => ⟨hsound.frame hstep, ?_⟩⟩
  · have honce := hsound.once entry
    split at honce <;> split at honce <;> omega
  · have honce := hsound.once entry
    have hpositive := count_pos_iff.mpr hentry
    rw [← Option.not_isSome_iff_eq_none]
    intro hpending
    rw [if_pos hpending] at honce
    split at honce <;> omega
  · obtain ⟨hpending, hmax, -⟩ := hsound.retries entry state hstate
    exact ⟨hpending, hmax⟩
  · rintro token handle rfl hhandle hstale
    exact hstep.stale hhandle hstale

/-! ### A push that fails for good -/

def once : Worker := ⟨"chat:", 15000, 1, 1, by decide⟩

/-- With one attempt allowed, the first failure is the last. -/
theorem dead_letter : ∃ s, (push once).Reachable s ∧ s.acks = [0] ∧ s.redis.deadLetters = [⟨0, ⟨"bob", "7"⟩, 1, "TimeoutError"⟩] := by
  have hready : (if (0 : ℚ) < 0 then Phase.done else .ready 0) = .ready 0 := if_neg (lt_irrefl 0)
  have h0 : (push once).Reachable .start := .start rfl
  have h1 := h0.step ⟨_, .append ⟨"bob", "7"⟩⟩
  have h2 := h1.step ⟨_, .fetch 0 1 (by decide) le_rfl⟩
  have h3 := h2.step ⟨_, .lock 0 0 [] ⟨"bob", "7"⟩ rfl rfl rfl⟩
  have h4 := h3.step ⟨_, .read 0 _ rfl rfl⟩
  have h5 := h4.step ⟨_, .begin 0 _ rfl 0 0 rfl⟩
  have h6 := h5.step ⟨_, .offline 0 _ rfl 0 hready⟩
  have h7 := h6.step ⟨_, .fail 0 _ rfl 0 rfl "TimeoutError"⟩
  have h8 := h7.step ⟨_, .complete 0 _ rfl _ rfl (if_pos (by decide +kernel))⟩
  exact ⟨_, h8, rfl, rfl⟩

theorem push_ends_once_dead_letter : ∃ s, (push once).Reachable s ∧ s.acks = [0] ∧ Settled once s 0 ∧
    s.redis.deadLetters.countP (·.entry = 0) ≤ 1 := by
  obtain ⟨s, hreachable, hacks, -⟩ := dead_letter
  obtain ⟨honce, hsettled, -⟩ := push_ends_once hreachable
  exact ⟨s, hreachable, hacks, (hsettled 0 (by simp [hacks])).2, (honce 0).2.trans (honce 0).1⟩

end SystemDesign.Chat.Push
