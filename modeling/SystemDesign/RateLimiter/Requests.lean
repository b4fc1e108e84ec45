import SystemDesign.RateLimiter.Storage

/-!
Rules and results (`config.py`, `algorithms/base.py`): what every algorithm is given and what it answers; sequences of
requests to one key, and what it is to follow an abstract limiter.

A request comes at a reading of the wall clock. The monotonic clock is a function of it: the
deadlines of the storage may run with the wall clock or slower, and stand still where nothing
expires.
-/

namespace SystemDesign.RateLimiter

inductive Algorithm where
  | tokenBucket
  | leakingBucket
  | fixedWindow
  | slidingWindowLog
  | slidingWindowCounter

/-- `RateLimitRule`, as `__post_init__` accepts it. The fields that select requests and keys are
left out. -/
structure RateLimitRule where
  limit : ℕ
  window : ℕ
  algorithm : Algorithm
  capacity : Option ℕ
  limit_range : 1 ≤ limit ∧ limit ≤ 10 ^ 9
  window_range : 1 ≤ window ∧ window ≤ 10 ^ 9
  capacity_range : ∀ c ∈ capacity, (1 ≤ c ∧ c ≤ 10 ^ 9) ∧ c * window ≤ 10 ^ 9 * limit
  capacity_algorithm : capacity.isSome → algorithm = .tokenBucket ∨ algorithm = .leakingBucket

namespace RateLimitRule

theorem once_range : 1 ≤ 1 ∧ 1 ≤ 10 ^ 9 := by decide

theorem uncapped_range : ∀ c ∈ (none : Option ℕ), (1 ≤ c ∧ c ≤ 10 ^ 9) ∧ c * 1 ≤ 10 ^ 9 * 1 := nofun

variable (rule : RateLimitRule)

/-- `rule.capacity or rule.limit`. -/
def bucketCapacity : ℕ := rule.capacity.getD rule.limit

/-- `rule.limit / rule.window`. -/
def rate : ℚ := if 0 < rule.window then rule.limit / rule.window else 0

/-- The lifetime of a bucket's clock record. -/
def bucketClockTtl : ℤ := 2 * max (rule.window : ℤ) ⌈(rule.bucketCapacity * rule.window / rule.limit : ℚ)⌉ + 1

theorem limit_pos : 0 < rule.limit := rule.limit_range.1

theorem window_pos : 0 < rule.window := rule.window_range.1

theorem rate_eq : rule.rate = rule.limit / rule.window := if_pos rule.window_pos

theorem rate_pos : 0 < rule.rate := by
  rw [rate_eq]
  exact div_pos (Nat.cast_pos.mpr rule.limit_pos) (Nat.cast_pos.mpr rule.window_pos)

theorem one_le_bucketCapacity : 1 ≤ rule.bucketCapacity := by
  rw [bucketCapacity]
  cases h : rule.capacity with
  | none => exact rule.limit_pos
  | some c => exact (rule.capacity_range c h).1.1

theorem bucketClockTtl_pos : 0 < rule.bucketClockTtl := by
  have h : (0 : ℤ) ≤ rule.window := Int.natCast_nonneg _
  rw [bucketClockTtl]
  omega

end RateLimitRule

/-- `int(x)` of a number. -/
def truncate (x : ℚ) : ℤ := if 0 ≤ x then ⌊x⌋ else ⌈x⌉

theorem truncate_of_nonneg {x : ℚ} (h : 0 ≤ x) : truncate x = ⌊x⌋ := if_pos h

structure RateLimitResult where
  allowed : Bool
  remaining : ℤ
  limit : ℤ
  resetAfter : ℚ
  retryAfter : Option ℚ

/-- `RateLimitResult.from_storage`. -/
def RateLimitResult.fromStorage (values : Reply) : Except StorageError RateLimitResult := do
  if ¬ (values.flag = 0 ∨ values.flag = 1) ∨ ¬ (0 ≤ values.remaining ∧ values.remaining ≤ values.limit) ∨
      values.limit ≤ 0 then
    throw (.valueError "invalid storage counters")
  if ¬ (0 ≤ values.resetAfter ∧ 0 ≤ values.retryAfter) then throw (.valueError "invalid storage delay")
  if values.flag = 0 ∧ (values.remaining ≠ 0 ∨ values.retryAfter ≤ 0) ∨ values.flag ≠ 0 ∧ values.retryAfter ≠ 0 then
    throw (.valueError "inconsistent storage decision")
  return {
    allowed := values.flag ≠ 0
    remaining := values.remaining
    limit := values.limit
    resetAfter := values.resetAfter
    retryAfter := if values.flag ≠ 0 then none else some values.retryAfter }

theorem fromStorage_allowed {remaining limit : ℤ} {reset : ℚ} (hremaining : 0 ≤ remaining) (hle : remaining ≤ limit)
    (hlimit : 0 < limit) (hreset : 0 ≤ reset) :
    RateLimitResult.fromStorage ⟨1, remaining, limit, reset, 0⟩ = .ok ⟨true, remaining, limit, reset, none⟩ := by
  simp [RateLimitResult.fromStorage, hremaining, hle, hlimit.not_ge, hreset, pure, Except.pure]

theorem fromStorage_denied {limit : ℤ} {reset retry : ℚ} (hlimit : 0 < limit) (hreset : 0 ≤ reset) (hretry : 0 < retry) :
    RateLimitResult.fromStorage ⟨0, 0, limit, reset, retry⟩ = .ok ⟨false, 0, limit, reset, some retry⟩ := by
  simp [RateLimitResult.fromStorage, hlimit.le, hlimit.not_ge, hreset, hretry.le, hretry.not_ge, pure, Except.pure]

end SystemDesign.RateLimiter

namespace SystemDesign.RateLimiter

open MemoryStorage List

variable {ρ A Q : Type}

/-! ### Running requests -/

/-- The storage after a list of requests. -/
def after (check : Q → Under ρ) (s : MemoryStorage) (requests : List Q) : MemoryStorage :=
  requests.foldl (fun s q => ((check q).exec s).2) s

/-- What the requests are answered. -/
def answers (check : Q → Under ρ) : MemoryStorage → List Q → List (Except StorageError ρ)
  | _, [] => []
  | s, q :: requests => ((check q).exec s).1 :: answers check ((check q).exec s).2 requests

/-- The request was answered, and allowed. -/
def isAllowed : Except StorageError RateLimitResult → Bool
  | .ok result => result.allowed
  | .error _ => false

/-- The times of the requests that were allowed. -/
def allowedTimes (times : List ℚ) (answered : List (Except StorageError RateLimitResult)) : List ℚ :=
  ((times.zip answered).filter fun p => isAllowed p.2).map Prod.fst

theorem allowedTimes_cons (t : ℚ) (times : List ℚ) (r : Except StorageError RateLimitResult)
    (answered : List (Except StorageError RateLimitResult)) :
    allowedTimes (t :: times) (r :: answered) =
      if isAllowed r then t :: allowedTimes times answered else allowedTimes times answered := by
  rw [allowedTimes, zip_cons_cons, filter_cons]
  split <;> rfl

/-! ### Clocks -/

/-- The monotonic clock never runs back, and never faster than the wall clock. -/
structure Steady (mono : ℚ → ℚ) : Prop where
  le : ∀ a b, a ≤ b → mono a ≤ mono b
  slow : ∀ a b, a ≤ b → mono b - mono a ≤ b - a

theorem steady_id : Steady id := ⟨fun _ _ h => h, fun _ _ _ => le_rfl⟩

theorem steady_still : Steady fun _ => 0 := ⟨fun _ _ _ => le_rfl, fun a b h => by simpa using h⟩

theorem checkedTime_eq_ok {t : ℚ} : checkedTime t = .ok t ↔ 0 ≤ t ∧ t ≤ 10 ^ 12 := by
  by_cases h : 0 ≤ t ∧ t ≤ 10 ^ 12
  · simp [checkedTime, h]
  · simp [checkedTime, h]

theorem checkedTime_cases (t : ℚ) : checkedTime t = .ok t ∨ ∃ e, checkedTime t = .error e := by
  by_cases h : 0 ≤ t ∧ t ≤ 10 ^ 12
  · exact .inl (checkedTime_eq_ok.mpr h)
  · exact .inr ⟨_, if_neg h⟩

/-- The record of the clock, whenever it is read, holds a time that has passed. -/
def ClockKept (mono : ℚ → ℚ) (clockKey : String) (t : ℚ) (s : MemoryStorage) : Prop :=
  ∀ t', t ≤ t' → s.read (mono t') clockKey = none ∨ ∃ p, s.read (mono t') clockKey = some (.number p) ∧ 0 ≤ p ∧ p ≤ t'

variable {mono : ℚ → ℚ} {s s' : MemoryStorage} {t t' : ℚ} {clockKey firstKey : String} {keys : List String}

theorem ClockKept.later (h : ClockKept mono clockKey t s) (ht : t ≤ t') : ClockKept mono clockKey t' s :=
  fun t'' ht'' => h t'' (ht.trans ht'')

theorem ClockKept.same (hmono : Steady mono) (h : ClockKept mono clockKey t s) (hs : Same (mono t) s s') :
    ClockKept mono clockKey t s' := by
  intro t' ht'
  rw [hs.read _ _ (hmono.le t t' ht')]
  exact h t' ht'

theorem clockKept_put (hpos : 0 ≤ t) (deadline : Option ℚ) : ClockKept mono clockKey t (s.put clockKey (.number t) deadline) := by
  intro t' ht'
  rw [read_put, if_pos rfl]
  split
  · exact .inl rfl
  · exact .inr ⟨t, rfl, hpos, ht'⟩

theorem executeAlgorithm_refused {e : StorageError} (he : checkedTime t = .error e) (m : ℚ) (ttl : ℤ)
    (script : ℚ → Under Reply) (s : MemoryStorage) :
    ∃ s', (executeAlgorithm t m firstKey ttl script).exec s = (.error e, s') ∧ Same m s s' := by
  rw [executeAlgorithm, Locked.exec_bind_ok (Locked.exec_effect _ s)]
  exact ⟨_, Locked.exec_bind_error (by rw [Locked.exec_lift, he]), same_sweep _ _ _ _⟩

/-- Where the clock never ran back, a script runs at the wall clock's time. -/
theorem executeAlgorithm_run (ht : checkedTime t = .ok t) (hclock : ClockKept mono (firstKey ++ ":clock-v2") t s)
    {ttl : ℤ} {script : ℚ → Under Reply} {reply : Reply} {P : MemoryStorage → Prop}
    (hscript : ∀ s', Same (mono t) s s' → ∃ s'' s₃, (script t).exec s' = (.ok reply, s'') ∧
      (setUnlocked (mono t) (firstKey ++ ":clock-v2") (.number t) (some ttl)).exec s'' = (.ok (), s₃) ∧ P s₃) :
    ∃ s₃, (executeAlgorithm t (mono t) firstKey ttl script).exec s = (.ok reply, s₃) ∧ P s₃ := by
  have hswept := same_sweep 64 false (mono t) s
  obtain ⟨s₁, hget, hsame⟩ := getUnlocked_spec (mono t) (firstKey ++ ":clock-v2") (s.sweep 64 false (mono t))
  obtain ⟨s₂, s₃, hrun, hset, hP⟩ := hscript s₁ (hswept.trans hsame)
  have hnow : notBefore ((s.sweep 64 false (mono t)).read (mono t) (firstKey ++ ":clock-v2")) t = .ok t := by
    rw [hswept.read _ _ le_rfl]
    obtain hnone | ⟨p, hp, hpos, hle⟩ := hclock t le_rfl
    · rw [hnone]
      rfl
    · have hchecked : (Stored.toFloat (.number p) >>= checkedTime) = .ok p :=
        checkedTime_eq_ok.mpr ⟨hpos, hle.trans (checkedTime_eq_ok.mp ht).2⟩
      rw [hp, notBefore, hchecked, Except.map, max_eq_left hle]
  refine ⟨s₃, ?_, hP⟩
  rw [executeAlgorithm, Locked.exec_bind_ok (Locked.exec_effect _ s),
    Locked.exec_bind_ok (by rw [Locked.exec_lift, ht]), Locked.exec_bind_ok hget,
    Locked.exec_bind_ok (by rw [Locked.exec_lift, hnow]), Locked.exec_bind_ok hrun, Locked.exec_bind_ok hset,
    sub_self, delayForClockRegression, if_pos rfl, Locked.exec_pure]

/-- The same for a subject whose keys all find room. -/
theorem executeAlgorithm_served (ht : checkedTime t = .ok t)
    (hclock : ClockKept mono (firstKey ++ ":clock-v2") t s) {ttl : ℤ} (httl : 0 < ttl)
    (hkey : firstKey ++ ":clock-v2" ∈ keys) {script : ℚ → Under Reply} {reply : Reply} {P : MemoryStorage → Prop}
    (hscript : ∀ s', Same (mono t) s s' → ∃ s'', (script t).exec s' = (.ok reply, s'') ∧ P s'' ∧ s''.Holds keys) :
    ∃ s'', (executeAlgorithm t (mono t) firstKey ttl script).exec s =
        (.ok reply, s''.put (firstKey ++ ":clock-v2") (.number t) (deadline (mono t) (some ttl))) ∧
      P s'' ∧ s''.Holds keys := by
  have hseconds : ∀ seconds ∈ some ttl, 0 < seconds := fun seconds h => Option.mem_some.mp h ▸ httl
  obtain ⟨_, hrun, s₂, rfl, hP, hholds⟩ := executeAlgorithm_run ht hclock (P := fun s₃ => ∃ s'',
      s''.put (firstKey ++ ":clock-v2") (.number t) (deadline (mono t) (some ttl)) = s₃ ∧ P s'' ∧ s''.Holds keys)
    fun s' hs' => by
      obtain ⟨s'', hrun, hP, hholds⟩ := hscript s' hs'
      exact ⟨s'', _, hrun, setUnlocked_spec (mono t) (.number t) hholds hkey hseconds, s'', rfl, hP, hholds⟩
  exact ⟨s₂, hrun, hP, hholds⟩

theorem exists_start {times : List ℚ} (h : times.Pairwise (· ≤ ·)) : ∃ t, (t :: times).Pairwise (· ≤ ·) := by
  cases times with
  | nil => exact ⟨0, pairwise_singleton _ _⟩
  | cons t times => exact ⟨t, pairwise_cons.mpr ⟨forall_mem_cons.mpr ⟨le_rfl, (pairwise_cons.mp h).1⟩, h⟩⟩

theorem exists_end {times : List ℚ} (h : (t :: times).Pairwise (· ≤ ·)) :
    ∃ t', (t :: times ++ [t']).Pairwise (· ≤ ·) := by
  induction times generalizing t with
  | nil => exact ⟨t, by simp⟩
  | cons t₁ times ih =>
    obtain ⟨hfirst, hrest⟩ := pairwise_cons.mp h
    obtain ⟨t', ht'⟩ := ih hrest
    have hle : t₁ ≤ t' := (pairwise_cons.mp ht').1 t' (by simp)
    refine ⟨t', pairwise_cons.mpr ⟨fun x hx => ?_, ht'⟩⟩
    obtain hx | hx := mem_append.mp hx
    · exact hfirst x hx
    · exact mem_singleton.mp hx ▸ (hfirst t₁ mem_cons_self).trans hle

/-! ### Following an abstract limiter -/

variable {time : Q → ℚ}

/-- A request that the clock accepts moves the abstract limiter on. -/
def advance (time : Q → ℚ) (next : A → Q → A) (a : A) (q : Q) : A :=
  if 0 ≤ time q ∧ time q ≤ 10 ^ 12 then next a q else a

def replies (time : Q → ℚ) (answer : A → Q → ρ) (next : A → Q → A) : A → List Q → List (Except StorageError ρ)
  | _, [] => []
  | a, q :: requests =>
    (checkedTime (time q)).map (fun _ => answer a q) :: replies time answer next (advance time next a q) requests

variable {next : A → Q → A}

theorem replies_accepted {answer : A → Q → ρ} {a : A} {q : Q} (h : 0 ≤ time q ∧ time q ≤ 10 ^ 12) (requests : List Q) :
    replies time answer next a (q :: requests) = .ok (answer a q) :: replies time answer next (next a q) requests := by
  rw [replies, checkedTime_eq_ok.mpr h, advance, if_pos h, Except.map]

theorem replies_refused {answer : A → Q → ρ} {a : A} {q : Q} (h : ¬ (0 ≤ time q ∧ time q ≤ 10 ^ 12))
    (requests : List Q) : ∃ e, replies time answer next a (q :: requests) =
      .error e :: replies time answer next a requests := by
  refine ⟨.valueError "clock must be finite and in 0..1e12", ?_⟩
  rw [replies, checkedTime, if_neg h, advance, if_neg h, Except.map]

/-- `R t a s`: from time `t` on, the storage shows what the abstract limiter is in. -/
structure Follows (time : Q → ℚ) (check : Q → Under ρ) (answer : A → Q → ρ) (next : A → Q → A)
    (R : ℚ → A → MemoryStorage → Prop) : Prop where
  later : ∀ t t' a s, R t a s → t ≤ t' → R t' a s
  refused : ∀ q a s e, R (time q) a s → checkedTime (time q) = .error e →
    ∃ s', (check q).exec s = (.error e, s') ∧ R (time q) a s'
  served : ∀ q a s, R (time q) a s → checkedTime (time q) = .ok (time q) →
    ∃ s', (check q).exec s = (.ok (answer a q), s') ∧ R (time q) (next a q) s'

namespace Follows

variable {check : Q → Under ρ} {answer : A → Q → ρ} {next : A → Q → A} {R : ℚ → A → MemoryStorage → Prop}
  {a : A} {q : Q} {requests : List Q}

theorem step (h : Follows time check answer next R) (hs : R (time q) a s) :
    ((check q).exec s).1 = (checkedTime (time q)).map (fun _ => answer a q) ∧
      R (time q) (advance time next a q) ((check q).exec s).2 := by
  obtain ht | ⟨e, ht⟩ := checkedTime_cases (time q)
  · obtain ⟨s', hrun, hs'⟩ := h.served q a s hs ht
    rw [hrun, ht, advance, if_pos (checkedTime_eq_ok.mp ht)]
    exact ⟨rfl, hs'⟩
  · obtain ⟨s', hrun, hs'⟩ := h.refused q a s e hs ht
    have hnot : ¬ (0 ≤ time q ∧ time q ≤ 10 ^ 12) := fun hok => by
      rw [checkedTime_eq_ok.mpr hok] at ht
      cases ht
    rw [hrun, ht, advance, if_neg hnot]
    exact ⟨rfl, hs'⟩

theorem answers_eq (h : Follows time check answer next R) (hs : R t a s)
    (hsorted : (t :: requests.map time).Pairwise (· ≤ ·)) :
    answers check s requests = replies time answer next a requests := by
  induction requests generalizing t a s with
  | nil => rfl
  | cons q requests ih =>
    obtain ⟨hfirst, hrest⟩ := pairwise_cons.mp hsorted
    obtain ⟨hanswer, hs'⟩ := h.step (h.later t (time q) a s hs (hfirst (time q) mem_cons_self))
    rw [answers, replies, hanswer, ih hs' hrest]

/-- A request that was answered moved the abstract limiter on. -/
theorem answered (h : Follows time check answer next R) (hs : R (time q) a s) {result : ρ}
    (hrun : (check q).exec s = (.ok result, s')) :
    checkedTime (time q) = .ok (time q) ∧ result = answer a q ∧ R (time q) (next a q) s' := by
  obtain ⟨hanswer, hs'⟩ := h.step hs
  rw [hrun] at hanswer hs'
  obtain ht | ⟨e, ht⟩ := checkedTime_cases (time q)
  · rw [ht] at hanswer
    rw [advance, if_pos (checkedTime_eq_ok.mp ht)] at hs'
    exact ⟨ht, Except.ok.inj hanswer, hs'⟩
  · rw [ht] at hanswer
    cases hanswer

theorem after_eq (h : Follows time check answer next R) (hs : R t a s)
    (hsorted : (t :: requests.map time ++ [t']).Pairwise (· ≤ ·)) :
    R t' (requests.foldl (advance time next) a) (after check s requests) := by
  induction requests generalizing t a s with
  | nil => exact h.later t t' a s hs ((pairwise_cons.mp hsorted).1 t' mem_cons_self)
  | cons q requests ih =>
    obtain ⟨hfirst, hrest⟩ := pairwise_cons.mp hsorted
    obtain ⟨-, hs'⟩ := h.step (h.later t (time q) a s hs (hfirst (time q) mem_cons_self))
    exact ih hs' hrest

end Follows

/-- What follows an abstract limiter still does when its answers are decoded. -/
theorem Follows.decoded {call : Q → Under Reply} {answer : A → Q → Reply} {result : A → Q → RateLimitResult}
    {R : ℚ → A → MemoryStorage → Prop} (h : Follows time call answer next R)
    (hresult : ∀ q a s, R (time q) a s → RateLimitResult.fromStorage (answer a q) = .ok (result a q)) :
    Follows time (fun q => do Locked.lift (RateLimitResult.fromStorage (← call q))) result next R := by
  refine ⟨h.later, fun q a s e hs he => ?_, fun q a s hs ht => ?_⟩
  · obtain ⟨s', hrun, hs'⟩ := h.refused q a s e hs he
    exact ⟨s', Locked.exec_bind_error hrun, hs'⟩
  · obtain ⟨s', hrun, hs'⟩ := h.served q a s hs ht
    refine ⟨s', ?_, hs'⟩
    rw [Locked.exec_bind_ok hrun, Locked.exec_lift, hresult q a s hs]

end SystemDesign.RateLimiter
