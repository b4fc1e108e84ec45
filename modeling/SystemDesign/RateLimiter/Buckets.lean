import SystemDesign.Lib.Bucket
import SystemDesign.RateLimiter.Requests

/-!
The token bucket and the leaking bucket (`algorithms/token_bucket.py`,
`algorithms/leaking_bucket.py`).

Both read two records, decide and write both back, so one script serves both with the decision as
a parameter; the decisions are the source's own. The argument texts of a script are the numbers they are
written from.
-/

namespace SystemDesign.RateLimiter

open MemoryStorage

/-- `x / rate if rate > 0 else 0.0`. -/
def perRate (rate x : ℚ) : ℚ := if 0 < rate then x / rate else 0

def floatOr (default : ℚ) : Option Stored → Except StorageError ℚ
  | none => .ok default
  | some text => text.toFloat

/-- The lifetime of a bucket's records. -/
def bucketTtl (capacity rate : ℚ) : Option ℤ := if 0 < rate then some (truncate (capacity / rate) + 1) else none

/-- What both bucket scripts do with the storage: `decision` is given the level and the time since it was
written. -/
def bucketScript (monotonic : ℚ) (levelKey timeKey : String) (start : ℚ) (ttl : Option ℤ)
    (decision : ℚ → ℚ → ℚ × Reply) (now : ℚ) : Under Reply := do
  let rawLevel ← getUnlocked monotonic levelKey
  let rawTime ← getUnlocked monotonic timeKey
  let level ← Locked.lift (floatOr start rawLevel)
  let time ← Locked.lift (floatOr now rawTime)
  let decided := decision level (now - time)
  setUnlocked monotonic levelKey (.number decided.1) ttl
  setUnlocked monotonic timeKey (.number now) ttl
  return decided.2

/-! ### Token bucket -/

def tokenDecision (capacity refillRate tokens elapsed : ℚ) : ℚ × Reply :=
  let tokens := if 0 < elapsed then min capacity (tokens + elapsed * refillRate) else tokens
  if 1 ≤ tokens then
    let tokens := tokens - 1
    (tokens, {
      flag := 1
      remaining := truncate tokens
      limit := truncate capacity
      resetAfter := perRate refillRate (capacity - tokens)
      retryAfter := 0 })
  else
    let deficit := 1 - tokens
    (tokens, {
      flag := 0
      remaining := 0
      limit := truncate capacity
      resetAfter := perRate refillRate (capacity - tokens)
      retryAfter := perRate refillRate deficit })

/-- `_memory_token_bucket_script`. -/
def memoryTokenBucketScript (monotonic : ℚ) (tokensKey lastRefillKey : String) (capacity refillRate now : ℚ) :
    Under Reply :=
  bucketScript monotonic tokensKey lastRefillKey capacity (bucketTtl capacity refillRate)
    (tokenDecision capacity refillRate) now

def tokensKey (key : String) : String := key ++ ":tokens"

def lastRefillKey (key : String) : String := key ++ ":last_refill"

/-- The call of `TokenBucketAlgorithm.check` with its capacity and rate. -/
def tokenBucket (key : String) (capacity rate : ℚ) (ttl : ℤ) (monotonic wall : ℚ) : Under Reply :=
  executeAlgorithm wall monotonic (tokensKey key) ttl
    (memoryTokenBucketScript monotonic (tokensKey key) (lastRefillKey key) capacity rate)

/-- `TokenBucketAlgorithm.check`. -/
def TokenBucket.check (rule : RateLimitRule) (key : String) (mono : ℚ → ℚ) (wall : ℚ) : Under RateLimitResult := do
  let result ← tokenBucket key rule.bucketCapacity rule.rate rule.bucketClockTtl (mono wall) wall
  Locked.lift (RateLimitResult.fromStorage result)

/-! ### Leaking bucket -/

def leakDecision (capacity drainRate queueCount elapsed : ℚ) : ℚ × Reply :=
  let queueCount := if 0 < elapsed ∧ 0 < drainRate then max 0 (queueCount - elapsed * drainRate) else queueCount
  if queueCount + 1 ≤ capacity then
    let queueCount := queueCount + 1
    (queueCount, {
      flag := 1
      remaining := truncate (capacity - queueCount)
      limit := truncate capacity
      resetAfter := perRate drainRate queueCount
      retryAfter := 0 })
  else
    (queueCount, {
      flag := 0
      remaining := 0
      limit := truncate capacity
      resetAfter := perRate drainRate queueCount
      retryAfter := perRate drainRate (queueCount - capacity + 1) })

/-- `_memory_leaking_bucket_script`. -/
def memoryLeakingBucketScript (monotonic : ℚ) (queueCountKey lastDrainKey : String) (capacity drainRate now : ℚ) :
    Under Reply :=
  bucketScript monotonic queueCountKey lastDrainKey 0 (bucketTtl capacity drainRate)
    (leakDecision capacity drainRate) now

def queueCountKey (key : String) : String := key ++ ":queue_count"

def lastDrainKey (key : String) : String := key ++ ":last_drain"

/-- The call of `LeakingBucketAlgorithm.check` with its capacity and rate. -/
def leakingBucket (key : String) (capacity rate : ℚ) (ttl : ℤ) (monotonic wall : ℚ) : Under Reply :=
  executeAlgorithm wall monotonic (queueCountKey key) ttl
    (memoryLeakingBucketScript monotonic (queueCountKey key) (lastDrainKey key) capacity rate)

/-- `LeakingBucketAlgorithm.check`. -/
def LeakingBucket.check (rule : RateLimitRule) (key : String) (mono : ℚ → ℚ) (wall : ℚ) : Under RateLimitResult := do
  let result ← leakingBucket key rule.bucketCapacity rule.rate rule.bucketClockTtl (mono wall) wall
  Locked.lift (RateLimitResult.fromStorage result)

/-! ### One bucket behind both -/

/-- What a bucket with this many tokens answers. -/
def bucketReply (capacity rate available : ℚ) : Reply :=
  if 1 ≤ available then {
    flag := 1
    remaining := truncate (available - 1)
    limit := truncate capacity
    resetAfter := perRate rate (capacity - (available - 1))
    retryAfter := 0 }
  else {
    flag := 0
    remaining := 0
    limit := truncate capacity
    resetAfter := perRate rate (capacity - available)
    retryAfter := perRate rate (1 - available) }

/-- The decision is that of a bucket whose tokens are written down as `level`. -/
structure Decides (capacity rate : ℚ) (level : ℚ → ℚ) (start : ℚ) (decision : ℚ → ℚ → ℚ × Reply) : Prop where
  start_eq : start = level capacity
  decision_eq : ∀ (b : Bucket ℚ) (now : ℚ), b.Holds capacity → b.since ≤ now →
    decision (level b.tokens) (now - b.since) =
      (level (b.next capacity rate now).tokens, bucketReply capacity rate (b.available capacity rate now))

variable {capacity rate : ℚ}

theorem refill_eq {b : Bucket ℚ} {now : ℚ} (h : b.Holds capacity) (hnow : b.since ≤ now) :
    (if 0 < now - b.since then min capacity (b.tokens + (now - b.since) * rate) else b.tokens) =
      b.available capacity rate now := by
  obtain hlt | heq := hnow.lt_or_eq
  · rw [if_pos (sub_pos.mpr hlt), Bucket.available]
  · rw [if_neg (by simp [heq]), ← heq, h.available_since]

theorem tokenDecision_decides (capacity rate : ℚ) :
    Decides capacity rate id capacity (tokenDecision capacity rate) := by
  refine ⟨rfl, fun b now h hnow => ?_⟩
  simp only [tokenDecision, id_eq, refill_eq h hnow, Bucket.next, bucketReply]
  split <;> rfl

/-- What drains from the queue is what the bucket regains. -/
theorem drain_eq (hrate : 0 ≤ rate) {b : Bucket ℚ} {now : ℚ} (h : b.Holds capacity) (hnow : b.since ≤ now) :
    (if 0 < now - b.since ∧ 0 < rate then max 0 (capacity - b.tokens - (now - b.since) * rate)
      else capacity - b.tokens) = capacity - b.available capacity rate now := by
  by_cases hpos : 0 < now - b.since ∧ 0 < rate
  · rw [if_pos hpos, Bucket.available, ← max_sub_sub_left, sub_self, sub_sub]
  · rw [if_neg hpos]
    obtain hlt | heq := hnow.lt_or_eq
    · have hzero : rate = 0 := le_antisymm (not_lt.mp fun hlt' => hpos ⟨sub_pos.mpr hlt, hlt'⟩) hrate
      rw [Bucket.available, hzero, mul_zero, add_zero, min_eq_right h.le]
    · rw [← heq, h.available_since]

theorem leakDecision_decides (capacity : ℚ) (hrate : 0 ≤ rate) :
    Decides capacity rate (capacity - ·) 0 (leakDecision capacity rate) := by
  refine ⟨(sub_self _).symm, fun b now h hnow => ?_⟩
  simp only [leakDecision, drain_eq hrate h hnow, Bucket.next, bucketReply]
  have hroom : capacity - b.available capacity rate now + 1 ≤ capacity ↔ 1 ≤ b.available capacity rate now := by
    constructor
    · intro hle
      linarith
    · intro hle
      linarith
  by_cases hone : 1 ≤ b.available capacity rate now
  · simp only [if_pos hone, if_pos (hroom.mpr hone)]
    rw [show capacity - b.available capacity rate now + 1 = capacity - (b.available capacity rate now - 1) by ring,
      sub_sub_cancel]
  · simp only [if_neg hone, if_neg (mt hroom.mp hone)]
    rw [show capacity - b.available capacity rate now - capacity + 1 = 1 - b.available capacity rate now by ring]

end SystemDesign.RateLimiter
