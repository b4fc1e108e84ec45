import SystemDesign.RateLimiter.BucketRuns

/-!
What the two buckets promise: the bound over every interval, the exact retry, and that they are
one bucket seen from both ends.
-/

namespace SystemDesign.RateLimiter

open MemoryStorage

/-! ### Keys -/

theorem tokenKeys (key : String) : BucketKeys (tokensKey key) (lastRefillKey key) := by
  refine ⟨append_ne (by decide), ne_append (by decide), ?_⟩
  rw [tokensKey, lastRefillKey, String.append_assoc]
  exact append_ne (by decide)

theorem leakKeys (key : String) : BucketKeys (queueCountKey key) (lastDrainKey key) := by
  refine ⟨append_ne (by decide), ne_append (by decide), ?_⟩
  rw [queueCountKey, lastDrainKey, String.append_assoc]
  exact append_ne (by decide)

/-! ### Results -/

/-- What a rule's bucket answers with this many tokens. -/
def bucketResult (capacity : ℕ) (rate available : ℚ) : RateLimitResult where
  allowed := decide (1 ≤ available)
  remaining := if 1 ≤ available then truncate (available - 1) else 0
  limit := capacity
  resetAfter := if 1 ≤ available then (capacity - (available - 1)) / rate else (capacity - available) / rate
  retryAfter := if 1 ≤ available then none else some ((1 - available) / rate)

theorem truncate_natCast (n : ℕ) : truncate n = n := by
  rw [truncate_of_nonneg (Nat.cast_nonneg n), Int.floor_natCast]

/-- What a bucket script returns passes the check of its fields. -/
theorem fromStorage_bucketReply {capacity : ℕ} {rate available : ℚ} (hcapacity : 1 ≤ capacity) (hrate : 0 < rate)
    (hle : available ≤ capacity) :
    RateLimitResult.fromStorage (bucketReply capacity rate available) = .ok (bucketResult capacity rate available) := by
  have hlimit : (0 : ℤ) < capacity := by omega
  by_cases hone : 1 ≤ available
  · have hleft : 0 ≤ available - 1 := sub_nonneg.mpr hone
    have hreset : 0 ≤ (capacity - (available - 1)) / rate := div_nonneg (by linarith) hrate.le
    have hremaining : ⌊available - 1⌋ ≤ (capacity : ℤ) := by
      rw [← Int.floor_natCast (R := ℚ)]
      exact Int.floor_le_floor (by linarith)
    have hallowed := fromStorage_allowed (Int.floor_nonneg.mpr hleft) hremaining hlimit hreset
    simpa only [bucketReply, bucketResult, if_pos hone, truncate_natCast, truncate_of_nonneg hleft, perRate, if_pos hrate,
      decide_eq_true hone] using hallowed
  · have hretry : 0 < (1 - available) / rate := div_pos (by linarith) hrate
    have hreset : 0 ≤ (capacity - available) / rate := div_nonneg (by linarith) hrate.le
    have hdenied := fromStorage_denied hlimit hreset hretry
    simpa only [bucketReply, bucketResult, if_neg hone, truncate_natCast, perRate, if_pos hrate, decide_eq_false hone]
      using hdenied

section Rules

variable (rule : RateLimitRule) (key : String) {mono : ℚ → ℚ}

theorem tokenBucket_follows (hmono : Steady mono) : Follows id (TokenBucket.check rule key mono)
      (fun b t => bucketResult rule.bucketCapacity rule.rate (b.available rule.bucketCapacity rule.rate t))
      (fun b t => b.next rule.bucketCapacity rule.rate t)
      (BucketKept rule.bucketCapacity rule.rate id (tokensKey key) (lastRefillKey key) mono) := by
  refine (bucket_follows hmono (tokenKeys key) (tokenDecision_decides _ _) (Nat.cast_nonneg _) rule.rate_pos.le
    rule.bucketClockTtl_pos).decoded fun t b s h => ?_
  exact fromStorage_bucketReply rule.one_le_bucketCapacity rule.rate_pos Bucket.available_le

/-- The requests that are allowed are those that the bucket grants. -/
theorem allowedTimes_replies (b : Bucket ℚ) (times : List ℚ) :
    allowedTimes times (replies id (fun b t => bucketResult rule.bucketCapacity rule.rate (b.available rule.bucketCapacity rule.rate t))
      (fun b t => b.next rule.bucketCapacity rule.rate t) b times) =
      Bucket.granted (rule.bucketCapacity : ℚ) rule.rate b (times.filter fun t => 0 ≤ t ∧ t ≤ 10 ^ 12) := by
  induction times generalizing b with
  | nil => rfl
  | cons t times ih =>
    by_cases ht : 0 ≤ t ∧ t ≤ 10 ^ 12
    · rw [List.filter_cons_of_pos (by simpa using ht), Bucket.granted, replies_accepted ht, allowedTimes_cons, ih]
      simp [isAllowed, bucketResult]
    · have ht' : ¬ (0 ≤ id t ∧ id t ≤ 10 ^ 12) := ht
      obtain ⟨e, he⟩ := replies_refused ht' times
      rw [List.filter_cons_of_neg (by simpa using ht), he, allowedTimes_cons, ih]
      simp [isAllowed]

variable {rule key}

/-- After a denial, the wait that is answered is what a bucket needs for its next token. -/
theorem retry_allowed {b : Bucket ℚ} {t t' r : ℚ} (hdenied : ¬ 1 ≤ b.available (rule.bucketCapacity : ℚ) rule.rate t)
    (hretry : r = (1 - b.available (rule.bucketCapacity : ℚ) rule.rate t) / rule.rate) (ht' : t + r ≤ t') :
    1 ≤ (b.next (rule.bucketCapacity : ℚ) rule.rate t).available (rule.bucketCapacity : ℚ) rule.rate t' := by
  have hcapacity : (1 : ℚ) ≤ rule.bucketCapacity := Nat.one_le_cast.mpr rule.one_le_bucketCapacity
  have hgain : 1 - b.available (rule.bucketCapacity : ℚ) rule.rate t ≤ (t' - t) * rule.rate := by
    rw [← div_le_iff₀ rule.rate_pos, ← hretry]
    linarith
  rw [Bucket.next, if_neg hdenied, Bucket.available]
  refine le_min hcapacity ?_
  linarith

/-- Token bucket: over every interval no more requests are allowed than the capacity and what is refilled;
expiry never shows in an answer; and a request that waits as long as it was told is allowed. -/
theorem token_bucket_limits (rule : RateLimitRule) (key : String) {maxKeys : ℕ} (hkeys : 4 ≤ maxKeys)
    {times : List ℚ} (hclock : times.Pairwise (· ≤ ·)) :
    (∀ a T, 0 ≤ T →
      (((allowedTimes times (answers (TokenBucket.check rule key id) (.new maxKeys hkeys) times)).countP
        fun t => a ≤ t ∧ t ≤ a + T : ℕ) : ℚ) ≤ rule.bucketCapacity + rule.rate * T) ∧
    answers (TokenBucket.check rule key id) (.new maxKeys hkeys) times =
      answers (TokenBucket.check rule key fun _ => 0) (.new maxKeys hkeys) times ∧
    ∀ before t t' later, times = before ++ t :: t' :: later → t' ≤ 10 ^ 12 → ∀ denied s r,
      (TokenBucket.check rule key id t).exec (after (TokenBucket.check rule key id) (.new maxKeys hkeys) before) =
        (.ok denied, s) → denied.retryAfter = some r → t + r ≤ t' →
      ∃ result, ((TokenBucket.check rule key id t').exec s).1 = .ok result ∧ result.allowed = true := by
  obtain ⟨start, hsorted⟩ := exists_start hclock
  have hmapped : (start :: times.map id).Pairwise (· ≤ ·) := by rwa [List.map_id]
  have hfollows := tokenBucket_follows rule key steady_id
  have hnew : ∀ mono, BucketKept (rule.bucketCapacity : ℚ) rule.rate id (tokensKey key) (lastRefillKey key) mono start
      ⟨rule.bucketCapacity, start⟩ (.new maxKeys hkeys) := fun mono =>
    bucketKept_new (Nat.cast_nonneg _) maxKeys hkeys start
  refine ⟨fun a T hT => ?_, ?_, fun before t t' later htimes ht' denied s r hrun hretry hwait => ?_⟩
  · rw [hfollows.answers_eq (hnew id) hmapped, allowedTimes_replies]
    have hholds : Bucket.Holds (rule.bucketCapacity : ℚ) ⟨(rule.bucketCapacity : ℚ), start⟩ := ⟨Nat.cast_nonneg _, le_rfl⟩
    have hvalid : (start :: times.filter fun t => 0 ≤ t ∧ t ≤ 10 ^ 12).Pairwise (· ≤ ·) :=
      hsorted.sublist (List.filter_sublist.cons_cons start)
    have hbound := Bucket.granted_within hholds rule.rate_pos.le hvalid (le_add_of_nonneg_right hT : a ≤ a + T)
    rw [add_sub_cancel_left] at hbound
    exact hbound
  · rw [hfollows.answers_eq (hnew id) hmapped,
      (tokenBucket_follows rule key steady_still).answers_eq (hnew fun _ => 0) hmapped]
  · subst htimes
    have hbefore : (start :: before.map id ++ [t]).Pairwise (· ≤ ·) := hsorted.sublist (by simp)
    obtain ⟨hvalid, rfl, hs⟩ := hfollows.answered (hfollows.after_eq (hnew id) hbefore) hrun
    have hle : t ≤ t' := (List.pairwise_cons.mp (List.pairwise_append.mp hclock).2.1).1 t' List.mem_cons_self
    have hvalid' : checkedTime t' = .ok t' := checkedTime_eq_ok.mpr ⟨(checkedTime_eq_ok.mp hvalid).1.trans hle, ht'⟩
    obtain ⟨s', hrun', -⟩ := hfollows.served t' _ s (hfollows.later t t' _ s hs hle) hvalid'
    refine ⟨_, by rw [hrun'], ?_⟩
    simp only [bucketResult] at hretry
    split at hretry
    case isTrue => cases hretry
    case isFalse hdenied => exact decide_eq_true (retry_allowed hdenied (Option.some.inj hretry).symm hwait)

/-- Leaking bucket: it answers every request as the token bucket of the rule does, whatever expires in either storage. -/
theorem leakingBucket_answers (rule : RateLimitRule) (key : String) {maxKeys : ℕ} (hkeys : 4 ≤ maxKeys)
    {times : List ℚ} (hclock : times.Pairwise (· ≤ ·)) :
    answers (LeakingBucket.check rule key id) (.new maxKeys hkeys) times =
      answers (TokenBucket.check rule key id) (.new maxKeys hkeys) times := by
  obtain ⟨start, hsorted⟩ := exists_start hclock
  have hmapped : (start :: times.map id).Pairwise (· ≤ ·) := by rwa [List.map_id]
  have hcapacity : (0 : ℚ) ≤ rule.bucketCapacity := Nat.cast_nonneg _
  have hfollows : Follows id (LeakingBucket.check rule key id)
      (fun b t => bucketResult rule.bucketCapacity rule.rate (b.available rule.bucketCapacity rule.rate t))
      (fun b t => b.next rule.bucketCapacity rule.rate t)
      (BucketKept rule.bucketCapacity rule.rate (rule.bucketCapacity - ·) (queueCountKey key) (lastDrainKey key) id) :=
    (bucket_follows steady_id (leakKeys key) (leakDecision_decides _ rule.rate_pos.le) hcapacity rule.rate_pos.le
      rule.bucketClockTtl_pos).decoded fun t b s h =>
        fromStorage_bucketReply rule.one_le_bucketCapacity rule.rate_pos Bucket.available_le
  exact (hfollows.answers_eq (bucketKept_new hcapacity maxKeys hkeys start) hmapped).trans
    ((tokenBucket_follows rule key steady_id).answers_eq (bucketKept_new hcapacity maxKeys hkeys start) hmapped).symm

end Rules

def oneEachSecond : RateLimitRule where
  limit := 1
  window := 1
  algorithm := .tokenBucket
  capacity := none
  limit_range := RateLimitRule.once_range
  window_range := RateLimitRule.once_range
  capacity_range := RateLimitRule.uncapped_range
  capacity_algorithm := nofun

theorem token_bucket_limits_oneEachSecond :
    (((allowedTimes [0, 0, 1] (answers (TokenBucket.check oneEachSecond "key" id) (.new 4 le_rfl) [0, 0, 1])).countP
      fun t => 0 ≤ t ∧ t ≤ 0 + 1 : ℕ) : ℚ) ≤ oneEachSecond.bucketCapacity + oneEachSecond.rate * 1 :=
  (token_bucket_limits oneEachSecond "key" le_rfl (by simp)).1 0 1 zero_le_one

theorem leakingBucket_answers_oneEachSecond :
    answers (LeakingBucket.check oneEachSecond "key" id) (.new 4 le_rfl) [0, 0, 1] =
      answers (TokenBucket.check oneEachSecond "key" id) (.new 4 le_rfl) [0, 0, 1] :=
  leakingBucket_answers oneEachSecond "key" le_rfl (by simp)

/-! ### Duality -/

/-- The number in a record, or what stands for a missing one. -/
def storedOr (default : ℚ) (s : MemoryStorage) (key : String) : Except StorageError ℚ := floatOr default (s.read 0 key)

/-- Nothing expires, so a record that is missing was never written. -/
theorem BucketKept.stored {capacity rate start t : ℚ} {level : ℚ → ℚ} {levelKey timeKey : String} {b : Bucket ℚ}
    {s : MemoryStorage} (h : BucketKept capacity rate level levelKey timeKey (fun _ => 0) t b s)
    (hcapacity : 0 ≤ capacity) (hstart : start = level capacity) :
    storedOr start s levelKey = .ok (level b.tokens) := by
  obtain ⟨hlevel, -⟩ | ⟨⟨hlevel, -⟩, hfull | ⟨seconds, hseconds, hpassed⟩⟩ := h.tracks.shows t le_rfl
  · rw [storedOr, hlevel]
    rfl
  · rw [storedOr, hlevel, hstart, hfull]
    rfl
  · have hpos := (bucketTtl_spec hcapacity seconds hseconds).1
    rw [zero_add] at hpassed
    exact absurd (Int.cast_nonpos.mp hpassed) (not_le.mpr hpos)

/-- Without expiry the leaking bucket answers every request as the token bucket does, and its queue is always what the
other's tokens leave of the capacity. -/
theorem buckets_dual (key : String) {capacity rate : ℚ} (hcapacity : 0 ≤ capacity) (hrate : 0 ≤ rate) {ttl : ℤ}
    (httl : 0 < ttl) {maxKeys : ℕ} (hkeys : 4 ≤ maxKeys) {times : List ℚ} (hclock : times.Pairwise (· ≤ ·)) :
    answers (leakingBucket key capacity rate ttl 0) (.new maxKeys hkeys) times =
      answers (tokenBucket key capacity rate ttl 0) (.new maxKeys hkeys) times ∧
    ∀ done rest, times = done ++ rest →
      storedOr 0 (after (leakingBucket key capacity rate ttl 0) (.new maxKeys hkeys) done) (queueCountKey key) =
        (storedOr capacity (after (tokenBucket key capacity rate ttl 0) (.new maxKeys hkeys) done) (tokensKey key)).map
          (capacity - ·) := by
  obtain ⟨start, hsorted⟩ := exists_start hclock
  have hmapped : (start :: times.map id).Pairwise (· ≤ ·) := by rwa [List.map_id]
  have htoken := bucket_follows steady_still (tokenKeys key) (tokenDecision_decides capacity rate) hcapacity hrate httl
  have hleak := bucket_follows steady_still (leakKeys key) (leakDecision_decides capacity hrate) hcapacity hrate httl
  have hnewToken : BucketKept capacity rate id (tokensKey key) (lastRefillKey key) (fun _ => 0) start ⟨capacity, start⟩
    (.new maxKeys hkeys) := bucketKept_new hcapacity maxKeys hkeys start
  have hnewLeak : BucketKept capacity rate (capacity - ·) (queueCountKey key) (lastDrainKey key) (fun _ => 0) start
    ⟨capacity, start⟩ (.new maxKeys hkeys) := bucketKept_new hcapacity maxKeys hkeys start
  refine ⟨(hleak.answers_eq hnewLeak hmapped).trans (htoken.answers_eq hnewToken hmapped).symm, fun done rest htimes => ?_⟩
  subst htimes
  obtain ⟨t', hdone⟩ := exists_end (hsorted.sublist (by simp) : (start :: done.map id).Pairwise (· ≤ ·))
  have hafterToken := (htoken.after_eq hnewToken hdone).stored hcapacity rfl
  have hafterLeak := (hleak.after_eq hnewLeak hdone).stored hcapacity (sub_self _).symm
  exact hafterLeak.trans (congrArg (Except.map (capacity - ·)) hafterToken).symm

theorem buckets_dual_three :
    answers (leakingBucket "key" 2 (1 / 2) 9 0) (.new 4 le_rfl) [0, 1, 1] =
      answers (tokenBucket "key" 2 (1 / 2) 9 0) (.new 4 le_rfl) [0, 1, 1] :=
  (buckets_dual "key" (by norm_num) (by norm_num) (by decide) le_rfl (by simp)).1

end SystemDesign.RateLimiter
