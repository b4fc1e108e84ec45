import SystemDesign.RateLimiter.Buckets

/-!
Runs of the two bucket algorithms.

`Tracks` says what the two records show of an abstract bucket: its tokens and the moment they
are from, or nothing once the bucket is full again. Every request keeps it, under any
steady monotonic clock, so what is answered does not depend on when records are dropped.
-/

namespace SystemDesign.RateLimiter

open MemoryStorage

/-- From `t` on the records show the bucket, unless it was never used or they have expired. -/
structure Tracks (capacity : ℚ) (level : ℚ → ℚ) (ttl : Option ℤ) (levelKey timeKey : String) (mono : ℚ → ℚ) (t : ℚ)
    (b : Bucket ℚ) (s : MemoryStorage) : Prop where
  holds : b.Holds capacity
  since : b.since ≤ t
  shows : ∀ t', t ≤ t' →
    s.read (mono t') levelKey = some (.number (level b.tokens)) ∧ s.read (mono t') timeKey = some (.number b.since) ∨
      (s.read (mono t') levelKey = none ∧ s.read (mono t') timeKey = none) ∧
        (b.tokens = capacity ∨ ∃ seconds ∈ ttl, mono b.since + (seconds : ℚ) ≤ mono t')

variable {capacity rate start : ℚ} {level : ℚ → ℚ} {levelKey timeKey clockKey : String} {mono : ℚ → ℚ} {t t' : ℚ}
  {b : Bucket ℚ} {s s' : MemoryStorage} {keys : List String} {ttl : Option ℤ} {decision : ℚ → ℚ → ℚ × Reply}

namespace Tracks

theorem later (h : Tracks capacity level ttl levelKey timeKey mono t b s) (ht : t ≤ t') :
    Tracks capacity level ttl levelKey timeKey mono t' b s :=
  ⟨h.holds, h.since.trans ht, fun t'' ht'' => h.shows t'' (ht.trans ht'')⟩

theorem congr (h : Tracks capacity level ttl levelKey timeKey mono t b s)
    (hs : ∀ t', t ≤ t' → s'.read (mono t') levelKey = s.read (mono t') levelKey ∧
      s'.read (mono t') timeKey = s.read (mono t') timeKey) :
    Tracks capacity level ttl levelKey timeKey mono t b s' := by
  refine ⟨h.holds, h.since, fun t' ht' => ?_⟩
  rw [(hs t' ht').1, (hs t' ht').2]
  exact h.shows t' ht'

theorem same (hmono : Steady mono) (h : Tracks capacity level ttl levelKey timeKey mono t b s)
    (hs : Same (mono t) s s') : Tracks capacity level ttl levelKey timeKey mono t b s' :=
  h.congr fun t' ht' => ⟨hs.read _ _ (hmono.le t t' ht'), hs.read _ _ (hmono.le t t' ht')⟩

theorem put (h : Tracks capacity level ttl levelKey timeKey mono t b s) (hlevel : levelKey ≠ clockKey)
    (htime : timeKey ≠ clockKey) (value : Stored) (deadline : Option ℚ) :
    Tracks capacity level ttl levelKey timeKey mono t b (s.put clockKey value deadline) := by
  refine h.congr fun t' _ => ⟨?_, ?_⟩
  · rw [read_put, if_neg hlevel]
  · rw [read_put, if_neg htime]

/-- Two records that are written together expire together. -/
theorem written (hholds : b.Holds capacity) (hsince : b.since = t) (hkeys : levelKey ≠ timeKey) (s : MemoryStorage) :
    Tracks capacity level ttl levelKey timeKey mono t b
      ((s.put levelKey (.number (level b.tokens)) (deadline (mono t) ttl)).put timeKey (.number t)
        (deadline (mono t) ttl)) := by
  refine ⟨hholds, hsince.le, fun t' _ => ?_⟩
  rw [read_put, read_put, read_put, if_neg hkeys, if_pos rfl, if_pos rfl, hsince]
  by_cases hdropped : (deadline (mono t) ttl).any (· ≤ mono t') = true
  · rw [if_pos hdropped, if_pos hdropped]
    refine .inr ⟨⟨rfl, rfl⟩, .inr ?_⟩
    cases ttl with
    | none => simp [deadline] at hdropped
    | some seconds => exact ⟨seconds, rfl, by simpa [deadline] using hdropped⟩
  · rw [if_neg hdropped, if_neg hdropped]
    exact .inl ⟨rfl, rfl⟩

/-- By the time the records have expired, the bucket is full again. -/
theorem full (hmono : Steady mono) (h : Tracks capacity level ttl levelKey timeKey mono t b s) (hrate : 0 ≤ rate)
    (httl : ∀ seconds ∈ ttl, 0 < seconds ∧ capacity ≤ seconds * rate)
    (hgone : b.tokens = capacity ∨ ∃ seconds ∈ ttl, mono b.since + (seconds : ℚ) ≤ mono t) :
    b.available capacity rate t = capacity := by
  obtain hfull | ⟨seconds, hseconds, hpassed⟩ := hgone
  · exact Bucket.available_of_capacity hrate h.since hfull
  · have hslow := hmono.slow _ _ h.since
    refine h.holds.available_of_full ((httl seconds hseconds).2.trans (mul_le_mul_of_nonneg_right ?_ hrate))
    linarith

end Tracks

/-- What the script reads decides as the bucket does. -/
theorem Tracks.decided (h : Tracks capacity level ttl levelKey timeKey mono t b s)
    (hmono : Steady mono) (hdecides : Decides capacity rate level start decision) (hrate : 0 ≤ rate)
    (httl : ∀ seconds ∈ ttl, 0 < seconds ∧ capacity ≤ seconds * rate) :
    ∃ now last, floatOr start (s.read (mono t) levelKey) = .ok now ∧ floatOr t (s.read (mono t) timeKey) = .ok last ∧
      decision now (t - last) =
        (level (b.next capacity rate t).tokens, bucketReply capacity rate (b.available capacity rate t)) := by
  obtain ⟨hlevel, htime⟩ | ⟨⟨hlevel, htime⟩, hgone⟩ := h.shows t le_rfl
  · rw [hlevel, htime]
    exact ⟨_, _, rfl, rfl, hdecides.decision_eq b t h.holds h.since⟩
  · rw [hlevel, htime]
    refine ⟨_, _, rfl, rfl, ?_⟩
    have hfull := h.full hmono hrate httl hgone
    have hrefilled := hdecides.decision_eq (b.refilled capacity rate t) t (h.holds.refilled hrate h.since) le_rfl
    rw [Bucket.available_refilled, Bucket.next_refilled,
      show (b.refilled capacity rate t).tokens = capacity from hfull] at hrefilled
    rw [hdecides.start_eq]
    exact hrefilled

theorem bucketScript_spec (hmono : Steady mono) (h : Tracks capacity level ttl levelKey timeKey mono t b s)
    (hdecides : Decides capacity rate level start decision) (hrate : 0 ≤ rate) (hroom : s.Holds keys)
    (hlevel : levelKey ∈ keys) (htime : timeKey ∈ keys) (hne : levelKey ≠ timeKey)
    (httl : ∀ seconds ∈ ttl, 0 < seconds ∧ capacity ≤ seconds * rate) :
    ∃ s', (bucketScript (mono t) levelKey timeKey start ttl decision t).exec s =
        (.ok (bucketReply capacity rate (b.available capacity rate t)), s') ∧
      Tracks capacity level ttl levelKey timeKey mono t (b.next capacity rate t) s' ∧ s'.Holds keys := by
  obtain ⟨now, last, hnow, hlast, hdecision⟩ := h.decided hmono hdecides hrate httl
  obtain ⟨s₁, hget₁, hsame₁⟩ := getUnlocked_spec (mono t) levelKey s
  obtain ⟨s₂, hget₂, hsame₂⟩ := getUnlocked_spec (mono t) timeKey s₁
  have hroom₂ : s₂.Holds keys := (hsame₁.trans hsame₂).holds hroom
  rw [hsame₁.read _ _ le_rfl] at hget₂
  have hset₁ := setUnlocked_spec (mono t) (.number (level (b.next capacity rate t).tokens)) hroom₂ hlevel
    fun seconds hs => (httl seconds hs).1
  have hroom₃ := hroom₂.put hlevel (.number (level (b.next capacity rate t).tokens)) (deadline (mono t) ttl)
  have hset₂ := setUnlocked_spec (mono t) (.number t) hroom₃ htime fun seconds hs => (httl seconds hs).1
  refine ⟨_, ?_, Tracks.written (h.holds.next hrate h.since) rfl hne s₂, hroom₃.put htime _ _⟩
  rw [bucketScript, Locked.exec_bind_ok hget₁, Locked.exec_bind_ok hget₂,
    Locked.exec_bind_ok (by rw [Locked.exec_lift, hnow]), Locked.exec_bind_ok (by rw [Locked.exec_lift, hlast]),
    hdecision, Locked.exec_bind_ok hset₁, Locked.exec_bind_ok hset₂]
  rfl

/-- Records live until an empty bucket would be full again. -/
theorem bucketTtl_spec (hcapacity : 0 ≤ capacity) :
    ∀ seconds ∈ bucketTtl capacity rate, 0 < seconds ∧ capacity ≤ seconds * rate := by
  intro seconds hs
  rw [bucketTtl] at hs
  split at hs
  case isTrue hrate =>
    obtain rfl := Option.mem_some.mp hs
    have hnonneg : 0 ≤ capacity / rate := div_nonneg hcapacity hrate.le
    rw [truncate_of_nonneg hnonneg]
    refine ⟨by have := Int.floor_nonneg.mpr hnonneg; omega, ?_⟩
    rw [← div_le_iff₀ hrate, Int.cast_add, Int.cast_one]
    exact (Int.lt_floor_add_one _).le
  case isFalse => cases hs

/-! ### Both algorithms follow the bucket -/

/-- The keys of one subject: its two records, and the record of the clock. -/
structure BucketKeys (levelKey timeKey : String) : Prop where
  ne : levelKey ≠ timeKey
  level : levelKey ≠ levelKey ++ ":clock-v2"
  time : timeKey ≠ levelKey ++ ":clock-v2"

def keysOf (levelKey timeKey : String) : List String := [levelKey, timeKey, levelKey ++ ":clock-v2"]

/-- What a storage that serves one bucket keeps. -/
structure BucketKept (capacity rate : ℚ) (level : ℚ → ℚ) (levelKey timeKey : String) (mono : ℚ → ℚ) (t : ℚ)
    (b : Bucket ℚ) (s : MemoryStorage) : Prop where
  tracks : Tracks capacity level (bucketTtl capacity rate) levelKey timeKey mono t b s
  clock : ClockKept mono (levelKey ++ ":clock-v2") t s
  room : s.Holds (keysOf levelKey timeKey)

theorem bucket_follows (hmono : Steady mono) (hkeys : BucketKeys levelKey timeKey)
    (hdecides : Decides capacity rate level start decision) (hcapacity : 0 ≤ capacity) (hrate : 0 ≤ rate) {clockTtl : ℤ}
    (hclockTtl : 0 < clockTtl) :
    Follows id (fun wall => executeAlgorithm wall (mono wall) levelKey clockTtl
        (bucketScript (mono wall) levelKey timeKey start (bucketTtl capacity rate) decision))
      (fun b t => bucketReply capacity rate (b.available capacity rate t)) (fun b t => b.next capacity rate t)
      (BucketKept capacity rate level levelKey timeKey mono) := by
  refine ⟨fun t t' b s h ht => ⟨h.tracks.later ht, h.clock.later ht, h.room⟩, ?_, ?_⟩
  · intro t b s e h he
    obtain ⟨s', hrun, hsame⟩ := executeAlgorithm_refused he (mono t) clockTtl _ s
    exact ⟨s', hrun, h.tracks.same hmono hsame, h.clock.same hmono hsame, hsame.holds h.room⟩
  · intro t b s h ht
    have hclock : levelKey ++ ":clock-v2" ∈ keysOf levelKey timeKey := by simp [keysOf]
    obtain ⟨s', hrun, htracks, hroom⟩ := executeAlgorithm_served ht h.clock hclockTtl hclock fun s' hs' =>
      bucketScript_spec hmono (h.tracks.same hmono hs') hdecides hrate (hs'.holds h.room) (by simp [keysOf])
        (by simp [keysOf]) hkeys.ne (bucketTtl_spec hcapacity)
    refine ⟨_, hrun, htracks.put hkeys.level hkeys.time _ _, ?_, hroom.put (by simp [keysOf]) _ _⟩
    exact clockKept_put (checkedTime_eq_ok.mp ht).1 _

theorem bucketKept_new (hcapacity : 0 ≤ capacity) (maxKeys : ℕ) (h : 4 ≤ maxKeys) (t : ℚ) :
    BucketKept capacity rate level levelKey timeKey mono t ⟨capacity, t⟩ (.new maxKeys h) := by
  have hread : ∀ m k, (MemoryStorage.new maxKeys h).read m k = none := fun m k => rfl
  exact ⟨⟨⟨hcapacity, le_rfl⟩, le_rfl, fun t' _ => .inr ⟨⟨hread _ _, hread _ _⟩, .inl rfl⟩⟩, fun t' _ => .inl (hread _ _),
    fun k hk => (nomatch hk), Nat.le_of_succ_le h⟩

end SystemDesign.RateLimiter
