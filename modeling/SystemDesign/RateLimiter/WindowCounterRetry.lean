import SystemDesign.RateLimiter.WindowCounter

/-!
When a denied request of the sliding-window counter may come back.

The wait that is answered ends where the next window begins. There the count of the window that
ended still weighs in full, so a full window denies the very request that waited as long as it was told;
any later one is allowed.
-/

namespace SystemDesign.RateLimiter

open MemoryStorage

variable {limit window : ℕ} {t t' r : ℚ} {counts : ℤ → ℕ}

/-- Retried from the next window on, a request is allowed unless the full count of the last window still weighs. -/
theorem sliding_retry (hlimit : 0 < limit) (hwindow : 0 < window) (hfuture : ∀ n, ⌊t / window⌋ < n → counts n = 0)
    (hle : ∀ n, counts n ≤ limit) (hwait : windowStart window t + window ≤ t') :
    sliding window counts t' < limit ↔ ¬ (counts ⌊t / window⌋ = limit ∧ t' = windowStart window t + window) := by
  have hpos : (0 : ℚ) < window := Nat.cast_pos.mpr hwindow
  have hlimit' : (0 : ℚ) < limit := Nat.cast_pos.mpr hlimit
  have hstart : (windowStart window t : ℚ) + window = (⌊t / (window : ℚ)⌋ + 1) * window := by
    rw [windowStart]
    push_cast
    ring
  rw [hstart] at hwait ⊢
  have hnext : ⌊t / (window : ℚ)⌋ + 1 ≤ ⌊t' / (window : ℚ)⌋ := by
    rw [Int.le_floor, le_div_iff₀ hpos]
    exact_mod_cast hwait
  have hcurrent : counts ⌊t' / (window : ℚ)⌋ = 0 := hfuture _ (by omega)
  obtain hlater | hsame := hnext.lt_or_eq
  · -- A whole window has passed: nothing counts any more.
    have hprevious : counts (⌊t' / (window : ℚ)⌋ - 1) = 0 := hfuture _ (by omega)
    have hzero : sliding window counts t' = 0 := by simp [sliding, slidingCount, hcurrent, hprevious]
    refine iff_of_true (hzero ▸ hlimit') ?_
    rintro ⟨-, heq⟩
    have hfloor : ⌊t' / (window : ℚ)⌋ = ⌊t / (window : ℚ)⌋ + 1 := by
      rw [heq, mul_div_assoc, div_self hpos.ne', mul_one]
      exact_mod_cast Int.floor_intCast (⌊t / (window : ℚ)⌋ + 1)
    omega
  · have hprevious : ⌊t' / (window : ℚ)⌋ - 1 = ⌊t / (window : ℚ)⌋ := by omega
    have hsliding : sliding window counts t' =
        counts ⌊t / (window : ℚ)⌋ * (1 - (t' - (⌊t / (window : ℚ)⌋ + 1) * window) / window) := by
      rw [sliding, slidingCount, hcurrent, hprevious, windowStart, ← hsame]
      push_cast
      ring
    have hratio : 0 ≤ (t' - (⌊t / (window : ℚ)⌋ + 1) * window) / window := div_nonneg (sub_nonneg.mpr hwait) hpos.le
    have hcount : (counts ⌊t / (window : ℚ)⌋ : ℚ) ≤ limit := Nat.cast_le.mpr (hle _)
    have hnonneg : (0 : ℚ) ≤ counts ⌊t / (window : ℚ)⌋ := Nat.cast_nonneg _
    rw [hsliding]
    by_cases hedge : t' = (⌊t / (window : ℚ)⌋ + 1) * window
    · rw [← hedge, sub_self, zero_div, sub_zero, mul_one, Nat.cast_lt]
      have := hle ⌊t / (window : ℚ)⌋
      constructor
      · exact fun hlt hfull => hlt.ne hfull.1
      · exact fun hnot => lt_of_le_of_ne this fun heq => hnot ⟨heq, rfl⟩
    · refine iff_of_true ?_ fun hfull => hedge hfull.2
      have hratio' : 0 < (t' - (⌊t / (window : ℚ)⌋ + 1) * window) / window :=
        div_pos (sub_pos.mpr (lt_of_le_of_ne hwait (Ne.symm hedge))) hpos
      obtain hzero | hsome := hnonneg.eq_or_lt
      · rw [← hzero, zero_mul]
        exact hlimit'
      · have hlost := mul_pos hsome hratio'
        linarith

/-- A denied request that waits as long as it was told is allowed, unless its window was full and it comes back in the very
moment the next one begins. -/
theorem counter_retry (rule : RateLimitRule) (key : String) {maxKeys : ℕ} (hkeys : 4 ≤ maxKeys) {before : List ℚ}
    (hclock : (before ++ [t, t']).Pairwise (· ≤ ·)) (ht' : t' ≤ 10 ^ 12) {denied : RateLimitResult} {s : MemoryStorage}
    (hrun : (SlidingWindowCounter.check rule key t).exec
      (after (SlidingWindowCounter.check rule key) (.new maxKeys hkeys) before) = (.ok denied, s))
    (hretry : denied.retryAfter = some r) (hwait : t + r ≤ t') :
    (∃ result, ((SlidingWindowCounter.check rule key t').exec s).1 = .ok result ∧ result.allowed = true) ↔
      ¬ (intOr ((after (SlidingWindowCounter.check rule key) (.new maxKeys hkeys) before).read t
          (windowKey (counterPrefix rule key) (windowStart rule.window t))) = .ok (rule.limit : ℤ) ∧
        t' = windowStart rule.window t + rule.window) := by
  obtain ⟨start, hsorted⟩ := exists_start hclock
  have hfollows := windowCounter_follows rule key
  have hbefore : (start :: before.map id ++ [t]).Pairwise (· ≤ ·) := hsorted.sublist (by simp)
  have hkept := hfollows.after_eq (counterKept_new rule key hkeys start) hbefore
  generalize before.foldl (advance id fun counts t => counterNext rule.limit rule.window counts t) (fun _ => 0) = counts
    at hkept
  obtain ⟨hvalid, rfl, hs⟩ := hfollows.answered hkept hrun
  rw [id_eq] at hvalid hs
  have hpair : ([t, t'] : List ℚ).Pairwise (· ≤ ·) := hclock.sublist (by simp)
  have hle : t ≤ t' := (List.pairwise_cons.mp hpair).1 t' List.mem_cons_self
  have hvalid' : checkedTime t' = .ok t' := checkedTime_eq_ok.mpr ⟨(checkedTime_eq_ok.mp hvalid).1.trans hle, ht'⟩
  obtain ⟨s', hrun', -⟩ := hfollows.served t' _ s (hs.later hle) hvalid'
  have hfull : ¬ sliding rule.window counts t < rule.limit := by
    intro hroom
    simp [counterResult, hroom] at hretry
  have hr : windowStart rule.window t + rule.window - t = r := by simpa [counterResult, hfull] using hretry
  have hstored := hkept.shows t le_rfl ⌊t / (rule.window : ℚ)⌋ (.inl rfl)
  have hcount : intOr ((after (SlidingWindowCounter.check rule key) (.new maxKeys hkeys) before).read t
      (windowKey (counterPrefix rule key) (windowStart rule.window t))) = .ok (rule.limit : ℤ) ↔
      counts ⌊t / (rule.window : ℚ)⌋ = rule.limit := by
    rw [windowStart, hstored, Except.ok.injEq, Nat.cast_inj]
  rw [hcount, ← sliding_retry rule.limit_pos rule.window_pos hkept.future hkept.le (by linarith), hrun']
  have hsame : counterNext rule.limit rule.window counts t = counts := if_neg hfull
  constructor
  · rintro ⟨result, hresult, hallowed⟩
    obtain rfl := Except.ok.inj hresult
    by_contra hnot
    rw [hsame] at hallowed
    simp [counterResult, hnot] at hallowed
  · intro hroom
    exact ⟨_, rfl, by rw [hsame]; simp [counterResult, hroom]⟩

def oneInEachSecond : RateLimitRule where
  limit := 1
  window := 1
  algorithm := .slidingWindowCounter
  capacity := none
  limit_range := RateLimitRule.once_range
  window_range := RateLimitRule.once_range
  capacity_range := RateLimitRule.uncapped_range
  capacity_algorithm := nofun

theorem oneInEachSecond_answers (times : List ℚ) (h : (0 :: times).Pairwise (· ≤ ·)) :
    answers (SlidingWindowCounter.check oneInEachSecond "key") (.new 4 le_rfl) times =
      replies id (fun counts t => counterResult 1 1 counts t) (fun counts t => counterNext 1 1 counts t) (fun _ => 0) times :=
  (windowCounter_follows oneInEachSecond "key").answers_eq (counterKept_new oneInEachSecond "key" le_rfl 0)
    (by rwa [List.map_id])

/-- Denied with a wait of half a second, and denied again half a second later. -/
theorem oneInEachSecond_runs :
    answers (SlidingWindowCounter.check oneInEachSecond "key") (.new 4 le_rfl) [0, 1 / 2, 1] =
      [.ok ⟨true, 0, 1, 1, none⟩, .ok ⟨false, 0, 1, 1 / 2, some (1 / 2)⟩, .ok ⟨false, 0, 1, 1, some 1⟩] := by
  rw [oneInEachSecond_answers [0, 1 / 2, 1] (by norm_num)]
  have hhalf : ⌊(2⁻¹ : ℚ)⌋ = 0 := by norm_num
  norm_num [replies, checkedTime, advance, counterResult, counterNext, sliding, slidingCount, windowStart, truncate, Except.map,
    Function.update_apply, hhalf]

/-- Its wait of half a second over, the request is denied again. -/
theorem counter_retry_denied : ∃ s, (SlidingWindowCounter.check oneInEachSecond "key" (1 / 2)).exec
      (after (SlidingWindowCounter.check oneInEachSecond "key") (.new 4 le_rfl) [0]) =
        (.ok ⟨false, 0, 1, 1 / 2, some (1 / 2)⟩, s) ∧
    ((SlidingWindowCounter.check oneInEachSecond "key" 1).exec s).1 = .ok ⟨false, 0, 1, 1, some 1⟩ := by
  have hanswers := oneInEachSecond_runs
  simp only [answers, List.cons.injEq] at hanswers
  obtain ⟨-, hdenied, hagain, -⟩ := hanswers
  exact ⟨_, congrArg (·, _) hdenied, hagain⟩

/-- A second after the last request the next one is allowed. -/
theorem counter_retry_late : ∃ s, (SlidingWindowCounter.check oneInEachSecond "key" (1 / 2)).exec
      (after (SlidingWindowCounter.check oneInEachSecond "key") (.new 4 le_rfl) [0]) =
        (.ok ⟨false, 0, 1, 1 / 2, some (1 / 2)⟩, s) ∧
    ∃ result, ((SlidingWindowCounter.check oneInEachSecond "key" (3 / 2)).exec s).1 = .ok result ∧ result.allowed = true := by
  have hanswers := oneInEachSecond_runs
  simp only [answers, List.cons.injEq] at hanswers
  have hdenied : ((SlidingWindowCounter.check oneInEachSecond "key" (1 / 2)).exec
      (after (SlidingWindowCounter.check oneInEachSecond "key") (.new 4 le_rfl) [0])).1 =
        .ok ⟨false, 0, 1, 1 / 2, some (1 / 2)⟩ := hanswers.2.1
  generalize hrun : (SlidingWindowCounter.check oneInEachSecond "key" (1 / 2)).exec
    (after (SlidingWindowCounter.check oneInEachSecond "key") (.new 4 le_rfl) [0]) = run at hdenied
  obtain ⟨result, s⟩ := run
  obtain rfl : result = .ok ⟨false, 0, 1, 1 / 2, some (1 / 2)⟩ := hdenied
  refine ⟨s, rfl, (counter_retry oneInEachSecond "key" le_rfl (by norm_num) (by norm_num) hrun rfl (by norm_num)).mpr ?_⟩
  rintro ⟨-, hstart⟩
  norm_num [windowStart, oneInEachSecond] at hstart

end SystemDesign.RateLimiter
