import SystemDesign.RateLimiter.Capacity
import SystemDesign.RateLimiter.Requests

/-!
The sliding-window counter (`algorithms/sliding_window_counter.py`).

A window's record outlives the next window, so a request always reads the counts of its own window
and of the one before. The records of one subject always find room in the storage.
-/

namespace SystemDesign.RateLimiter

open MemoryStorage

/-- `int(text)`, or zero for a record that is missing. -/
def intOr : Option Stored → Except StorageError ℤ
  | none => .ok 0
  | some text => text.toInt

def windowKey (keyPrefix : String) (windowStart : ℤ) : String := keyPrefix ++ ":" ++ toString windowStart

/-- `math.floor(now / window) * window`. -/
def windowStart (window : ℕ) (now : ℚ) : ℤ := ⌊now / window⌋ * window

/-- The current count and what of the previous window still overlaps. -/
def slidingCount (window : ℕ) (now : ℚ) (currentCount previousCount : ℤ) : ℚ :=
  let windowProgress := (now - windowStart window now) / window
  let overlapRatio := 1 - windowProgress
  currentCount + previousCount * overlapRatio

/-- `_memory_sliding_window_counter_script`. -/
def memorySlidingWindowCounterScript (monotonic : ℚ) (keyPrefix : String) (limit window : ℕ) (now : ℚ) : Under Reply := do
  let currentWindowStart := windowStart window now
  let previousWindowStart := currentWindowStart - window
  let currentKey := windowKey keyPrefix currentWindowStart
  let previousKey := windowKey keyPrefix previousWindowStart
  let rawCurrentCount ← getUnlocked monotonic currentKey
  let rawPreviousCount ← getUnlocked monotonic previousKey
  let currentCount ← Locked.lift (intOr rawCurrentCount)
  let previousCount ← Locked.lift (intOr rawPreviousCount)
  if slidingCount window now currentCount previousCount < limit then do
    setUnlocked monotonic currentKey (.count (currentCount + 1)) (some (2 * window))
    return {
      flag := 1
      remaining := max 0 (limit - truncate (slidingCount window now currentCount previousCount) - 1)
      limit := limit
      resetAfter := currentWindowStart + window - now
      retryAfter := 0 }
  else
    return {
      flag := 0
      remaining := 0
      limit := limit
      resetAfter := currentWindowStart + window - now
      retryAfter := currentWindowStart + window - now }

def counterPrefix (rule : RateLimitRule) (key : String) : String :=
  key ++ ":" ++ toString rule.window ++ ":" ++ toString rule.limit ++ ":swc"

/-- `SlidingWindowCounterAlgorithm.check`; the clock of the requests drives expiry. -/
def SlidingWindowCounter.check (rule : RateLimitRule) (key : String) (wall : ℚ) : Under RateLimitResult := do
  let result ← executeAlgorithm wall wall (counterPrefix rule key) (2 * rule.window + 1)
    (memorySlidingWindowCounterScript wall (counterPrefix rule key) rule.limit rule.window)
  Locked.lift (RateLimitResult.fromStorage result)

/-! ### Windows -/

section Windows

variable {window : ℕ} {t t' : ℚ} {keyPrefix : String}

theorem windowKey_injective {a b : ℤ} (h : windowKey keyPrefix a = windowKey keyPrefix b) : a = b := by
  rw [windowKey, windowKey, String.append_right_inj] at h
  exact Int.repr_injective h

/-- A number's text is no name of a clock. -/
theorem repr_ne_clock (a : ℤ) : Int.repr a ≠ "clock-v2" := by
  intro h
  have htext := congrArg String.toList h
  cases a with
  | ofNat n =>
    simp only [Int.repr, Nat.toList_repr] at htext
    have hmem : 'c' ∈ Nat.toDigits 10 n := by
      rw [htext]
      exact List.mem_cons_self
    have hdigit := Nat.isDigit_of_mem_toDigits (by decide) (by decide) hmem
    cases hdigit
  | negSucc n => simp [Int.repr] at htext

theorem windowKey_ne_clock (a : ℤ) : windowKey keyPrefix a ≠ keyPrefix ++ ":clock-v2" := by
  intro h
  rw [windowKey, String.append_assoc, String.append_right_inj, show ":clock-v2" = ":" ++ "clock-v2" by rfl,
    String.append_right_inj] at h
  exact repr_ne_clock a h

theorem mul_floor_le (hwindow : 0 < window) (t : ℚ) : (⌊t / window⌋ : ℚ) * window ≤ t :=
  (le_div_iff₀ (Nat.cast_pos.mpr hwindow)).mp (Int.floor_le _)

theorem lt_mul_floor (hwindow : 0 < window) (t : ℚ) : t < ((⌊t / window⌋ : ℚ) + 1) * window :=
  (div_lt_iff₀ (Nat.cast_pos.mpr hwindow)).mp (Int.lt_floor_add_one _)

theorem floor_mono (h : t ≤ t') : ⌊t / (window : ℚ)⌋ ≤ ⌊t' / (window : ℚ)⌋ :=
  Int.floor_le_floor (div_le_div_of_nonneg_right h (Nat.cast_nonneg window))

end Windows

/-! ### Counts by window -/

/-- What a request's window and the one before count. -/
def sliding (window : ℕ) (counts : ℤ → ℕ) (now : ℚ) : ℚ :=
  slidingCount window now (counts ⌊now / window⌋) (counts (⌊now / window⌋ - 1))

/-- What the counter answers when these many requests were allowed in each window. -/
def counterResult (limit window : ℕ) (counts : ℤ → ℕ) (now : ℚ) : RateLimitResult :=
  if sliding window counts now < limit then {
    allowed := true
    remaining := max 0 (limit - truncate (sliding window counts now) - 1)
    limit := limit
    resetAfter := windowStart window now + window - now
    retryAfter := none }
  else {
    allowed := false
    remaining := 0
    limit := limit
    resetAfter := windowStart window now + window - now
    retryAfter := some (windowStart window now + window - now) }

def counterNext (limit window : ℕ) (counts : ℤ → ℕ) (now : ℚ) : ℤ → ℕ :=
  if sliding window counts now < limit then Function.update counts ⌊now / window⌋ (counts ⌊now / window⌋ + 1) else counts

/-- What is known of a record's deadline: the clock's is any, a window's passes two windows later. -/
def CounterBound (window : ℕ) (keyPrefix : String) (t : ℚ) (k : String) (deadline : ℚ) : Prop :=
  k = keyPrefix ++ ":clock-v2" ∨
    ∃ n : ℤ, k = windowKey keyPrefix (n * window) ∧ n ≤ ⌊t / window⌋ ∧ deadline < (n + 3) * window

/-- `counts` are the requests allowed so far in each window. -/
structure CounterKept (limit window : ℕ) (keyPrefix : String) (t : ℚ) (counts : ℤ → ℕ) (s : MemoryStorage) : Prop where
  shows : ∀ t', t ≤ t' → ∀ n, n = ⌊t' / window⌋ ∨ n = ⌊t' / window⌋ - 1 →
    intOr (s.read t' (windowKey keyPrefix (n * window))) = .ok (counts n)
  future : ∀ n, ⌊t / window⌋ < n → counts n = 0
  le : ∀ n, counts n ≤ limit
  clock : ClockKept id (keyPrefix ++ ":clock-v2") t s
  timed : s.Timed (CounterBound window keyPrefix t)

variable {limit window : ℕ} {keyPrefix : String} {t t' : ℚ} {counts : ℤ → ℕ} {s s' : MemoryStorage}

theorem lt_windowStart (hwindow : 0 < window) (t : ℚ) : t < windowStart window t + window := by
  have h := lt_mul_floor hwindow t
  rw [windowStart, Int.cast_mul, Int.cast_natCast]
  linarith

/-- The overlap of the previous window is positive, and whole where a window begins. -/
theorem sliding_ge (hwindow : 0 < window) (counts : ℤ → ℕ) (now : ℚ) : (counts ⌊now / window⌋ : ℚ) ≤ sliding window counts now := by
  have hpos : (0 : ℚ) < window := Nat.cast_pos.mpr hwindow
  have hratio : 0 ≤ 1 - (now - windowStart window now) / window := by
    rw [sub_nonneg, div_le_one hpos]
    linarith [lt_windowStart hwindow now]
  have hprevious : (0 : ℚ) ≤ counts (⌊now / window⌋ - 1) := Nat.cast_nonneg _
  rw [sliding, slidingCount, Int.cast_natCast, Int.cast_natCast]
  exact le_add_of_nonneg_right (mul_nonneg hprevious hratio)

theorem counterNext_le (hwindow : 0 < window) (h : ∀ n, counts n ≤ limit) (now : ℚ) :
    ∀ n, counterNext limit window counts now n ≤ limit := by
  intro n
  rw [counterNext]
  split
  case isTrue hroom =>
    rw [Function.update_apply]
    split
    · have hlt : (counts ⌊now / window⌋ : ℚ) < limit := (sliding_ge hwindow counts now).trans_lt hroom
      exact Nat.succ_le_of_lt (Nat.cast_lt.mp hlt)
    · exact h n
  case isFalse => exact h n

namespace CounterKept

theorem later (h : CounterKept limit window keyPrefix t counts s) (ht : t ≤ t') :
    CounterKept limit window keyPrefix t' counts s := by
  have hfloor : ⌊t / (window : ℚ)⌋ ≤ ⌊t' / (window : ℚ)⌋ := floor_mono ht
  refine ⟨fun t'' ht'' => h.shows t'' (ht.trans ht''), fun n hn => h.future n (hfloor.trans_lt hn), h.le, h.clock.later ht,
    h.timed.mono fun k d hd => ?_⟩
  obtain hclock | ⟨n, hk, hn, hd⟩ := hd
  · exact .inl hclock
  · exact .inr ⟨n, hk, hn.trans hfloor, hd⟩

theorem same (h : CounterKept limit window keyPrefix t counts s) (hs : Same t s s') :
    CounterKept limit window keyPrefix t counts s' := by
  refine ⟨fun t' ht' n hn => ?_, h.future, h.le, h.clock.same steady_id hs, hs.timed _ h.timed⟩
  rw [hs.read _ _ ht']
  exact h.shows t' ht' n hn

end CounterKept

/-- A window's record that is live is of this window or of the two before. -/
theorem live_window (hwindow : 0 < window) {k : String} {deadline : ℚ} (h : CounterBound window keyPrefix t k deadline)
    (hlive : t < deadline) : k = keyPrefix ++ ":clock-v2" ∨
      k = windowKey keyPrefix (⌊t / window⌋ * window) ∨ k = windowKey keyPrefix ((⌊t / window⌋ - 1) * window) ∨
        k = windowKey keyPrefix ((⌊t / window⌋ - 2) * window) := by
  obtain hclock | ⟨n, rfl, hn, hd⟩ := h
  · exact .inl hclock
  · have hpos : (0 : ℚ) < window := Nat.cast_pos.mpr hwindow
    have hlt : (⌊t / window⌋ : ℚ) < n + 3 :=
      lt_of_mul_lt_mul_right ((mul_floor_le hwindow t).trans_lt (hlive.trans hd)) hpos.le
    have hlt' : ⌊t / (window : ℚ)⌋ < n + 3 := by exact_mod_cast hlt
    obtain rfl | rfl | rfl : n = ⌊t / (window : ℚ)⌋ ∨ n = ⌊t / (window : ℚ)⌋ - 1 ∨ n = ⌊t / (window : ℚ)⌋ - 2 := by omega
    · exact .inr (.inl rfl)
    · exact .inr (.inr (.inl rfl))
    · exact .inr (.inr (.inr rfl))

/-- The reply of the script, from the counts that it reads. -/
def counterReply (limit window : ℕ) (counts : ℤ → ℕ) (now : ℚ) : Reply :=
  if sliding window counts now < limit then {
    flag := 1
    remaining := max 0 (limit - truncate (sliding window counts now) - 1)
    limit := limit
    resetAfter := windowStart window now + window - now
    retryAfter := 0 }
  else {
    flag := 0
    remaining := 0
    limit := limit
    resetAfter := windowStart window now + window - now
    retryAfter := windowStart window now + window - now }

theorem fromStorage_counterReply (hlimit : 0 < limit) (hwindow : 0 < window) (counts : ℤ → ℕ) (now : ℚ) :
    RateLimitResult.fromStorage (counterReply limit window counts now) = .ok (counterResult limit window counts now) := by
  have hreset : 0 < windowStart window now + window - now := by linarith [lt_windowStart hwindow now]
  have hnonneg : 0 ≤ sliding window counts now := (Nat.cast_nonneg _).trans (sliding_ge hwindow counts now)
  by_cases hroom : sliding window counts now < limit
  · have hfloor : 0 ≤ truncate (sliding window counts now) := by
      rw [truncate_of_nonneg hnonneg]
      exact Int.floor_nonneg.mpr hnonneg
    have hallowed := fromStorage_allowed (le_max_left 0 (limit - truncate (sliding window counts now) - 1))
      (max_le (Int.natCast_nonneg limit) (by omega)) (Int.natCast_pos.mpr hlimit) hreset.le
    simpa only [counterReply, counterResult, if_pos hroom] using hallowed
  · have hdenied := fromStorage_denied (Int.natCast_pos.mpr hlimit) hreset.le hreset
    simpa only [counterReply, counterResult, if_neg hroom] using hdenied

namespace CounterKept

/-- A window's record is read as long as it is asked for: through its own window and the next. -/
theorem counted (hwindow : 0 < window) (h : CounterKept limit window keyPrefix t counts s)
    (hroom : sliding window counts t < limit)
    (htimed : (s.put (windowKey keyPrefix (windowStart window t)) (.count (counts ⌊t / window⌋ + 1))
      (some (t + ((2 * window : ℤ) : ℚ)))).Timed (CounterBound window keyPrefix t)) :
    CounterKept limit window keyPrefix t (counterNext limit window counts t)
      (s.put (windowKey keyPrefix (windowStart window t)) (.count (counts ⌊t / window⌋ + 1))
        (some (t + ((2 * window : ℤ) : ℚ)))) := by
  have hcast : (window : ℤ) ≠ 0 := Int.natCast_ne_zero.mpr hwindow.ne'
  refine ⟨fun t' ht' n hn => ?_, fun n hn => ?_, counterNext_le hwindow h.le t, fun t' ht' => ?_, htimed⟩
  · rw [read_put, counterNext, if_pos hroom, Function.update_apply]
    by_cases hsame : n = ⌊t / (window : ℚ)⌋
    · subst hsame
      have hlive : ¬ t + 2 * (window : ℚ) ≤ t' := by
        have hle : (⌊t' / (window : ℚ)⌋ : ℚ) ≤ ⌊t / (window : ℚ)⌋ + 1 := by
          have hle : ⌊t' / (window : ℚ)⌋ ≤ ⌊t / (window : ℚ)⌋ + 1 := by omega
          exact_mod_cast hle
        have hlt := lt_mul_floor hwindow t'
        have hmul := mul_le_mul_of_nonneg_right hle (Nat.cast_nonneg (α := ℚ) window)
        have hstart := mul_floor_le hwindow t
        linarith
      rw [if_pos (by rw [windowStart]), if_pos rfl]
      simp [hlive, intOr, Stored.toInt]
    · have hne : windowKey keyPrefix (n * window) ≠ windowKey keyPrefix (windowStart window t) := fun heq =>
        hsame (mul_right_cancel₀ hcast (windowKey_injective heq))
      rw [if_neg hne, if_neg hsame]
      exact h.shows t' ht' n hn
  · rw [counterNext, if_pos hroom, Function.update_apply, if_neg hn.ne']
    exact h.future n hn
  · rw [read_put, if_neg (windowKey_ne_clock _).symm]
    exact h.clock t' ht'

end CounterKept

/-- The script counts a request that it allows, and changes nothing for one that it denies. -/
theorem counterScript_spec (hwindow : 0 < window) (h : CounterKept limit window keyPrefix t counts s) :
    ∃ s', (memorySlidingWindowCounterScript t keyPrefix limit window t).exec s =
        (.ok (counterReply limit window counts t), s') ∧
      CounterKept limit window keyPrefix t (counterNext limit window counts t) s' := by
  obtain ⟨s₁, hget₁, hsame₁⟩ := getUnlocked_spec t (windowKey keyPrefix (windowStart window t)) s
  obtain ⟨s₂, hget₂, hsame₂⟩ := getUnlocked_spec t (windowKey keyPrefix (windowStart window t - window)) s₁
  have hcurrent := h.shows t le_rfl ⌊t / (window : ℚ)⌋ (.inl rfl)
  have hprevious := h.shows t le_rfl (⌊t / (window : ℚ)⌋ - 1) (.inr rfl)
  have hstart : (⌊t / (window : ℚ)⌋ - 1) * (window : ℤ) = windowStart window t - window := by rw [windowStart]; ring
  rw [hstart] at hprevious
  rw [hsame₁.read _ _ le_rfl] at hget₂
  have hkept := (h.same hsame₁).same hsame₂
  rw [memorySlidingWindowCounterScript, Locked.exec_bind_ok hget₁, Locked.exec_bind_ok hget₂,
    Locked.exec_bind_ok (by rw [Locked.exec_lift]; exact congrArg (·, s₂) hcurrent),
    Locked.exec_bind_ok (by rw [Locked.exec_lift]; exact congrArg (·, s₂) hprevious)]
  have hsliding : slidingCount window t (counts ⌊t / (window : ℚ)⌋) (counts (⌊t / (window : ℚ)⌋ - 1)) =
    sliding window counts t := rfl
  rw [hsliding]
  by_cases hroom : sliding window counts t < limit
  · have hothers : ∀ k d, CounterBound window keyPrefix t k d → t < d → k ≠ windowKey keyPrefix (windowStart window t) →
        k ∈ [keyPrefix ++ ":clock-v2", windowKey keyPrefix ((⌊t / window⌋ - 1) * window),
          windowKey keyPrefix ((⌊t / window⌋ - 2) * window)] := by
      intro k d hk hd hne
      obtain hk | hk | hk | hk := live_window hwindow hk hd
      · simp [hk]
      · exact absurd hk hne
      · simp [hk]
      · simp [hk]
    have hbound : CounterBound window keyPrefix t (windowKey keyPrefix (windowStart window t)) (t + ((2 * window : ℤ) : ℚ)) := by
      refine .inr ⟨⌊t / (window : ℚ)⌋, rfl, le_rfl, ?_⟩
      have hlt := lt_mul_floor hwindow t
      push_cast
      linarith
    obtain ⟨s₃, hset, hsame₃, htimed⟩ := setUnlocked_returns hkept.timed le_rfl hothers
      (.count (counts ⌊t / (window : ℚ)⌋ + 1)) (by omega : (0 : ℤ) < 2 * window) hbound
    rw [if_pos hroom, Locked.exec_bind_ok hset, counterReply, if_pos hroom]
    exact ⟨_, rfl, (hkept.same hsame₃).counted hwindow hroom htimed⟩
  · rw [if_neg hroom, counterReply, if_neg hroom, counterNext, if_neg hroom]
    exact ⟨s₂, rfl, hkept⟩

theorem windowCounter_follows (rule : RateLimitRule) (key : String) :
    Follows id (SlidingWindowCounter.check rule key) (fun counts t => counterResult rule.limit rule.window counts t)
      (fun counts t => counterNext rule.limit rule.window counts t)
      (CounterKept rule.limit rule.window (counterPrefix rule key)) := by
  refine ⟨fun t t' counts s h ht => h.later ht, ?_, ?_⟩
  · intro t counts s e h he
    obtain ⟨s', hrun, hsame⟩ := executeAlgorithm_refused he t (2 * rule.window + 1)
      (memorySlidingWindowCounterScript t (counterPrefix rule key) rule.limit rule.window) s
    exact ⟨s', Locked.exec_bind_error hrun, h.same hsame⟩
  · intro t counts s h ht
    rw [id_eq] at h ht
    have hrecords : ∀ k d, CounterBound rule.window (counterPrefix rule key) t k d → t < d →
        k ≠ counterPrefix rule key ++ ":clock-v2" →
        k ∈ [windowKey (counterPrefix rule key) (⌊t / rule.window⌋ * rule.window),
          windowKey (counterPrefix rule key) ((⌊t / rule.window⌋ - 1) * rule.window),
          windowKey (counterPrefix rule key) ((⌊t / rule.window⌋ - 2) * rule.window)] := by
      intro k d hk hd hne
      obtain hk | hk | hk | hk := live_window rule.window_pos hk hd
      · exact absurd hk hne
      · simp [hk]
      · simp [hk]
      · simp [hk]
    obtain ⟨s', hrun, hkept⟩ : ∃ s', (executeAlgorithm t (id t) (counterPrefix rule key) (2 * rule.window + 1)
          (memorySlidingWindowCounterScript t (counterPrefix rule key) rule.limit rule.window)).exec s =
        (.ok (counterReply rule.limit rule.window counts t), s') ∧
        CounterKept rule.limit rule.window (counterPrefix rule key) t (counterNext rule.limit rule.window counts t) s' :=
      executeAlgorithm_run ht h.clock fun s' hs' => by
        obtain ⟨s₁, hscript, hkept⟩ := counterScript_spec rule.window_pos (h.same hs')
        obtain ⟨s₂, hset, hsame, htimed⟩ := setUnlocked_returns hkept.timed le_rfl hrecords (.number t)
          (by omega : (0 : ℤ) < 2 * rule.window + 1) (.inl rfl)
        have hkept₂ := hkept.same hsame
        refine ⟨s₁, _, hscript, hset, fun t' ht' n hn => ?_, hkept₂.future, hkept₂.le,
          clockKept_put (checkedTime_eq_ok.mp ht).1 _, htimed⟩
        rw [read_put, if_neg (windowKey_ne_clock _)]
        exact hkept₂.shows t' ht' n hn
    refine ⟨s', ?_, hkept⟩
    rw [id_eq] at hrun
    rw [SlidingWindowCounter.check, Locked.exec_bind_ok hrun, Locked.exec_lift,
      fromStorage_counterReply rule.limit_pos rule.window_pos]

theorem counterKept_new (rule : RateLimitRule) (key : String) {maxKeys : ℕ} (h : 4 ≤ maxKeys) (t : ℚ) :
    CounterKept rule.limit rule.window (counterPrefix rule key) t (fun _ => 0) (.new maxKeys h) :=
  ⟨fun _ _ _ _ => rfl, fun _ _ => rfl, fun _ => Nat.zero_le _, fun _ _ => .inl rfl,
    ⟨fun _ => ⟨nofun, nofun⟩, nofun, Nat.zero_le _⟩⟩

end SystemDesign.RateLimiter
