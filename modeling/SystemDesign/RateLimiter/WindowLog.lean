import SystemDesign.Lib.SlidingWindow
import SystemDesign.RateLimiter.Requests

/-!
The sliding-window log (`algorithms/sliding_window_log.py`).

Whatever the log has dropped, at every later time it holds exactly the allowed requests that
still count.
-/

namespace SystemDesign.RateLimiter

open List hiding lt_of_le_of_lt not_lt
open MemoryStorage

/-- The wait until the oldest entry leaves the window. -/
def oldestWait (window : ℕ) (now : ℚ) (times : List ℚ) : ℚ :=
  match times.min? with
  | some oldest => oldest + window - now
  | none => window

/-- The log that is stored and the reply. -/
def logDecision (limit window : ℕ) (requestId : String) (now : ℚ) (logEntries : List (ℚ × String)) :
    List (ℚ × String) × Reply :=
  let cutoff := now - window
  let currentEntries := logEntries.filter fun entry => cutoff < entry.1
  if currentEntries.length < limit then
    let currentEntries := currentEntries ++ [(now, requestId)]
    (currentEntries, {
      flag := 1
      remaining := limit - currentEntries.length
      limit := limit
      resetAfter := oldestWait window now (currentEntries.map Prod.fst)
      retryAfter := 0 })
  else
    let retryAfter := oldestWait window now (currentEntries.map Prod.fst)
    (currentEntries, { flag := 0, remaining := 0, limit := limit, resetAfter := retryAfter, retryAfter := retryAfter })

/-- `_memory_sliding_window_log_script`. -/
def memorySlidingWindowLogScript (monotonic : ℚ) (logKey : String) (limit window : ℕ) (requestId : String) (now : ℚ) :
    Under Reply := do
  let rawLog ← getUnlocked monotonic logKey
  let decided := logDecision limit window requestId now ((rawLog.map Stored.toLog).getD [])
  setUnlocked monotonic logKey (.log decided.1) (some (window + 1))
  return decided.2

def logKey (rule : RateLimitRule) (key : String) : String :=
  key ++ ":" ++ toString rule.window ++ ":" ++ toString rule.limit ++ ":log"

/-- `SlidingWindowLogAlgorithm.check`. A request brings the id that `uuid4` draws for it. -/
def SlidingWindowLog.check (rule : RateLimitRule) (key : String) (mono : ℚ → ℚ) (request : ℚ × String) :
    Under RateLimitResult := do
  let result ← executeAlgorithm request.1 (mono request.1) (logKey rule key) (2 * rule.window + 1)
    (memorySlidingWindowLogScript (mono request.1) (logKey rule key) rule.limit rule.window request.2)
  Locked.lift (RateLimitResult.fromStorage result)

/-! ### The log of allowed requests -/

/-- The requests that still count at a time. -/
def live (window : ℕ) (now : ℚ) (times : List ℚ) : List ℚ := times.filter fun x => now - window < x

variable {times : List ℚ} {window : ℕ} {now : ℚ}

theorem mem_live {x : ℚ} : x ∈ live window now times ↔ x ∈ times ∧ now - window < x := by
  simp [live]

theorem live_live {now' : ℚ} (h : now ≤ now') (times : List ℚ) :
    live window now' (live window now times) = live window now' times := by
  rw [live, live, filter_filter]
  refine filter_congr fun x _ => ?_
  by_cases hx : now' - window < x
  · have : now - window < x := lt_of_le_of_lt (sub_le_sub_right h _) hx
    simp [hx, this]
  · simp [hx]

theorem live_append (window : ℕ) (now : ℚ) (times times' : List ℚ) :
    live window now (times ++ times') = live window now times ++ live window now times' := filter_append _ _

theorem oldestWait_of_mem {x : ℚ} (hx : x ∈ times) (h : ∀ y ∈ times, now - window < y) :
    ∃ oldest ∈ times, (∀ y ∈ times, oldest ≤ y) ∧ oldestWait window now times = oldest + window - now ∧
      0 < oldestWait window now times := by
  cases hmin : times.min? with
  | none => rw [min?_eq_none_iff.mp hmin] at hx; cases hx
  | some oldest =>
    obtain ⟨hmem, hle⟩ := min?_eq_some_iff.mp hmin
    refine ⟨oldest, hmem, hle, by rw [oldestWait, hmin], ?_⟩
    have := h oldest hmem
    rw [oldestWait, hmin]
    linarith

/-- What the log answers when these requests were allowed before. -/
def logResult (limit window : ℕ) (times : List ℚ) (now : ℚ) : RateLimitResult :=
  if (live window now times).length < limit then {
    allowed := true
    remaining := limit - ((live window now times).length + 1 : ℕ)
    limit := limit
    resetAfter := oldestWait window now (live window now times ++ [now])
    retryAfter := none }
  else {
    allowed := false
    remaining := 0
    limit := limit
    resetAfter := oldestWait window now (live window now times)
    retryAfter := some (oldestWait window now (live window now times)) }

/-- The allowed requests after one more. -/
def logNext (limit window : ℕ) (times : List ℚ) (now : ℚ) : List ℚ :=
  if (live window now times).length < limit then times ++ [now] else times

theorem logDecision_spec {limit : ℕ} (hlimit : 0 < limit) (hwindow : 0 < window) (requestId : String)
    {entries : List (ℚ × String)} (h : live window now (entries.map Prod.fst) = live window now times) :
    (logDecision limit window requestId now entries).1.map Prod.fst = live window now (logNext limit window times now) ∧
      RateLimitResult.fromStorage (logDecision limit window requestId now entries).2 =
        .ok (logResult limit window times now) := by
  have hcurrent : (entries.filter fun entry => now - window < entry.1).map Prod.fst = live window now times := by
    rw [← h, live, filter_map]
    rfl
  have hlength : (entries.filter fun entry => now - window < entry.1).length = (live window now times).length := by
    rw [← hcurrent, length_map]
  have hself : now - window < now := by
    have : (0 : ℚ) < window := Nat.cast_pos.mpr hwindow
    linarith
  have hlive : ∀ y ∈ live window now times, now - window < y := fun y hy => (mem_live.mp hy).2
  by_cases hroom : (live window now times).length < limit
  · have hall : ∀ y ∈ live window now times ++ [now], now - window < y := by
      intro y hy
      obtain hy | hy := mem_append.mp hy
      · exact hlive y hy
      · exact mem_singleton.mp hy ▸ hself
    obtain ⟨-, -, -, -, hpos⟩ := oldestWait_of_mem (mem_append_right _ mem_cons_self) hall
    have hremaining : (0 : ℤ) ≤ limit - ((live window now times).length + 1 : ℕ) := by omega
    have hallowed := fromStorage_allowed hremaining (by omega) (Int.natCast_pos.mpr hlimit) hpos.le
    simp only [logDecision, hlength, if_pos hroom, logNext, logResult, map_append, hcurrent, map_cons, map_nil,
      length_append, length_singleton]
    refine ⟨?_, hallowed⟩
    rw [live_append]
    simp [live, hself]
  · obtain ⟨x, hx⟩ := exists_mem_of_length_pos (hlimit.trans_le (not_lt.mp hroom))
    obtain ⟨-, -, -, -, hpos⟩ := oldestWait_of_mem hx hlive
    simp only [logDecision, hlength, if_neg hroom, logNext, logResult, hcurrent]
    exact ⟨trivial, fromStorage_denied (Int.natCast_pos.mpr hlimit) hpos.le hpos⟩

/-! ### Runs -/

/-- The times in the log that a reading shows. -/
def storedLog (s : MemoryStorage) (m : ℚ) (key : String) : List ℚ :=
  (((s.read m key).map Stored.toLog).getD []).map Prod.fst

/-- `times` are the requests allowed so far. -/
structure LogKept (limit window : ℕ) (key : String) (mono : ℚ → ℚ) (t : ℚ) (times : List ℚ) (s : MemoryStorage) :
    Prop where
  sorted : times.Pairwise (· ≤ ·)
  past : ∀ x ∈ times, x ≤ t
  spaced : Spaced (fun x : ℚ => x - window) limit times
  shows : ∀ t', t ≤ t' → live window t' (storedLog s (mono t') key) = live window t' times
  clock : ClockKept mono (key ++ ":clock-v2") t s
  room : s.Holds [key, key ++ ":clock-v2"]

variable {limit window : ℕ} {key : String} {mono : ℚ → ℚ} {t t' : ℚ} {times : List ℚ} {s s' : MemoryStorage}

/-- In a sorted list the requests that still count are the last ones. -/
theorem split_live (hsorted : times.Pairwise (· ≤ ·)) (t : ℚ) :
    ∃ old, times = old ++ live window t times ∧ ∀ x ∈ old, x ≤ t - window := by
  induction times with
  | nil => exact ⟨[], rfl, nofun⟩
  | cons x times ih =>
    obtain ⟨hfirst, hrest⟩ := pairwise_cons.mp hsorted
    by_cases hx : t - window < x
    · refine ⟨[], ?_, nofun⟩
      rw [nil_append, live, filter_eq_self.mpr]
      intro y hy
      obtain rfl | hy := mem_cons.mp hy
      · exact decide_eq_true hx
      · exact decide_eq_true (hx.trans_le (hfirst y hy))
    · obtain ⟨old, htimes, hold⟩ := ih hrest
      refine ⟨x :: old, ?_, forall_mem_cons.mpr ⟨not_lt.mp hx, hold⟩⟩
      rw [live, filter_cons_of_neg (by simpa using hx), cons_append, ← live, ← htimes]

theorem monotone_cut (window : ℕ) : Monotone fun x : ℚ => x - window := fun _ _ h => sub_le_sub_right h _

theorem counted_live (hsorted : times.Pairwise (· ≤ ·)) (t : ℚ) :
    Counted (fun x : ℚ => x - window) t times (live window t times) := by
  obtain ⟨old, htimes, hold⟩ : ∃ old, times = old ++ live window t times ∧ ∀ x ∈ old, x ≤ t - window := split_live hsorted t
  exact ⟨old, live window t times, htimes, forall₂_refl _, hold⟩

namespace LogKept

theorem later (h : LogKept limit window key mono t times s) (ht : t ≤ t') : LogKept limit window key mono t' times s :=
  ⟨h.sorted, fun x hx => (h.past x hx).trans ht, h.spaced, fun t'' ht'' => h.shows t'' (ht.trans ht''),
    h.clock.later ht, h.room⟩

theorem same (hmono : Steady mono) (h : LogKept limit window key mono t times s) (hs : Same (mono t) s s') :
    LogKept limit window key mono t times s' := by
  refine ⟨h.sorted, h.past, h.spaced, fun t' ht' => ?_, h.clock.same hmono hs, hs.holds h.room⟩
  rw [storedLog, hs.read _ _ (hmono.le t t' ht')]
  exact h.shows t' ht'

theorem spaced_next (h : LogKept limit window key mono t times s) : Spaced (fun x : ℚ => x - window) limit (logNext limit window times t) := by
  rw [logNext]
  split
  case isTrue hroom => exact h.spaced.accept (counted_live h.sorted t) (monotone_cut window) hroom le_rfl
  case isFalse => exact h.spaced

theorem past_next (h : LogKept limit window key mono t times s) : ∀ x ∈ logNext limit window times t, x ≤ t := by
  intro x hx
  rw [logNext] at hx
  split at hx
  · obtain hx | hx := mem_append.mp hx
    · exact h.past x hx
    · exact (mem_singleton.mp hx).le
  · exact h.past x hx

theorem sorted_next (h : LogKept limit window key mono t times s) : (logNext limit window times t).Pairwise (· ≤ ·) := by
  rw [logNext]
  split
  · exact pairwise_append.mpr ⟨h.sorted, pairwise_singleton _ _, fun x hx y hy => mem_singleton.mp hy ▸ h.past x hx⟩
  · exact h.sorted

end LogKept

theorem live_of_past (h : ∀ x ∈ times, x ≤ t) (ht : t + window ≤ t') : live window t' times = [] := by
  refine filter_eq_nil_iff.mpr fun x hx => ?_
  have := h x hx
  simp only [decide_eq_true_eq, not_lt]
  linarith

/-- What the script stores shows the allowed requests that still count, until they have all left the window. -/
theorem logScript_spec (hmono : Steady mono) (hlimit : 0 < limit) (hwindow : 0 < window)
    (h : LogKept limit window key mono t times s) (requestId : String) (hs : Same (mono t) s s') :
    ∃ s'', (memorySlidingWindowLogScript (mono t) key limit window requestId t).exec s' =
        (.ok (logDecision limit window requestId t (((s.read (mono t) key).map Stored.toLog).getD [])).2, s'') ∧
      (∀ t', t ≤ t' → live window t' (storedLog s'' (mono t') key) = live window t' (logNext limit window times t)) ∧
      s''.Holds [key, key ++ ":clock-v2"] := by
  obtain ⟨hlog, -⟩ := logDecision_spec hlimit hwindow requestId (h.shows t le_rfl)
  obtain ⟨s₁, hget, hsame⟩ := getUnlocked_spec (mono t) key s'
  rw [hs.read _ _ le_rfl] at hget
  have hroom := hsame.holds (hs.holds h.room)
  have hseconds : ∀ seconds ∈ some ((window : ℤ) + 1), 0 < seconds := fun seconds hs => Option.mem_some.mp hs ▸ by omega
  generalize hdecided : logDecision limit window requestId t (((s.read (mono t) key).map Stored.toLog).getD []) = decided
    at hlog
  have hset := setUnlocked_spec (mono t) (.log decided.1) hroom mem_cons_self hseconds
  refine ⟨s₁.put key (.log decided.1) (deadline (mono t) (some (window + 1))), ?_, fun t' ht' => ?_,
    hroom.put mem_cons_self _ _⟩
  · rw [memorySlidingWindowLogScript, Locked.exec_bind_ok hget, hdecided, Locked.exec_bind_ok hset]
    rfl
  · rw [storedLog, read_put, if_pos rfl]
    split
    case isTrue hexpired =>
      have hpassed : t + window ≤ t' := by
        have hle : mono t + ((window : ℚ) + 1) ≤ mono t' := by simpa [deadline] using hexpired
        have := hmono.slow t t' ht'
        linarith
      exact (live_of_past h.past_next hpassed).symm
    case isFalse =>
      rw [Option.map_some, Option.getD_some, Stored.toLog, hlog, live_live ht']

theorem windowLog_follows (rule : RateLimitRule) (key : String) (hmono : Steady mono) :
    Follows Prod.fst (SlidingWindowLog.check rule key mono) (fun times request => logResult rule.limit rule.window times request.1)
      (fun times request => logNext rule.limit rule.window times request.1)
      (LogKept rule.limit rule.window (logKey rule key) mono) := by
  refine ⟨fun t t' times s h ht => h.later ht, ?_, ?_⟩
  · rintro ⟨t, requestId⟩ times s e h he
    obtain ⟨s', hrun, hsame⟩ := executeAlgorithm_refused he (mono t) (2 * rule.window + 1)
      (memorySlidingWindowLogScript (mono t) (logKey rule key) rule.limit rule.window requestId) s
    exact ⟨s', Locked.exec_bind_error hrun, h.same hmono hsame⟩
  · rintro ⟨t, requestId⟩ times s h ht
    have hne : logKey rule key ≠ logKey rule key ++ ":clock-v2" := ne_append (by decide)
    obtain ⟨s', hrun, hshows, hroom⟩ := executeAlgorithm_served ht h.clock (by omega : (0 : ℤ) < 2 * rule.window + 1)
      (mem_cons_of_mem _ mem_cons_self)
      fun s' hs' => logScript_spec hmono rule.limit_pos rule.window_pos h requestId hs'
    obtain ⟨-, hresult⟩ := logDecision_spec rule.limit_pos rule.window_pos requestId (h.shows t le_rfl)
    refine ⟨_, by rw [SlidingWindowLog.check, Locked.exec_bind_ok hrun, Locked.exec_lift, hresult], h.sorted_next, h.past_next,
      h.spaced_next, fun t' ht' => ?_, clockKept_put (checkedTime_eq_ok.mp ht).1 _,
      hroom.put (mem_cons_of_mem _ mem_cons_self) _ _⟩
    rw [storedLog, read_put, if_neg hne]
    exact hshows t' ht'

end SystemDesign.RateLimiter
