import SystemDesign.RateLimiter.WindowLog

/-!
What the sliding-window log promises: no window of its length holds more than the limit, only a full window
denies, and the wait that is answered is exact.

A window is open at one end: two requests that are a window's length apart never count together.
-/

namespace SystemDesign.RateLimiter

open List hiding le_antisymm not_le not_lt
open MemoryStorage

variable {rule : RateLimitRule} {key : String} {limit window : ℕ} {mono : ℚ → ℚ} {t t' r : ℚ} {times : List ℚ}
  {s : MemoryStorage}

/-- The same bound for windows that are open at their end. -/
theorem count_before (hspaced : Spaced (fun x : ℚ => x - window) limit times) (hlimit : 0 < limit)
    (hsorted : times.Pairwise (· ≤ ·)) (a : ℚ) : (times.countP fun x => a ≤ x ∧ x < a + window) ≤ limit := by
  rw [countP_eq_length_filter]
  rcases hfound : (times.filter fun x => a ≤ x ∧ x < a + window).eq_nil_or_concat' with hnil | ⟨found, last, hlast⟩
  · rw [hnil]
    exact Nat.zero_le _
  · -- The requests of the window lie in the one that ends at its last request.
    have hmem : ∀ x ∈ times, a ≤ x ∧ x < a + window → x ≤ last := by
      intro x hx hin
      have hx' : x ∈ found ++ [last] := hlast ▸ mem_filter.mpr ⟨hx, by simpa using hin⟩
      have hsorted' : (found ++ [last]).Pairwise (· ≤ ·) := hlast ▸ hsorted.sublist filter_sublist
      obtain hx' | hx' := mem_append.mp hx'
      · exact (pairwise_append.mp hsorted').2.2 x hx' last mem_cons_self
      · exact (mem_singleton.mp hx').le
    have hin : a ≤ last ∧ last < a + window := by
      have : last ∈ times.filter fun x => a ≤ x ∧ x < a + window := hlast ▸ mem_append_right _ mem_cons_self
      simpa using (mem_filter.mp this).2
    rw [← countP_eq_length_filter]
    refine (countP_mono_left fun x hx hpx => ?_).trans (hspaced.count (monotone_cut window) hlimit last)
    have hpx' : a ≤ x ∧ x < a + window := by simpa using hpx
    have hle := hmem x hx hpx'
    simp only [decide_eq_true_eq]
    exact ⟨by linarith [hpx'.1, hin.2], hle⟩

/-- The abstract log holds the requests that were allowed. -/
theorem foldl_logNext (rule : RateLimitRule) (times : List ℚ) (requests : List (ℚ × String)) :
    requests.foldl (advance Prod.fst fun times request => logNext rule.limit rule.window times request.1) times =
      times ++ allowedTimes (requests.map Prod.fst)
        (replies Prod.fst (fun times request => logResult rule.limit rule.window times request.1)
          (fun times request => logNext rule.limit rule.window times request.1) times requests) := by
  induction requests generalizing times with
  | nil => exact (append_nil _).symm
  | cons q requests ih =>
    rw [foldl_cons, map_cons, ih]
    by_cases ht : 0 ≤ q.1 ∧ q.1 ≤ 10 ^ 12
    · rw [replies_accepted ht, allowedTimes_cons, advance, if_pos ht]
      by_cases hroom : (live rule.window q.1 times).length < rule.limit
      · simp [isAllowed, logResult, logNext, hroom]
      · simp [isAllowed, logResult, logNext, hroom]
    · obtain ⟨e, he⟩ := replies_refused ht requests
      rw [he, allowedTimes_cons, advance, if_neg ht]
      simp [isAllowed]

theorem logResult_allowed : (logResult limit window times t).allowed = true ↔ (live window t times).length < limit := by
  by_cases h : (live window t times).length < limit <;> simp [logResult, h]

namespace LogKept

theorem live_length_le (h : LogKept limit window key mono t times s) (hlimit : 0 < limit) :
    (live window t times).length ≤ limit := by
  have hcount := h.spaced.count (monotone_cut window) hlimit t
  rw [countP_eq_length_filter] at hcount
  refine le_of_eq_of_le (congrArg List.length (filter_congr fun x hx => ?_)) hcount
  simp [h.past x hx]

/-- After a denial the wait ends when the oldest request that counts leaves the window. -/
theorem retry (h : LogKept limit window key mono t times s) (hlimit : 0 < limit) (hle : t ≤ t')
    (hretry : (logResult limit window times t).retryAfter = some r) :
    (logResult limit window (logNext limit window times t) t').allowed = true ↔ t + r ≤ t' := by
  have hfull : ¬ (live window t times).length < limit := by
    intro hroom
    simp [logResult, hroom] at hretry
  have hlength : (live window t times).length = limit := le_antisymm (h.live_length_le hlimit) (not_lt.mp hfull)
  obtain ⟨x, hx⟩ := exists_mem_of_length_pos (hlength ▸ hlimit)
  obtain ⟨oldest, hmem, hmin, hwait, -⟩ := oldestWait_of_mem hx fun y hy => (mem_live.mp hy).2
  have hr : t + r = oldest + window := by
    have hr : oldestWait window t (live window t times) = r := by simpa [logResult, hfull] using hretry
    rw [← hr, hwait]
    ring
  rw [logResult_allowed, logNext, if_neg hfull, hr, ← live_live hle]
  constructor
  · intro hroom
    by_contra hearly
    -- Before that moment every request that counted still does.
    have hall : live window t' (live window t times) = live window t times := by
      refine filter_eq_self.mpr fun y hy => decide_eq_true ?_
      have := hmin y hy
      linarith [not_le.mp hearly]
    rw [hall] at hroom
    exact hfull hroom
  · intro hlate
    have hsub : (live window t' (live window t times)).Sublist (live window t times) := filter_sublist
    refine hlength ▸ lt_of_le_of_ne hsub.length_le fun heq => ?_
    rw [← hsub.eq_of_length heq] at hmem
    have := (mem_live.mp hmem).2
    linarith

end LogKept

theorem logKept_new (rule : RateLimitRule) (key : String) (mono : ℚ → ℚ) {maxKeys : ℕ} (h : 4 ≤ maxKeys) (t : ℚ) :
    LogKept rule.limit rule.window (logKey rule key) mono t [] (.new maxKeys h) :=
  ⟨List.Pairwise.nil, nofun, .nil, fun _ _ => rfl, fun _ _ => .inl rfl, fun _ hk => (nomatch hk),
    (by decide : 2 ≤ 4).trans h⟩

/-- The times of the requests that were allowed, of a list sent to a new storage. -/
def allowedRequests (rule : RateLimitRule) (key : String) (s : MemoryStorage) (requests : List (ℚ × String)) : List ℚ :=
  allowedTimes (requests.map Prod.fst) (answers (SlidingWindowLog.check rule key id) s requests)

/-- After a list of requests the storage keeps those that were allowed. -/
theorem kept_after (rule : RateLimitRule) (key : String) {maxKeys : ℕ} (hkeys : 4 ≤ maxKeys) {requests : List (ℚ × String)}
    (hclock : (requests.map Prod.fst ++ [t']).Pairwise (· ≤ ·)) :
    LogKept rule.limit rule.window (logKey rule key) id t' (allowedRequests rule key (.new maxKeys hkeys) requests)
      (after (SlidingWindowLog.check rule key id) (.new maxKeys hkeys) requests) := by
  obtain ⟨start, hsorted⟩ := exists_start hclock
  have hfollows := windowLog_follows rule key steady_id
  have hnew := logKept_new rule key id hkeys start
  have hafter := hfollows.after_eq hnew hsorted
  rw [foldl_logNext, nil_append] at hafter
  rwa [allowedRequests, hfollows.answers_eq hnew (hsorted.sublist (by simp))]

/-- Sliding-window log: no window holds more than the limit, a denial means a full window, expiry drops nothing that
counts, and a lone retry is allowed exactly from the announced moment on. -/
theorem window_log_limits (rule : RateLimitRule) (key : String) {maxKeys : ℕ} (hkeys : 4 ≤ maxKeys)
    {requests : List (ℚ × String)} (hclock : (requests.map Prod.fst).Pairwise (· ≤ ·)) :
    (∀ a : ℚ,
      ((allowedRequests rule key (.new maxKeys hkeys) requests).countP fun x => a - rule.window < x ∧ x ≤ a) ≤ rule.limit ∧
      ((allowedRequests rule key (.new maxKeys hkeys) requests).countP fun x => a ≤ x ∧ x < a + rule.window) ≤ rule.limit) ∧
    (∀ before q later, requests = before ++ q :: later → ∀ denied s,
      (SlidingWindowLog.check rule key id q).exec (after (SlidingWindowLog.check rule key id) (.new maxKeys hkeys) before) =
        (.ok denied, s) → denied.allowed = false →
      rule.limit ≤ (allowedRequests rule key (.new maxKeys hkeys) before).countP
        fun x => q.1 - rule.window < x ∧ x ≤ q.1) ∧
    (answers (SlidingWindowLog.check rule key id) (.new maxKeys hkeys) requests =
        answers (SlidingWindowLog.check rule key fun _ => 0) (.new maxKeys hkeys) requests ∧
      ∀ done rest t', requests = done ++ rest → (∀ q ∈ done, q.1 ≤ t') →
        live rule.window t' (storedLog (after (SlidingWindowLog.check rule key id) (.new maxKeys hkeys) done) t'
          (logKey rule key)) = live rule.window t' (allowedRequests rule key (.new maxKeys hkeys) done)) ∧
    ∀ before q q' later, requests = before ++ q :: q' :: later → q'.1 ≤ 10 ^ 12 → ∀ denied s r,
      (SlidingWindowLog.check rule key id q).exec (after (SlidingWindowLog.check rule key id) (.new maxKeys hkeys) before) =
        (.ok denied, s) → denied.retryAfter = some r →
      ∃ result, ((SlidingWindowLog.check rule key id q').exec s).1 = .ok result ∧
        (result.allowed = true ↔ q.1 + r ≤ q'.1) := by
  obtain ⟨start, hsorted⟩ := exists_start hclock
  obtain ⟨last, hend⟩ := exists_end hsorted
  have hfollows := windowLog_follows rule key steady_id
  refine ⟨fun a => ?_, fun before q later hrequests denied s hrun hdenied => ?_, ⟨?_, fun done rest t' hrequests hpast => ?_⟩,
    fun before q q' later hrequests hq' denied s r hrun hretry => ?_⟩
  · have hlast : (requests.map Prod.fst ++ [last]).Pairwise (· ≤ ·) := (pairwise_cons.mp hend).2
    have hkept := kept_after rule key hkeys hlast
    exact ⟨hkept.spaced.count (monotone_cut rule.window) rule.limit_pos a,
      count_before hkept.spaced rule.limit_pos hkept.sorted a⟩
  · have hbefore : (before.map Prod.fst ++ [q.1]).Pairwise (· ≤ ·) := hclock.sublist (by simp [hrequests])
    have hkept := kept_after rule key hkeys hbefore
    obtain ⟨-, rfl, -⟩ := hfollows.answered hkept hrun
    have hfull : rule.limit ≤ (live rule.window q.1 (allowedRequests rule key (.new maxKeys hkeys) before)).length := by
      refine not_lt.mp fun hroom => ?_
      rw [logResult_allowed.mpr hroom] at hdenied
      cases hdenied
    rw [countP_eq_length_filter]
    refine hfull.trans_eq (congrArg List.length (filter_congr fun x hx => ?_))
    simp [hkept.past x hx]
  · rw [hfollows.answers_eq (logKept_new rule key id hkeys start) hsorted,
      (windowLog_follows rule key steady_still).answers_eq (logKept_new rule key (fun _ => 0) hkeys start) hsorted]
  · have hdone : (done.map Prod.fst ++ [t']).Pairwise (· ≤ ·) := by
      refine pairwise_append.mpr ⟨hclock.sublist (by simp [hrequests]), pairwise_singleton _ _, ?_⟩
      intro x hx y hy
      obtain ⟨q, hq, rfl⟩ := mem_map.mp hx
      exact mem_singleton.mp hy ▸ hpast q hq
    exact (kept_after rule key hkeys hdone).shows t' le_rfl
  · have hbefore : (before.map Prod.fst ++ [q.1]).Pairwise (· ≤ ·) := hclock.sublist (by simp [hrequests])
    have hkept := kept_after rule key hkeys hbefore
    obtain ⟨hvalid, rfl, hs⟩ := hfollows.answered hkept hrun
    have hpair : ([q.1, q'.1] : List ℚ).Pairwise (· ≤ ·) := hclock.sublist (by simp [hrequests])
    have hle : q.1 ≤ q'.1 := (pairwise_cons.mp hpair).1 q'.1 mem_cons_self
    have hvalid' : checkedTime q'.1 = .ok q'.1 := checkedTime_eq_ok.mpr ⟨(checkedTime_eq_ok.mp hvalid).1.trans hle, hq'⟩
    obtain ⟨s', hrun', -⟩ := hfollows.served q' _ s (hs.later hle) hvalid'
    exact ⟨_, by rw [hrun'], hkept.retry rule.limit_pos hle hretry⟩

def onceEachSecond : RateLimitRule where
  limit := 1
  window := 1
  algorithm := .slidingWindowLog
  capacity := none
  limit_range := RateLimitRule.once_range
  window_range := RateLimitRule.once_range
  capacity_range := RateLimitRule.uncapped_range
  capacity_algorithm := nofun

theorem window_log_limits_onceEachSecond :
    ((allowedRequests onceEachSecond "key" (.new 4 le_rfl) [(0, "a"), (0, "b"), (1, "c")]).countP
      fun x => 1 - (onceEachSecond.window : ℚ) < x ∧ x ≤ 1) ≤ onceEachSecond.limit :=
  ((window_log_limits onceEachSecond "key" le_rfl (by simp)).1 1).1

end SystemDesign.RateLimiter
