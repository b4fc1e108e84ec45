import SystemDesign.Lib.DictEntries
import SystemDesign.RateLimiter.Storage

/-!
The capacity of the memory storage.

A storage that is full sweeps before it refuses a new key. If no more than three live records can
stand beside the new one, the sweep makes room: this is what the least capacity of four is for.
-/

namespace SystemDesign.RateLimiter

open List hiding not_le
open Dict

namespace MemoryStorage

variable {s : MemoryStorage} {B : String → ℚ → Prop} {m : ℚ} {key : String}

theorem Timed.length_eq (h : s.Timed B) : s.data.entries.length = s.expiry.entries.length := by
  have hkeys : s.data.keys.Perm s.expiry.keys := by
    refine (perm_ext_iff_of_nodup s.data.nodup s.expiry.nodup).mpr fun k => ?_
    exact Dict.mem_keys.trans ((h.value k).symm.trans Dict.mem_keys.symm)
  have hlength := hkeys.length_eq
  rwa [Dict.keys, Dict.keys, length_map, length_map] at hlength

/-- Each expired deadline that the loop meets frees one place. -/
theorem visit_length (m : ℚ) (budget : ℕ) (h : s.Timed B) (hbudget : budget ≤ s.expiry.entries.length) :
    (visit m budget s).data.entries.length + ((s.expiry.entries.take budget).countP fun e => e.2 ≤ m) =
      s.data.entries.length := by
  induction budget generalizing s with
  | zero => simp [visit]
  | succ budget ih =>
    rw [visit]
    cases hentries : s.expiry.entries with
    | nil => simp [hentries] at hbudget
    | cons first rest =>
      obtain ⟨key, deadline⟩ := first
      have hget : s.expiry.get? key = some deadline := mem_entries.mp (hentries ▸ mem_cons_self)
      have hnodup : key ∉ rest.map Prod.fst := by
        have hkeys := s.expiry.nodup
        rw [hentries, map_cons, nodup_cons] at hkeys
        exact hkeys.1
      have hrest : (s.expiry.erase key).entries = rest := by
        show s.expiry.entries.filter (fun e => e.1 ≠ key) = rest
        rw [hentries, filter_cons_of_neg (by simp), filter_eq_self]
        intro e he
        have hne : e.1 ≠ key := fun heq => hnodup (mem_map.mpr ⟨e, he, heq⟩)
        simpa using hne
      have hle : budget ≤ rest.length := by
        rw [hentries, length_cons] at hbudget
        omega
      rw [take_succ_cons]
      dsimp only
      by_cases hexpired : deadline ≤ m
      · obtain ⟨value, hvalue⟩ := (h.value key).mp ⟨deadline, hget⟩
        have hfreed : (s.data.erase key).entries.length + 1 = s.data.entries.length := length_erase_of_some hvalue
        have hlater := ih (h.drop key) (by rwa [drop, hrest])
        rw [if_pos hexpired, countP_cons_of_pos (by simpa using hexpired)]
        rw [drop, hrest] at hlater
        simp only [drop] at hlater ⊢
        omega
      · have hnone : (s.expiry.erase key).get? key = none := by rw [get?_erase, if_pos rfl]
        have hqueue : (s.requeue key deadline).expiry.entries = rest ++ [(key, deadline)] := by
          rw [requeue, set_entries_of_none hnone, hrest]
        have hlater := ih (h.requeue hget) (by rw [hqueue, length_append]; omega)
        rw [hqueue, take_append_of_le_length hle] at hlater
        rw [if_neg hexpired, countP_cons_of_neg (by simpa using hexpired)]
        exact hlater

variable {others : List String}

/-- Of the deadlines that the loop meets, those that are live are of few keys. -/
theorem live_length_le (h : s.Timed B) (hkey : key ∉ s.data.keys)
    (hlive : ∀ k d, B k d → m < d → k ≠ key → k ∈ others) (budget : ℕ) :
    ((s.expiry.entries.take budget).countP fun e => ¬ e.2 ≤ m) ≤ others.length := by
  rw [countP_eq_length_filter, ← length_map Prod.fst]
  have hsub : ((s.expiry.entries.take budget).filter fun e => ¬ e.2 ≤ m).Sublist s.expiry.entries :=
    filter_sublist.trans (take_sublist _ _)
  refine (Nodup.subperm (s.expiry.nodup.sublist (hsub.map Prod.fst)) fun k hk => ?_).length_le
  obtain ⟨⟨k, d⟩, he, rfl⟩ := mem_map.mp hk
  have hget : s.expiry.get? k = some d := mem_entries.mp (hsub.subset he)
  have hafter : m < d := by simpa using (mem_filter.mp he).2
  refine hlive k d (h.bound k d hget) hafter fun heq => hkey ?_
  exact Dict.mem_keys.mpr (heq ▸ (h.value k).mp ⟨d, hget⟩)

/-- With at most three live records beside the new one, a key always finds room. -/
theorem makeRoom_returns (h : s.Timed B) (hothers : others.length ≤ 3)
    (hlive : ∀ k d, B k d → m < d → k ≠ key → k ∈ others) :
    ∃ s', (makeRoom m key).exec s = (.ok (), s') ∧ Same m s s' ∧
      (key ∉ s'.data.keys → s'.data.entries.length < s'.maxKeys) := by
  rw [makeRoom, Locked.exec_bind_ok (Locked.exec_read _ s)]
  by_cases hneeded : (!s.data.contains key && s.isFull) = true
  · rw [if_pos hneeded, Locked.exec_bind_ok (Locked.exec_effect _ s), Locked.exec_bind_ok (Locked.exec_read _ _)]
    have hkey : key ∉ s.data.keys := by
      have hcontains : s.data.contains key = false := by
        rw [Bool.and_eq_true, Bool.not_eq_true'] at hneeded
        exact hneeded.1
      exact Assoc.lookup_eq_none_iff.mp (contains_eq_false_iff.mp hcontains)
    have hswept := same_sweep 128 true m s
    -- Of at most 128 deadlines at most three are live: the others make room.
    have hroom : (s.sweep 128 true m).data.entries.length < s.maxKeys := by
      have hlength := visit_length m (min 128 s.expiry.entries.length)
        (⟨h.value, h.bound, h.fits⟩ : Timed B { s with nextSweep := m + 1 / 20 }) (min_le_right _ _)
      have hlive' := (live_length_le h hkey hlive (min 128 s.expiry.entries.length)).trans hothers
      have htotal := (s.expiry.entries.take (min 128 s.expiry.entries.length)).length_eq_countP_add_countP
        fun e => decide (e.2 ≤ m)
      have hmax := s.maxKeys_ge
      have hfits := h.fits
      have heq := h.length_eq
      simp only [length_take, decide_eq_true_eq] at htotal
      simp only [sweep, Bool.not_true, Bool.false_and, if_false, Bool.false_eq_true] at hlength ⊢
      omega
    have hnotFull : (s.sweep 128 true m).isFull = false := by
      rw [isFull, decide_eq_false_iff_not, hswept.maxKeys]
      exact not_le.mpr hroom
    refine ⟨s.sweep 128 true m, by rw [hnotFull, Locked.exec_require rfl], hswept, fun _ => ?_⟩
    rw [hswept.maxKeys]
    exact hroom
  · rw [if_neg hneeded]
    refine ⟨s, rfl, .refl m s, fun hkey => ?_⟩
    have hcontains : s.data.contains key = false := contains_eq_false_iff.mpr (Assoc.lookup_eq_none_iff.mpr hkey)
    simpa [hcontains, isFull] using hneeded

/-- A key that finds room is written with its deadline. -/
theorem Timed.put (h : s.Timed B) (hroom : key ∉ s.data.keys → s.data.entries.length < s.maxKeys) (value : Stored)
    {deadline : ℚ} (hbound : B key deadline) : (s.put key value (some deadline)).Timed B := by
  refine ⟨fun k => ?_, fun k d hd => ?_, ?_⟩
  · simp only [MemoryStorage.put, get?_set]
    by_cases hk : k = key
    · simp [hk]
    · simpa [hk] using h.value k
  · obtain ⟨rfl, rfl⟩ | ⟨-, hd⟩ := get?_set_cases hd
    · exact hbound
    · exact h.bound k d hd
  · show (s.data.set key value).entries.length ≤ s.maxKeys
    cases hget : s.data.get? key with
    | none =>
      rw [length_set_of_none hget]
      exact hroom (Assoc.lookup_eq_none_iff.mp hget)
    | some v =>
      rw [length_set_of_some hget]
      exact h.fits

theorem setUnlocked_returns (h : s.Timed B) (hothers : others.length ≤ 3)
    (hlive : ∀ k d, B k d → m < d → k ≠ key → k ∈ others) (value : Stored) {seconds : ℤ} (hseconds : 0 < seconds)
    (hbound : B key (m + seconds)) :
    ∃ s', (setUnlocked m key value (some seconds)).exec s = (.ok (), s'.put key value (some (m + seconds))) ∧ Same m s s' ∧
      (s'.put key value (some (m + seconds))).Timed B := by
  obtain ⟨s', hrun, hsame, hroom⟩ := makeRoom_returns h hothers hlive
  have httl : ∀ x ∈ some seconds, 0 < x := fun x hx => Option.mem_some.mp hx ▸ hseconds
  refine ⟨s', ?_, hsame, (hsame.timed B h).put hroom value hbound⟩
  rw [setUnlocked, Locked.exec_bind_ok (Locked.exec_require httl _ s), Locked.exec_bind_ok hrun, Locked.exec_effect]
  rfl

end MemoryStorage

end SystemDesign.RateLimiter
