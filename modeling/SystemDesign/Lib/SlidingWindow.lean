import Mathlib

/-!
Sliding-window counters.

A window keeps the times that were recorded, the oldest first, and drops those that are not after
a cutoff. An event may happen before it is recorded; what is bounded are the events.
-/

namespace SystemDesign

open List hiding not_lt

variable {τ : Type} [LinearOrder τ]

/-- Drop what is not after the cutoff. -/
def pruneWindow (cutoff : τ) (window : List τ) : List τ := window.dropWhile fun x => x ≤ cutoff

/-- After `limit` events the window has passed the first of them. -/
def Spaced (cut : τ → τ) (limit : ℕ) (events : List τ) : Prop :=
  ∀ a x mid y d, events = a ++ x :: (mid ++ y :: d) → limit ≤ mid.length + 1 → x ≤ cut y

/-- The window accounts for the latest events, and the cutoff has passed the others. -/
def Counted (cut : τ → τ) (now : τ) (events window : List τ) : Prop :=
  ∃ old recent, events = old ++ recent ∧ List.Forall₂ (· ≤ ·) recent window ∧ ∀ x ∈ old, x ≤ cut now

variable {cut : τ → τ} {limit : ℕ} {events window : List τ} {now now' e : τ}

theorem pruneWindow_suffix (cutoff : τ) (window : List τ) :
    ∃ dropped, window = dropped ++ pruneWindow cutoff window ∧ ∀ x ∈ dropped, x ≤ cutoff := by
  refine ⟨window.takeWhile fun x => x ≤ cutoff, (takeWhile_append_dropWhile).symm, fun x hx => ?_⟩
  have hle := mem_takeWhile_imp hx
  exact of_decide_eq_true hle

theorem Spaced.nil : Spaced cut limit [] := by
  intro a x mid y d h
  simp at h

/-- No more than `limit` events lie in any window. -/
theorem Spaced.count (h : Spaced cut limit events) (hcut : Monotone cut) (hlimit : 0 < limit) (t : τ) :
    (events.countP fun x => cut t < x ∧ x ≤ t) ≤ limit := by
  by_contra hmore
  rw [countP_eq_length_filter] at hmore
  generalize hfound : events.filter (fun x => cut t < x ∧ x ≤ t) = found at hmore
  cases found with
  | nil => exact hmore (Nat.zero_le _)
  | cons x rest =>
    rcases rest.eq_nil_or_concat' with rfl | ⟨mid, y, rfl⟩
    · exact hmore hlimit
    obtain ⟨a, later, rfl, -, hx, hrest⟩ := filter_eq_cons_iff.mp hfound
    obtain ⟨between, tail, rfl, hmid, htail⟩ := filter_eq_append_iff.mp hrest
    obtain ⟨skipped, d, rfl, -, hy, -⟩ := filter_eq_cons_iff.mp htail
    have hlength : limit ≤ (between ++ skipped).length + 1 := by
      have hle : mid.length ≤ between.length := hmid ▸ length_filter_le _ _
      simp only [length_cons, length_append, length_nil] at hmore ⊢
      omega
    have hspaced := h a x (between ++ skipped) y d (by simp) hlength
    rw [decide_eq_true_eq] at hx hy
    exact absurd hx.1 (not_lt.mpr (hspaced.trans (hcut hy.2)))

theorem Counted.mono (h : Counted cut now events window) (hcut : Monotone cut) (hnow : now ≤ now') :
    Counted cut now' events window := by
  obtain ⟨old, recent, hevents, hrecent, hold⟩ := h
  exact ⟨old, recent, hevents, hrecent, fun x hx => (hold x hx).trans (hcut hnow)⟩

theorem Counted.prune (h : Counted cut now events window) (hcut : Monotone cut) (hnow : now ≤ now') :
    Counted cut now' events (pruneWindow (cut now') window) := by
  obtain ⟨old, recent, rfl, hrecent, hold⟩ := h
  obtain ⟨dropped, hwindow, hdropped⟩ := pruneWindow_suffix (cut now') window
  rw [hwindow] at hrecent
  have htake := forall₂_take_append recent dropped _ hrecent
  have hdrop := forall₂_drop_append recent dropped _ hrecent
  refine ⟨old ++ recent.take dropped.length, recent.drop dropped.length, by simp, hdrop, fun x hx => ?_⟩
  obtain hx | hx := mem_append.mp hx
  · exact (hold x hx).trans (hcut hnow)
  · obtain ⟨i, hi, rfl⟩ := mem_iff_getElem.mp hx
    have hi' : i < dropped.length := htake.length_eq ▸ hi
    have hle := htake.get hi hi'
    exact hle.trans (hdropped _ (getElem_mem hi'))

theorem Counted.record (h : Counted cut now events window) (hcut : Monotone cut) (hnow : now ≤ now') (he : e ≤ now') :
    Counted cut now' (events ++ [e]) (window ++ [now']) := by
  obtain ⟨old, recent, rfl, hrecent, hold⟩ := h.mono hcut hnow
  exact ⟨old, recent ++ [e], append_assoc _ _ _, rel_append hrecent (.cons he .nil), hold⟩

/-- An event is admitted only while the window has room. -/
theorem Spaced.accept (h : Spaced cut limit events) (hcounted : Counted cut now events window) (hcut : Monotone cut)
    (hroom : window.length < limit) (he : now ≤ e) : Spaced cut limit (events ++ [e]) := by
  obtain ⟨old, recent, rfl, hrecent, hold⟩ := hcounted
  intro a x mid y d hsplit hfar
  rcases d.eq_nil_or_concat' with rfl | ⟨d, z, rfl⟩
  · have hlast : (old ++ recent) ++ [e] = (a ++ x :: mid) ++ [y] := by rw [hsplit]; simp
    obtain ⟨hevents, hy⟩ := append_inj' hlast rfl
    obtain rfl : e = y := singleton_inj.mp hy
    rw [← hrecent.length_eq] at hroom
    refine (hold x ?_).trans (hcut he)
    obtain ⟨as, -, hmid⟩ | ⟨cs, rfl, hmid⟩ := append_eq_append_iff.mp hevents
    · rw [hmid] at hroom
      simp only [length_append, length_cons] at hroom
      omega
    · cases cs with
      | nil =>
        rw [nil_append] at hmid
        rw [← hmid, length_cons] at hroom
        omega
      | cons first cs =>
        cases hmid
        exact mem_append_right _ mem_cons_self
  · have hsplit : (old ++ recent) ++ [e] = (a ++ x :: (mid ++ y :: d)) ++ [z] := by rw [hsplit]; simp
    obtain ⟨hsplit, -⟩ := append_inj' hsplit rfl
    exact h a x mid y d hsplit hfar

/-! ### Checking, happening, recording -/

/-- A counter in use: an event that was admitted may not have happened yet, and one that happened may
not have been recorded. -/
structure Limited (cut : τ → τ) (limit : ℕ) (now : τ) (events unrecorded window : List τ) (admitted : Prop) : Prop where
  spaced : Spaced cut limit events
  counted : ∃ counted, events = counted ++ unrecorded ∧ Counted cut now counted window
  room : admitted → window.length < limit

variable {unrecorded window' : List τ} {admitted admitted' : Prop}

theorem Limited.empty : Limited cut limit now [] [] [] False := ⟨.nil, ⟨[], rfl, [], [], rfl, .nil, nofun⟩, nofun⟩

theorem Limited.keep (h : Limited cut limit now events unrecorded window admitted) (hcut : Monotone cut) (hnow : now ≤ now')
    (hwindow : window' = window ∨ ∃ t, now ≤ t ∧ t ≤ now' ∧ window' = pruneWindow (cut t) window)
    (hadmitted : admitted' → admitted ∨ window'.length < limit) :
    Limited cut limit now' events unrecorded window' admitted' := by
  obtain ⟨counted, hevents, hcounted⟩ := h.counted
  obtain rfl | ⟨t, ht, ht', rfl⟩ := hwindow
  · exact ⟨h.spaced, ⟨counted, hevents, hcounted.mono hcut hnow⟩, fun h' => (hadmitted h').elim h.room id⟩
  · refine ⟨h.spaced, ⟨counted, hevents, (hcounted.prune hcut ht).mono hcut ht'⟩, fun h' => (hadmitted h').elim (fun hold => ?_) id⟩
    obtain ⟨dropped, hdropped, -⟩ := pruneWindow_suffix (cut t) window
    have hroom := h.room hold
    rw [hdropped, length_append] at hroom
    exact Nat.lt_of_le_of_lt (Nat.le_add_left _ _) hroom

theorem Limited.happen (h : Limited cut limit now events [] window admitted) (hcut : Monotone cut) (hnow : now ≤ e)
    (hold : admitted) (hadmitted : ¬ admitted') : Limited cut limit e (events ++ [e]) [e] window admitted' := by
  obtain ⟨counted, hevents, hcounted⟩ := h.counted
  rw [append_nil] at hevents
  subst hevents
  exact ⟨h.spaced.accept hcounted hcut (h.room hold) hnow, ⟨events, rfl, hcounted.mono hcut hnow⟩, fun h' => absurd h' hadmitted⟩

theorem Limited.record {t : τ} (h : Limited cut limit now events [e] window admitted) (hcut : Monotone cut) (he : e ≤ t)
    (hnow : now ≤ t) (ht : t ≤ now') (hadmitted : ¬ admitted') : Limited cut limit now' events [] (window ++ [t]) admitted' := by
  obtain ⟨counted, rfl, hcounted⟩ := h.counted
  exact ⟨h.spaced, ⟨_, (append_nil _).symm, (hcounted.record hcut hnow he).mono hcut ht⟩, fun h' => absurd h' hadmitted⟩

end SystemDesign
