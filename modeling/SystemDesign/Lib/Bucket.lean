import Mathlib.Algebra.Order.Field.Basic
import Mathlib.Tactic.Linarith

/-!
Token buckets that are refilled lazily, over an ordered field.

A bucket remembers its tokens at the moment of its last request. Between two moments no more
requests are granted than the bucket holds and gains.
-/

namespace SystemDesign

open List hiding not_le

structure Bucket (K : Type) where
  tokens : K
  since : K

namespace Bucket

variable {K : Type} [Field K] [LinearOrder K] [IsStrictOrderedRing K] (capacity rate : K)

/-- The tokens at a later moment. -/
def available (b : Bucket K) (now : K) : K := min capacity (b.tokens + (now - b.since) * rate)

/-- The bucket after a request, which takes a token if there is one. -/
def next (b : Bucket K) (now : K) : Bucket K :=
  ⟨if 1 ≤ b.available capacity rate now then b.available capacity rate now - 1
    else b.available capacity rate now, now⟩

/-- The same bucket, refilled. -/
def refilled (b : Bucket K) (now : K) : Bucket K := ⟨b.available capacity rate now, now⟩

/-- The requests of a list that are granted. -/
def granted : Bucket K → List K → List K
  | _, [] => []
  | b, now :: later =>
    if 1 ≤ b.available capacity rate now then now :: granted (b.next capacity rate now) later
    else granted (b.next capacity rate now) later

structure Holds (b : Bucket K) : Prop where
  nonneg : 0 ≤ b.tokens
  le : b.tokens ≤ capacity

variable {capacity rate} {b : Bucket K} {now : K}

section
omit [IsStrictOrderedRing K]

theorem available_le : b.available capacity rate now ≤ capacity := min_le_left _ _

theorem available_le_gain : b.available capacity rate now ≤ b.tokens + (now - b.since) * rate := min_le_right _ _

end

theorem Holds.available_nonneg (h : b.Holds capacity) (hrate : 0 ≤ rate) (hnow : b.since ≤ now) :
    0 ≤ b.available capacity rate now :=
  le_min (h.nonneg.trans h.le) (add_nonneg h.nonneg (mul_nonneg (sub_nonneg.mpr hnow) hrate))

theorem Holds.next (h : b.Holds capacity) (hrate : 0 ≤ rate) (hnow : b.since ≤ now) :
    (b.next capacity rate now).Holds capacity := by
  have hle : b.available capacity rate now ≤ capacity := available_le
  have hnonneg := h.available_nonneg hrate hnow
  rw [Bucket.next]
  split
  case isTrue hone => exact ⟨sub_nonneg.mpr hone, (sub_le_self _ zero_le_one).trans hle⟩
  case isFalse => exact ⟨hnonneg, hle⟩

theorem Holds.available_of_full (h : b.Holds capacity) (hfull : capacity ≤ (now - b.since) * rate) :
    b.available capacity rate now = capacity :=
  min_eq_left (hfull.trans (le_add_of_nonneg_left h.nonneg))

omit [IsStrictOrderedRing K] in
theorem Holds.available_since (h : b.Holds capacity) : b.available capacity rate b.since = b.tokens := by
  rw [available, sub_self, zero_mul, add_zero, min_eq_right h.le]

theorem Holds.refilled (h : b.Holds capacity) (hrate : 0 ≤ rate) (hnow : b.since ≤ now) :
    (b.refilled capacity rate now).Holds capacity :=
  ⟨h.available_nonneg hrate hnow, available_le⟩

theorem available_of_capacity (hrate : 0 ≤ rate) (hnow : b.since ≤ now) (hfull : b.tokens = capacity) :
    b.available capacity rate now = capacity :=
  min_eq_left (hfull ▸ le_add_of_nonneg_right (mul_nonneg (sub_nonneg.mpr hnow) hrate))

section
omit [IsStrictOrderedRing K]

theorem available_refilled : (b.refilled capacity rate now).available capacity rate now = b.available capacity rate now := by
  rw [available, refilled, sub_self, zero_mul, add_zero, min_eq_right available_le]

theorem next_refilled : (b.refilled capacity rate now).next capacity rate now = b.next capacity rate now := by
  simp only [next, available_refilled]

theorem granted_refilled (later : List K) :
    (b.refilled capacity rate now).granted capacity rate (now :: later) = b.granted capacity rate (now :: later) := by
  simp only [granted, next_refilled, available_refilled]

theorem granted_subset (b : Bucket K) (times : List K) : b.granted capacity rate times ⊆ times := by
  induction times generalizing b with
  | nil => exact Subset.refl _
  | cons now later ih =>
    rw [granted]
    split
    · exact cons_subset_cons _ (ih _)
    · exact subset_cons_of_subset _ (ih _)

theorem le_of_mem_granted {later : List K} (hsorted : (now :: later).Pairwise (· ≤ ·)) {t : K}
    (ht : t ∈ b.granted capacity rate (now :: later)) : now ≤ t := by
  obtain rfl | ht := mem_cons.mp (granted_subset b _ ht)
  · exact le_rfl
  · exact (pairwise_cons.mp hsorted).1 t ht

theorem countP_granted_eq_zero {later : List K} (hsorted : (now :: later).Pairwise (· ≤ ·)) {e : K}
    (huntil : ¬ now ≤ e) : ((b.granted capacity rate (now :: later)).countP fun t => t ≤ e) = 0 := by
  refine countP_eq_zero.mpr fun t ht => ?_
  have hle := le_of_mem_granted hsorted ht
  simpa using (not_le.mp huntil).trans_le hle

end

/-- From now until `e`, a bucket grants no more than it holds and gains. -/
theorem granted_until (h : b.Holds capacity) (hrate : 0 ≤ rate) {times : List K} {e : K}
    (hsorted : (b.since :: times).Pairwise (· ≤ ·)) (hsince : b.since ≤ e) :
    (((b.granted capacity rate times).countP fun t => t ≤ e : ℕ) : K) ≤ b.tokens + (e - b.since) * rate := by
  induction times generalizing b with
  | nil =>
    simp only [granted, countP_nil, Nat.cast_zero]
    exact add_nonneg h.nonneg (mul_nonneg (sub_nonneg.mpr hsince) hrate)
  | cons now later ih =>
    obtain ⟨hfirst, hrest⟩ := pairwise_cons.mp hsorted
    have hnow : b.since ≤ now := hfirst now mem_cons_self
    by_cases huntil : now ≤ e
    · have hlater := ih (h.next hrate hnow) hrest huntil
      have hgain : b.available capacity rate now ≤ b.tokens + (now - b.since) * rate := available_le_gain
      rw [granted]
      split
      case isTrue hone =>
        rw [countP_cons_of_pos (by simpa using huntil), Nat.cast_add, Nat.cast_one]
        simp only [Bucket.next, if_pos hone] at hlater ⊢
        linarith
      case isFalse hone =>
        simp only [Bucket.next, if_neg hone] at hlater ⊢
        linarith
    · rw [countP_granted_eq_zero hrest huntil, Nat.cast_zero]
      exact add_nonneg h.nonneg (mul_nonneg (sub_nonneg.mpr hsince) hrate)

/-- In any interval, a bucket grants no more than its capacity and what it gains there. -/
theorem granted_within (h : b.Holds capacity) (hrate : 0 ≤ rate) {times : List K}
    (hsorted : (b.since :: times).Pairwise (· ≤ ·)) {a e : K} (hle : a ≤ e) :
    (((b.granted capacity rate times).countP fun t => a ≤ t ∧ t ≤ e : ℕ) : K) ≤ capacity + rate * (e - a) := by
  induction times generalizing b with
  | nil =>
    simp only [granted, countP_nil, Nat.cast_zero]
    exact add_nonneg (h.nonneg.trans h.le) (mul_nonneg hrate (sub_nonneg.mpr hle))
  | cons now later ih =>
    obtain ⟨hfirst, hrest⟩ := pairwise_cons.mp hsorted
    have hnow : b.since ≤ now := hfirst now mem_cons_self
    have hnext := h.next hrate hnow
    by_cases hfrom : a ≤ now
    · -- From here on every request lies after the interval's start.
      have hafter : ((b.granted capacity rate (now :: later)).countP fun t => a ≤ t ∧ t ≤ e) =
          (b.granted capacity rate (now :: later)).countP fun t => t ≤ e := by
        refine countP_congr fun t ht => ?_
        have hge : a ≤ t := hfrom.trans (le_of_mem_granted hrest ht)
        simp [hge]
      rw [hafter]
      by_cases huntil : now ≤ e
      · have hsorted' : (now :: now :: later).Pairwise (· ≤ ·) :=
          pairwise_cons.mpr ⟨forall_mem_cons.mpr ⟨le_rfl, (pairwise_cons.mp hrest).1⟩, hrest⟩
        have hsum := granted_until (h.refilled hrate hnow) hrate hsorted' huntil
        rw [granted_refilled] at hsum
        have hcapacity : b.available capacity rate now ≤ capacity := available_le
        have hgain : (e - now) * rate ≤ (e - a) * rate := mul_le_mul_of_nonneg_right (sub_le_sub_left hfrom e) hrate
        rw [mul_comm rate]
        exact hsum.trans (add_le_add hcapacity hgain)
      · rw [countP_granted_eq_zero hrest huntil, Nat.cast_zero]
        exact add_nonneg (h.nonneg.trans h.le) (mul_nonneg hrate (sub_nonneg.mpr hle))
    · have hskip : ((b.granted capacity rate (now :: later)).countP fun t => a ≤ t ∧ t ≤ e) =
          ((b.next capacity rate now).granted capacity rate later).countP fun t => a ≤ t ∧ t ≤ e := by
        rw [granted]
        split
        · exact countP_cons_of_neg (by simp [hfrom])
        · rfl
      rw [hskip]
      exact ih hnext hrest

end Bucket

end SystemDesign
