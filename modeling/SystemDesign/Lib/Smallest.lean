import Mathlib.Data.List.Sort
import Mathlib.Data.List.Perm.Subperm

/-!
The `k` smallest items of a list.

An item is beaten when `k` items are below it. The smallest are those that are not beaten, and leaving beaten items away
changes nothing (`smallest_eq_of_covered`).
-/

namespace SystemDesign.Smallest

open List hiding le_antisymm le_total le_trans not_le

variable {α : Type} [LinearOrder α]

/-- `sorted(items)[:k]` -/
def smallest (k : ℕ) (items : List α) : List α := (items.mergeSort fun a b => decide (a ≤ b)).take k

/-- There are `k` items below. -/
def Beaten (k : ℕ) (items : List α) (m : α) : Prop := k ≤ (items.filter (· < m)).length

variable {k : ℕ} {items items' : List α} {m : α}

theorem pairwise_mergeSort (items : List α) : (items.mergeSort fun a b => decide (a ≤ b)).Pairwise (· ≤ ·) := by
  have h : (items.mergeSort fun a b => decide (a ≤ b)).Pairwise fun a b => decide (a ≤ b) = true := List.pairwise_mergeSort
    (fun a b c hab hbc => decide_eq_true ((of_decide_eq_true hab).trans (of_decide_eq_true hbc)))
    (fun a b => by simpa using le_total a b) items
  exact h.imp fun hab => of_decide_eq_true hab

theorem mergeSort_perm (items : List α) : (items.mergeSort fun a b => decide (a ≤ b)).Perm items := List.mergeSort_perm ..

theorem smallest_sublist (k : ℕ) (items : List α) :
    (smallest k items).Sublist (items.mergeSort fun a b => decide (a ≤ b)) := take_sublist ..

theorem pairwise_smallest (k : ℕ) (items : List α) : (smallest k items).Pairwise (· ≤ ·) :=
  (pairwise_mergeSort items).sublist (smallest_sublist k items)

theorem mem_of_mem_smallest (h : m ∈ smallest k items) : m ∈ items :=
  (mergeSort_perm items).mem_iff.mp ((smallest_sublist k items).subset h)

theorem nodup_smallest (h : items.Nodup) : (smallest k items).Nodup :=
  ((mergeSort_perm items).nodup_iff.mpr h).sublist (smallest_sublist k items)

theorem length_smallest_le (k : ℕ) (items : List α) : (smallest k items).length ≤ k := length_take_le ..

theorem smallest_congr (k : ℕ) (h : items.Perm items') : smallest k items = smallest k items' := by
  have hsort : (items.mergeSort fun a b => decide (a ≤ b)) = items'.mergeSort fun a b => decide (a ≤ b) :=
    Perm.eq_of_pairwise (fun _ _ _ _ => le_antisymm) (pairwise_mergeSort items) (pairwise_mergeSort items')
      ((mergeSort_perm items).trans (h.trans (mergeSort_perm items').symm))
  rw [smallest, smallest, hsort]

theorem smallest_of_sorted (h : items.Pairwise (· ≤ ·)) (hlength : items.length ≤ k) : smallest k items = items := by
  have hsort : (items.mergeSort fun a b => decide (a ≤ b)) = items :=
    Perm.eq_of_pairwise (fun _ _ _ _ => le_antisymm) (pairwise_mergeSort items) h (mergeSort_perm items)
  rw [smallest, hsort, take_of_length_le hlength]

/-! ### Beaten items -/

theorem Beaten.congr (h : items.Perm items') : Beaten k items m ↔ Beaten k items' m := by
  rw [Beaten, Beaten, (h.filter _).length_eq]

theorem Beaten.mono (hnodup : items.Nodup) (hsub : items ⊆ items') (h : Beaten k items m) : Beaten k items' m := by
  have hsubset : items.filter (· < m) ⊆ items'.filter (· < m) := fun a ha => by
    rw [mem_filter] at ha ⊢
    exact ⟨hsub ha.1, ha.2⟩
  exact le_trans h (subperm_of_subset (hnodup.filter _) hsubset).length_le

theorem Beaten.of_le {m' : α} (hnodup : items.Nodup) (h : Beaten k items m) (hle : m ≤ m') : Beaten k items m' := by
  refine le_trans h (subperm_of_subset (hnodup.filter _) fun a ha => ?_).length_le
  rw [mem_filter] at ha ⊢
  exact ⟨ha.1, decide_eq_true ((of_decide_eq_true ha.2).trans_le hle)⟩

variable {sorted : List α}

/-- In a sorted list as many of the first items are below as of all. -/
theorem length_filter_take (h : sorted.Pairwise (· ≤ ·)) (k : ℕ) (m : α) :
    ((sorted.take k).filter (· < m)).length = min k (sorted.filter (· < m)).length := by
  induction sorted generalizing k with
  | nil => simp
  | cons a sorted ih =>
    rw [pairwise_cons] at h
    cases k with
    | zero => simp
    | succ k =>
      by_cases ha : a < m
      · rw [take_succ_cons, filter_cons_of_pos (by simpa using ha), filter_cons_of_pos (by simpa using ha),
          length_cons, length_cons, ih h.2]
        omega
      · have hnone : (sorted.filter (· < m)) = [] := by
          rw [filter_eq_nil_iff]
          intro b hb hlt
          exact ha ((h.1 b hb).trans_lt (of_decide_eq_true hlt))
        rw [take_succ_cons, filter_cons_of_neg (by simpa using ha), filter_cons_of_neg (by simpa using ha),
          ih h.2, hnone]
        simp

theorem beaten_smallest : Beaten k (smallest k items) m ↔ Beaten k items m := by
  rw [Beaten, smallest, length_filter_take (pairwise_mergeSort items), Beaten, ((mergeSort_perm items).filter _).length_eq]
  omega

/-- What is among the last items of a sorted list is beaten by the first. -/
theorem beaten_of_not_mem_take (h : sorted.Pairwise (· ≤ ·)) (hmem : m ∈ sorted) (hnot : m ∉ sorted.take k) :
    Beaten k sorted m := by
  have hdrop : m ∈ sorted.drop k := by
    rw [← take_append_drop k sorted, mem_append] at hmem
    exact hmem.resolve_left hnot
  have hlength : k ≤ sorted.length := by
    by_contra hshort
    rw [drop_eq_nil_of_le (by omega)] at hdrop
    exact absurd hdrop not_mem_nil
  rw [← take_append_drop k sorted, pairwise_append] at h
  have hall : (sorted.take k).filter (· < m) = sorted.take k := by
    refine filter_eq_self.mpr fun a ha => decide_eq_true (lt_of_le_of_ne (h.2.2 a ha m hdrop) ?_)
    rintro rfl
    exact hnot ha
  unfold Beaten
  calc k = (sorted.take k).length := by rw [length_take, min_eq_left hlength]
    _ = ((sorted.take k).filter (· < m)).length := by rw [hall]
    _ ≤ (sorted.filter (· < m)).length := ((take_sublist k sorted).filter _).length_le

theorem beaten_of_not_mem (hmem : m ∈ items) (hnot : m ∉ smallest k items) : Beaten k items m :=
  (Beaten.congr (mergeSort_perm items)).mp
    (beaten_of_not_mem_take (pairwise_mergeSort items) ((mergeSort_perm items).mem_iff.mpr hmem) hnot)

theorem not_beaten_of_mem (h : m ∈ smallest k items) : ¬ Beaten k items m := by
  rw [← beaten_smallest, Beaten, not_le]
  refine lt_of_lt_of_le ?_ (length_smallest_le k items)
  refine length_filter_lt_length_iff_exists.mpr ⟨m, h, ?_⟩
  simp

theorem mem_smallest : m ∈ smallest k items ↔ m ∈ items ∧ ¬ Beaten k items m :=
  ⟨fun h => ⟨mem_of_mem_smallest h, not_beaten_of_mem h⟩, fun h => by
    by_contra hnot
    exact h.2 (beaten_of_not_mem h.1 hnot)⟩

theorem smallest_ext (hnodup : items.Nodup) (hnodup' : items'.Nodup)
    (h : ∀ m, m ∈ smallest k items ↔ m ∈ smallest k items') : smallest k items = smallest k items' :=
  Perm.eq_of_pairwise (fun _ _ _ _ => le_antisymm) (pairwise_smallest k items) (pairwise_smallest k items')
    ((perm_ext_iff_of_nodup (nodup_smallest hnodup) (nodup_smallest hnodup')).mpr h)

theorem smallest_eq_of_covered (hnodup : items.Nodup) (hnodup' : items'.Nodup) (hsub : items ⊆ items')
    (hcovered : ∀ m ∈ items', m ∈ items ∨ Beaten k items m) : smallest k items = smallest k items' := by
  refine smallest_ext hnodup hnodup' fun m => ?_
  rw [mem_smallest, mem_smallest]
  constructor
  · rintro ⟨hmem, hnot⟩
    refine ⟨hsub hmem, fun hbeaten => hnot ?_⟩
    have hsame : items'.filter (· < m) ⊆ items.filter (· < m) := fun a ha => by
      rw [mem_filter] at ha ⊢
      refine ⟨(hcovered a ha.1).resolve_right fun hbeat => hnot ?_, ha.2⟩
      exact hbeat.of_le hnodup (of_decide_eq_true ha.2).le
    exact le_trans hbeaten (subperm_of_subset (hnodup'.filter _) hsame).length_le
  · rintro ⟨hmem, hnot⟩
    have hnot' : ¬ Beaten k items m := fun hbeaten => hnot (hbeaten.mono hnodup hsub)
    exact ⟨(hcovered m hmem).resolve_right hnot', hnot'⟩

/-- A full list of smallest items beats what is not below its last. -/
theorem beaten_of_last_le (h : sorted.Pairwise (· ≤ ·)) (hlength : k ≤ sorted.length) {last : α}
    (hlast : sorted.getLast? = some last) (hle : last ≤ m) (hnot : m ∉ sorted) : Beaten k sorted m := by
  have hall : sorted.filter (· < m) = sorted := by
    refine filter_eq_self.mpr fun a ha => decide_eq_true (lt_of_le_of_ne (le_trans ?_ hle) ?_)
    · obtain ⟨init, rfl⟩ := getLast?_eq_some_iff.mp hlast
      rw [pairwise_append] at h
      rcases mem_append.mp ha with ha | ha
      · exact h.2.2 a ha last mem_cons_self
      · exact (mem_singleton.mp ha).le
    · rintro rfl
      exact hnot ha
  rw [Beaten, hall]
  exact hlength

/-- The smallest of several lists are among the smallest of each. -/
theorem smallest_flatten (k : ℕ) (parts : List (List α)) (h : parts.flatten.Nodup) :
    smallest k (parts.map (smallest k)).flatten = smallest k parts.flatten := by
  rw [nodup_flatten] at h
  have hparts : (parts.map (smallest k)).flatten.Nodup := by
    rw [nodup_flatten]
    refine ⟨fun part hpart => ?_, pairwise_map.mpr (h.2.imp fun hdisjoint a ha hb => ?_)⟩
    · obtain ⟨whole, hwhole, rfl⟩ := mem_map.mp hpart
      exact nodup_smallest (h.1 whole hwhole)
    · exact hdisjoint (mem_of_mem_smallest ha) (mem_of_mem_smallest hb)
  refine smallest_eq_of_covered hparts (nodup_flatten.mpr h) (fun a ha => ?_) fun a ha => ?_
  · obtain ⟨part, hpart, ha⟩ := mem_flatten.mp ha
    obtain ⟨whole, hwhole, rfl⟩ := mem_map.mp hpart
    exact mem_flatten.mpr ⟨whole, hwhole, mem_of_mem_smallest ha⟩
  · obtain ⟨whole, hwhole, ha⟩ := mem_flatten.mp ha
    have hsub : smallest k whole ⊆ (parts.map (smallest k)).flatten := fun b hb =>
      mem_flatten.mpr ⟨_, mem_map_of_mem hwhole, hb⟩
    by_cases hin : a ∈ smallest k whole
    · exact .inl (hsub hin)
    · exact .inr (Beaten.mono (nodup_smallest (h.1 whole hwhole)) hsub (beaten_smallest.mpr (beaten_of_not_mem ha hin)))

/-! ### The largest -/

/-- `sorted(items)`, and its end. -/
def ordered (items : List α) : List α := items.mergeSort fun a b => decide (a ≤ b)

def largest (k : ℕ) (items : List α) : List α := (ordered items).drop ((ordered items).length - k)

theorem ordered_perm (items : List α) : (ordered items).Perm items := mergeSort_perm items

theorem pairwise_ordered (items : List α) : (ordered items).Pairwise (· ≤ ·) := pairwise_mergeSort items

theorem ordered_eq (hsorted : items'.Pairwise (· ≤ ·)) (h : items.Perm items') : ordered items = items' :=
  Perm.eq_of_pairwise (fun _ _ _ _ => le_antisymm) (pairwise_ordered items) hsorted ((ordered_perm items).trans h)

/-- `sorted(items, reverse=True)[:k]` of different items -/
def greatest (k : ℕ) (items : List α) : List α := (items.mergeSort fun a b => decide (b ≤ a)).take k

theorem greatest_flatten (k : ℕ) (parts : List (List α)) (h : parts.flatten.Nodup) :
    greatest k (parts.map (greatest k)).flatten = greatest k parts.flatten := @smallest_flatten αᵒᵈ _ k parts h

theorem greatest_congr (k : ℕ) (h : items.Perm items') : greatest k items = greatest k items' :=
  @smallest_congr αᵒᵈ _ items items' k h

theorem mergeSort_ge (items : List α) : (items.mergeSort fun a b => decide (b ≤ a)) = (ordered items).reverse := by
  have hsorted : (items.mergeSort fun a b => decide (b ≤ a)).Pairwise (· ≥ ·) := @pairwise_mergeSort αᵒᵈ _ items
  refine Perm.eq_of_pairwise (fun _ _ _ _ hab hba => le_antisymm hba hab) hsorted ?_ ?_
  · rw [pairwise_reverse]
    exact pairwise_ordered items
  · exact (List.mergeSort_perm ..).trans ((ordered_perm items).symm.trans (reverse_perm _).symm)

theorem largest_eq_greatest (k : ℕ) (items : List α) : largest k items = (greatest k items).reverse := by
  rw [greatest, mergeSort_ge, reverse_take, reverse_reverse, length_reverse, largest]

theorem largest_flatten (k : ℕ) (parts : List (List α)) (h : parts.flatten.Nodup) :
    largest k (parts.map (greatest k)).flatten = largest k parts.flatten := by
  rw [largest_eq_greatest, greatest_flatten k parts h, largest_eq_greatest]

end SystemDesign.Smallest
