import Mathlib.Data.List.GetD
import Mathlib.Tactic.Ring

/-!
A complete binary tree kept in an array, as a binary heap keeps it: the root at position 1, the children of `i` at
`2 * i` and `2 * i + 1`, the `count` leaves from position `count` on. Every inner position holds what `node` makes of
its children.

A leaf is changed by recombining the positions above it (`climb`); the whole tree is combined from the last inner
position down to the root (`combineDown`). Both leave a combined tree, and a combined tree is determined by its leaves.
-/

namespace SystemDesign.HeapTree

variable {α : Type} {node : α → α → α} {blank : α} {count : ℕ} {heap heap' : List α}

/-- The inner position holds what its children combine to. -/
def CombinedAt (node : α → α → α) (blank : α) (heap : List α) (index : ℕ) : Prop :=
  heap.getD index blank = node (heap.getD (index * 2) blank) (heap.getD (index * 2 + 1) blank)

/-- Every inner position is combined. -/
def Combined (node : α → α → α) (blank : α) (count : ℕ) (heap : List α) : Prop :=
  ∀ index, 1 ≤ index → index < count → CombinedAt node blank heap index

/-- The position combined anew. -/
def combine (node : α → α → α) (blank : α) (heap : List α) (index : ℕ) : List α :=
  heap.set index (node (heap.getD (index * 2) blank) (heap.getD (index * 2 + 1) blank))

/-- Every position above the given one combined anew, up to the root. -/
def climb (node : α → α → α) (blank : α) (heap : List α) (index : ℕ) : List α :=
  if index > 1 then climb node blank (combine node blank heap (index / 2)) (index / 2) else heap
termination_by index

/-- The positions from the given one down to the root combined in turn. -/
def combineDown (node : α → α → α) (blank : α) : ℕ → List α → List α
  | 0, heap => heap
  | index + 1, heap => combineDown node blank index (combine node blank heap (index + 1))

@[simp] theorem length_combine (index : ℕ) : (combine node blank heap index).length = heap.length :=
  List.length_set

@[simp] theorem length_climb (index : ℕ) : (climb node blank heap index).length = heap.length := by
  fun_induction climb node blank heap index with
  | case1 heap index hlt ih => rw [ih, length_combine]
  | case2 heap index hle => rfl

@[simp] theorem length_combineDown (index : ℕ) : (combineDown node blank index heap).length = heap.length := by
  induction index generalizing heap with
  | zero => rfl
  | succ index ih => rw [combineDown, ih, length_combine]

variable {i : ℕ}

theorem getD_set_of_ne (value : α) {j : ℕ} (h : i ≠ j) : (heap.set i value).getD j blank = heap.getD j blank := by
  rw [List.getD_eq_getElem?_getD, List.getD_eq_getElem?_getD, List.getElem?_set_ne h]

theorem getD_set_self (value : α) (h : i < heap.length) : (heap.set i value).getD i blank = value := by
  rw [List.getD_eq_getElem?_getD, List.getElem?_set_self h, Option.getD_some]

theorem getD_combine_of_ne {j : ℕ} (h : i ≠ j) : (combine node blank heap i).getD j blank = heap.getD j blank :=
  getD_set_of_ne _ h

theorem CombinedAt.set {j : ℕ} (value : α) (h : CombinedAt node blank heap j) (hself : i ≠ j) (hleft : i ≠ j * 2)
    (hright : i ≠ j * 2 + 1) : CombinedAt node blank (heap.set i value) j := by
  unfold CombinedAt
  rw [getD_set_of_ne _ hself, getD_set_of_ne _ hleft, getD_set_of_ne _ hright]
  exact h

variable {index : ℕ}

theorem combinedAt_combine (hpos : 1 ≤ index) (hlt : index < heap.length) :
    CombinedAt node blank (combine node blank heap index) index := by
  unfold CombinedAt
  rw [getD_combine_of_ne (show index ≠ index * 2 by omega),
    getD_combine_of_ne (show index ≠ index * 2 + 1 by omega)]
  exact getD_set_self _ hlt

/-! ### Climbing from a changed leaf -/

/-- `upper` lies on the way from `index` to the root, `index` itself left out. -/
def Above (index upper : ℕ) : Prop := ∃ steps, index / 2 ^ (steps + 1) = upper

theorem above_iff {upper : ℕ} : Above index upper ↔ index / 2 = upper ∨ Above (index / 2) upper := by
  constructor
  · rintro ⟨steps, rfl⟩
    cases steps with
    | zero => exact .inl (by rw [Nat.zero_add, Nat.pow_one])
    | succ steps => exact .inr ⟨steps, by rw [Nat.div_div_eq_div_mul, ← Nat.pow_succ']⟩
  · rintro (rfl | ⟨steps, rfl⟩)
    · exact ⟨0, by rw [Nat.zero_add, Nat.pow_one]⟩
    · exact ⟨steps + 1, by rw [Nat.div_div_eq_div_mul, ← Nat.pow_succ']⟩

theorem not_above_of_le {upper : ℕ} (hle : index ≤ 1) (hpos : 1 ≤ upper) : ¬ Above index upper := by
  rintro ⟨steps, rfl⟩
  have hlt : index < 2 ^ (steps + 1) := lt_of_le_of_lt hle (Nat.one_lt_two_pow (Nat.succ_ne_zero steps))
  rw [Nat.div_eq_of_lt hlt] at hpos
  exact absurd hpos (by decide)

/-- What was combined but for the positions above `index` is combined after the climb from it. -/
theorem combined_climb (index : ℕ) (hlength : count ≤ heap.length) (hindex : index < 2 * count)
    (h : ∀ i, 1 ≤ i → i < count → ¬ Above index i → CombinedAt node blank heap i) :
    Combined node blank count (climb node blank heap index) := by
  fun_induction climb node blank heap index with
  | case1 heap index hlt ih =>
    refine ih (by rwa [length_combine]) (by omega) fun i hpos hi hnot => ?_
    by_cases hparent : index / 2 = i
    · subst hparent
      exact combinedAt_combine hpos (by omega)
    · -- the parent is written, which is no child of `i` as `i` is not above it
      have hbelow : (index / 2) / 2 ≠ i := fun heq => hnot (above_iff.mpr (.inl heq))
      have hbefore := h i hpos hi fun habove => (above_iff.mp habove).elim hparent hnot
      exact hbefore.set _ hparent (by omega) (by omega)
  | case2 heap index hle =>
    exact fun i hpos hi => h i hpos hi (not_above_of_le (by omega) hpos)

theorem getD_climb_of_le (hindex : index < 2 * count) (hi : count ≤ i) :
    (climb node blank heap index).getD i blank = heap.getD i blank := by
  fun_induction climb node blank heap index with
  | case1 heap index hlt ih => rw [ih (by omega), getD_combine_of_ne (by omega)]
  | case2 heap index hle => rfl

theorem getD_zero_climb (index : ℕ) : (climb node blank heap index).getD 0 blank = heap.getD 0 blank := by
  fun_induction climb node blank heap index with
  | case1 heap index hlt ih => rw [ih, getD_combine_of_ne (by omega)]
  | case2 heap index hle => rfl

/-- A leaf changed and the positions above it combined anew. -/
theorem Combined.climb_set {leaf : ℕ} (h : Combined node blank count heap) (hlength : heap.length = 2 * count)
    (hleaf : count ≤ leaf) (hlt : leaf < 2 * count) (value : α) :
    Combined node blank count (climb node blank (heap.set leaf value) leaf) := by
  refine combined_climb leaf (by rw [List.length_set]; omega) hlt fun i hpos hi hnot => ?_
  have hparent : leaf / 2 ≠ i := fun heq => hnot (above_iff.mpr (.inl heq))
  exact (h i hpos hi).set value (by omega) (by omega) (by omega)

/-! ### Combining everything -/

theorem combined_combineDown (index : ℕ) (hlt : index < count) (hlength : count ≤ heap.length)
    (h : ∀ i, index < i → i < count → CombinedAt node blank heap i) :
    Combined node blank count (combineDown node blank index heap) := by
  induction index generalizing heap with
  | zero => exact fun i hpos hi => h i hpos hi
  | succ index ih =>
    refine ih (by omega) (by rwa [length_combine]) fun i hi hcount => ?_
    by_cases hself : index + 1 = i
    · subst hself
      exact combinedAt_combine (by omega) (by omega)
    · exact (h i (by omega) hcount).set _ hself (by omega) (by omega)

theorem getD_combineDown (hi : index < i ∨ i = 0) :
    (combineDown node blank index heap).getD i blank = heap.getD i blank := by
  induction index generalizing heap with
  | zero => rfl
  | succ index ih => rw [combineDown, ih (by omega), getD_combine_of_ne (by omega)]

/-! ### A combined tree and its leaves -/

/-- Two combined trees with the same leaves are the same at every position. -/
theorem Combined.eq_of_leaves (h : Combined node blank count heap) (h' : Combined node blank count heap')
    (hlength : heap.length = 2 * count) (hlength' : heap'.length = 2 * count)
    (hzero : heap.getD 0 blank = heap'.getD 0 blank)
    (hleaves : ∀ leaf, leaf < count → heap.getD (count + leaf) blank = heap'.getD (count + leaf) blank) :
    heap = heap' := by
  -- from the leaves towards the root
  have hat : ∀ gap i, 2 * count - i = gap → 1 ≤ i → i < 2 * count → heap.getD i blank = heap'.getD i blank := by
    intro gap
    induction gap using Nat.strong_induction_on with
    | _ gap ih =>
      intro i hgap hpos hlt
      by_cases hi : i < count
      · have hleft := ih (2 * count - i * 2) (by omega) (i * 2) rfl (by omega) (by omega)
        have hright := ih (2 * count - (i * 2 + 1)) (by omega) (i * 2 + 1) rfl (by omega) (by omega)
        rw [h i hpos hi, h' i hpos hi, hleft, hright]
      · have hleaf := hleaves (i - count) (by omega)
        rwa [show count + (i - count) = i by omega] at hleaf
  refine List.ext_getElem (by omega) fun i hi hi' => ?_
  have hgetD : heap.getD i blank = heap'.getD i blank := by
    by_cases h0 : i = 0
    · subst h0
      exact hzero
    · exact hat _ i rfl (by omega) (by omega)
  rwa [List.getD_eq_getElem _ _ hi, List.getD_eq_getElem _ _ hi'] at hgetD

/-- Where `node` tells the pairs that the two trees combine apart, the root tells their leaves apart. -/
theorem Combined.leaf_eq_of_root (h : Combined node blank count heap) (h' : Combined node blank count heap')
    (hinj : ∀ i, 1 ≤ i → i < count → node (heap.getD (i * 2) blank) (heap.getD (i * 2 + 1) blank)
        = node (heap'.getD (i * 2) blank) (heap'.getD (i * 2 + 1) blank) →
      heap.getD (i * 2) blank = heap'.getD (i * 2) blank ∧ heap.getD (i * 2 + 1) blank = heap'.getD (i * 2 + 1) blank)
    (hroot : heap.getD 1 blank = heap'.getD 1 blank) (hpos : 1 ≤ i) (hlt : i < 2 * count) :
    heap.getD i blank = heap'.getD i blank := by
  -- from the root towards the leaves
  induction i using Nat.strong_induction_on with
  | _ i ih =>
    by_cases hone : i = 1
    · subst hone
      exact hroot
    · have hparent := ih (i / 2) (by omega) (by omega) (by omega)
      rw [h _ (by omega) (by omega), h' _ (by omega) (by omega)] at hparent
      obtain ⟨hleft, hright⟩ := hinj (i / 2) (by omega) (by omega) hparent
      rcases Nat.even_or_odd' i with ⟨half, heven | hodd⟩
      · rwa [show i / 2 * 2 = i by omega] at hleft
      · rwa [show i / 2 * 2 + 1 = i by omega] at hright

end SystemDesign.HeapTree
