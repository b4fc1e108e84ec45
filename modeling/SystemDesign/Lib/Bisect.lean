import Mathlib.Data.Int.Basic
import Mathlib.Data.List.Nodup
import Mathlib.Data.List.Perm.Basic
import Mathlib.Order.Lattice

/-!
Insertion points in sorted lists (`bisect_right`, `bisect_left`), adjacent duplicates (`itertools.groupby`) and first
occurrences, and the arcs that a sorted list of boundaries cuts a circle into.

The binary search for the last position of an initial segment narrows `lo .. hi` and remembers the last position where
the test held, as `while lo <= hi` does with `(lo + hi) // 2` and bounds that may pass each other on either side.

A strictly sorted list is determined by its members (`eq_of_mem_iff`), so two histories of insertions and removals at
the insertion point that end with the same members end with the same list. Dropping items before or after is the same
for first occurrences (`List.eraseDups`), so they survive the loss of an item with the others in place.
-/

namespace SystemDesign

open List hiding le_of_lt lt_irrefl not_le not_lt

variable {α : Type} [LinearOrder α]

/-- `bisect_right(xs, x)` on a sorted list: the entries before it are at most `x`. -/
def bisectRight (xs : List α) (x : α) : ℕ := (xs.takeWhile fun y => decide (y ≤ x)).length

theorem bisectRight_le_length (xs : List α) (x : α) : bisectRight xs x ≤ xs.length := (List.takeWhile_prefix _).length_le

variable {xs : List α}

/-- On a sorted list the entries before the insertion point are exactly those up to `x`. -/
theorem lt_bisectRight_iff (hs : xs.Pairwise (· ≤ ·)) (x : α) {i : ℕ} (hi : i < xs.length) :
    i < bisectRight xs x ↔ xs[i] ≤ x := by
  induction xs generalizing i with
  | nil => simp at hi
  | cons y ys ih =>
    obtain ⟨hy, hys⟩ := pairwise_cons.mp hs
    by_cases hyx : y ≤ x
    · have hstep : bisectRight (y :: ys) x = bisectRight ys x + 1 := by
        simp [bisectRight, hyx]
      cases i with
      | zero => simp [hstep, hyx]
      | succ j =>
        have hj : j < ys.length := by simpa using hi
        rw [hstep, Nat.succ_lt_succ_iff, ih hys hj]
        simp
    · have hzero : bisectRight (y :: ys) x = 0 := by simp [bisectRight, hyx]
      cases i with
      | zero => simp [hzero, hyx]
      | succ j =>
        have hj : j < ys.length := by simpa using hi
        have hle : y ≤ ys[j] := hy _ (getElem_mem hj)
        simp only [hzero, Nat.not_lt_zero, getElem_cons_succ, false_iff, not_le]
        exact lt_of_lt_of_le (not_le.mp hyx) hle

variable {x : α}

/-- Two points with the same entries up to them have the same insertion point. -/
theorem bisectRight_congr {y : α} (h : ∀ z ∈ xs, z ≤ x ↔ z ≤ y) : bisectRight xs x = bisectRight xs y := by
  induction xs with
  | nil => rfl
  | cons z zs ih =>
    have hz := h z mem_cons_self
    have hzs := ih fun w hw => h w (mem_cons_of_mem z hw)
    by_cases hzx : z ≤ x
    · have hzy : z ≤ y := hz.mp hzx
      simpa [bisectRight, hzx, hzy] using hzs
    · have hzy : ¬ z ≤ y := fun hc => hzx (hz.mpr hc)
      simp [bisectRight, hzx, hzy]

theorem bisectRight_eq_zero (h : ∀ z ∈ xs, x < z) : bisectRight xs x = 0 := by
  cases xs with
  | nil => rfl
  | cons z zs => simp [bisectRight, not_le.mpr (h z mem_cons_self)]

theorem bisectRight_eq_length (h : ∀ z ∈ xs, z ≤ x) : bisectRight xs x = xs.length := by
  induction xs with
  | nil => rfl
  | cons z zs ih =>
    have hz : z ≤ x := h z mem_cons_self
    have hzs := ih fun w hw => h w (mem_cons_of_mem z hw)
    simpa [bisectRight, hz] using hzs

/-- Entries up to `x` followed by entries beyond it. -/
theorem bisectRight_append {ys : List α} (hxs : ∀ z ∈ xs, z ≤ x) (hys : ∀ z ∈ ys, x < z) :
    bisectRight (xs ++ ys) x = xs.length := by
  have hall : ∀ z ∈ xs, decide (z ≤ x) = true := fun z hz => by simpa using hxs z hz
  rw [bisectRight, takeWhile_append_of_pos hall, length_append]
  have hnone : (ys.takeWhile fun y => decide (y ≤ x)).length = 0 := bisectRight_eq_zero hys
  omega

/-! ### Adjacent duplicates -/

/-- `[key for key, _ in groupby(xs)]`. -/
def groupKeys : List α → List α
  | [] => []
  | [x] => [x]
  | x :: y :: rest => if x = y then groupKeys (y :: rest) else x :: groupKeys (y :: rest)

@[simp] theorem mem_groupKeys {xs : List α} {z : α} : z ∈ groupKeys xs ↔ z ∈ xs := by
  fun_induction groupKeys xs with
  | case1 => rfl
  | case2 x => rfl
  | case3 y rest ih => simp [ih]
  | case4 x y rest hne ih => rw [mem_cons, ih, ← mem_cons]

theorem groupKeys_pairwise (hs : xs.Pairwise (· ≤ ·)) : (groupKeys xs).Pairwise (· < ·) := by
  fun_induction groupKeys xs with
  | case1 => exact List.Pairwise.nil
  | case2 x => exact pairwise_singleton _ x
  | case3 y rest ih => exact ih (pairwise_cons.mp hs).2
  | case4 x y rest hne ih =>
    obtain ⟨hx, hrest⟩ := pairwise_cons.mp hs
    have hy := (pairwise_cons.mp hrest).1
    have hxy : x < y := lt_of_le_of_ne (hx y mem_cons_self) hne
    refine pairwise_cons.mpr ⟨fun z hz => ?_, ih hrest⟩
    rcases mem_cons.mp (mem_groupKeys.mp hz) with rfl | hz
    · exact hxy
    · exact lt_of_lt_of_le hxy (hy z hz)

/-! ### Arcs of a circle -/

/-- The clockwise arc `[start, stop)`; equal bounds mean the whole circle. -/
def OnArc (start stop x : α) : Prop := if start < stop then start ≤ x ∧ x < stop else start ≤ x ∨ x < stop

instance (start stop x : α) : Decidable (OnArc start stop x) := by
  unfold OnArc
  infer_instance

/-- The arc of the circle cut at `boundaries` that `x` lies on: the one that starts at
the last boundary up to `x`, or the last one, that wraps round. -/
def arcIndex (boundaries : List α) (x : α) : ℕ := (bisectRight boundaries x + boundaries.length - 1) % boundaries.length

variable {boundaries : List α}

theorem arcIndex_lt (x : α) (h : 0 < boundaries.length) : arcIndex boundaries x < boundaries.length := Nat.mod_lt _ h

/-- The two forms of `arcIndex`, by whether a boundary precedes `x`. -/
theorem arcIndex_eq_iff {i : ℕ} (hi : i < boundaries.length) : i = arcIndex boundaries x ↔
      bisectRight boundaries x = i + 1 ∨ (bisectRight boundaries x = 0 ∧ i + 1 = boundaries.length) := by
  have hle := bisectRight_le_length boundaries x
  unfold arcIndex
  generalize bisectRight boundaries x = k at *
  generalize boundaries.length = n at *
  cases k with
  | zero =>
    rw [Nat.zero_add, Nat.mod_eq_of_lt (show n - 1 < n by omega)]
    omega
  | succ k =>
    have hmod : (k + 1 + n - 1) % n = k := by
      rw [show k + 1 + n - 1 = k + n by omega, Nat.add_mod_right, Nat.mod_eq_of_lt (by omega)]
    rw [hmod]
    omega

/-- The arcs between neighbouring boundaries partition the circle: a point lies on the
arc `arcIndex` names and on no other. -/
theorem onArc_iff (hs : boundaries.Pairwise (· < ·)) (x : α) {i : ℕ} (hi : i < boundaries.length)
    (hnext : (i + 1) % boundaries.length < boundaries.length) :
    OnArc boundaries[i] boundaries[(i + 1) % boundaries.length] x ↔ i = arcIndex boundaries x := by
  have hmono : boundaries.Pairwise (· ≤ ·) := hs.imp fun h => le_of_lt h
  have hle := bisectRight_le_length boundaries x
  have hat := fun (j : ℕ) (hj : j < boundaries.length) => lt_bisectRight_iff hmono x hj
  rw [arcIndex_eq_iff hi]
  by_cases hlast : i + 1 < boundaries.length
  · -- an inner arc: the next boundary is the first beyond the point
    have hmod : (i + 1) % boundaries.length = i + 1 := Nat.mod_eq_of_lt hlast
    have hlt : boundaries[i] < boundaries[i + 1] := pairwise_iff_getElem.mp hs i (i + 1) hi hlast (Nat.lt_succ_self i)
    simp only [hmod, OnArc, hlt, if_true]
    rw [← hat i hi, ← not_le (a := boundaries[i + 1]), ← hat (i + 1) hlast]
    omega
  · -- the arc that wraps round: past the last boundary or before the first
    have hend : i + 1 = boundaries.length := by omega
    have hmod : (i + 1) % boundaries.length = 0 := by rw [hend, Nat.mod_self]
    have hpos : 0 < boundaries.length := by omega
    have hnot : ¬ boundaries[i] < boundaries[0] := by
      rcases Nat.eq_zero_or_pos i with rfl | hip
      · exact lt_irrefl _
      · exact not_lt.mpr (le_of_lt (pairwise_iff_getElem.mp hs 0 i hpos hi hip))
    simp only [hmod, OnArc, hnot, if_false]
    rw [← hat i hi, ← not_le (a := boundaries[0]), ← hat 0 hpos]
    omega

end SystemDesign

/-! ### Binary search -/

namespace SystemDesign

/-- The position remembered when `lo` has passed `hi`. -/
def searchLast (test : ℕ → Bool) (lo hi : ℤ) (result : ℕ) : ℕ :=
  if lo ≤ hi then
    if test ((lo + hi) / 2).toNat then searchLast test ((lo + hi) / 2 + 1) hi ((lo + hi) / 2).toNat
    else searchLast test lo ((lo + hi) / 2 - 1) result
  else result
termination_by (hi + 1 - lo).toNat

variable {test : ℕ → Bool} {size : ℕ}

theorem searchLast_spec (hdown : ∀ i j, i ≤ j → j < size → test j = true → test i = true) {lo hi : ℤ} {result : ℕ}
    (hlo : lo = result + 1 ∨ lo = 0 ∧ result = 0) (hhi : hi < size) (hresult : result < size)
    (htest : test result = true) (habove : ∀ i : ℕ, hi < i → i < size → test i = false) :
    let last := searchLast test lo hi result
    last < size ∧ test last = true ∧ ∀ i, last < i → i < size → test i = false := by
  fun_induction searchLast test lo hi result with
  | case1 lo hi result hle hmid ih =>
    have hnat : (((lo + hi) / 2).toNat : ℤ) = (lo + hi) / 2 := Int.toNat_of_nonneg (by omega)
    exact ih (.inl (by omega)) hhi (by omega) hmid habove
  | case2 lo hi result hle hmid ih =>
    have hnat : (((lo + hi) / 2).toNat : ℤ) = (lo + hi) / 2 := Int.toNat_of_nonneg (by omega)
    refine ih hlo (by omega) hresult htest fun i hi hsize => ?_
    -- the test fails at the middle, so it fails from there on
    by_contra hholds
    exact hmid (hdown _ i (by omega) hsize (by simpa using hholds))
  | case3 lo hi result hgt =>
    exact ⟨hresult, htest, fun i hi hsize => habove i (by omega) hsize⟩

theorem searchLast_zero (hdown : ∀ i j, i ≤ j → j < size → test j = true → test i = true) (hpos : 0 < size)
    (hfirst : test 0 = true) : let last := searchLast test 0 ((size : ℤ) - 1) 0
    last < size ∧ test last = true ∧ ∀ i, last < i → i < size → test i = false :=
  searchLast_spec hdown (.inr ⟨rfl, rfl⟩) (by omega) hpos hfirst fun i hi hsize => absurd hi (by omega)

end SystemDesign

/-! ### Strictly sorted lists -/

namespace SystemDesign.SortedKeys

open List hiding le_of_lt lt_trans not_lt

variable {α : Type} [LinearOrder α] {xs ys : List α} {x : α}

/-- `bisect_left(xs, x)` on a sorted list: the entries before it are below `x`. -/
def bisectLeft (xs : List α) (x : α) : ℕ := (xs.takeWhile fun y => decide (y < x)).length

/-- `xs.insert(bisect_left(xs, x), x)` -/
def insertLeft (xs : List α) (x : α) : List α := xs.insertIdx (bisectLeft xs x) x

/-- `xs.pop(bisect_left(xs, x))` -/
def popLeft (xs : List α) (x : α) : List α := xs.eraseIdx (bisectLeft xs x)

theorem bisectLeft_le_length (xs : List α) (x : α) : bisectLeft xs x ≤ xs.length := (List.takeWhile_prefix _).length_le

theorem insertLeft_cons_of_lt {y : α} (h : y < x) : insertLeft (y :: xs) x = y :: insertLeft xs x := by
  have hstep : bisectLeft (y :: xs) x = bisectLeft xs x + 1 := by simp [bisectLeft, h]
  rw [insertLeft, hstep, insertIdx_succ_cons]
  rfl

theorem insertLeft_cons_of_le {y : α} (h : x ≤ y) : insertLeft (y :: xs) x = x :: y :: xs := by
  have hzero : bisectLeft (y :: xs) x = 0 := by simp [bisectLeft, not_lt.mpr h]
  rw [insertLeft, hzero, insertIdx_zero]

theorem popLeft_cons_of_lt {y : α} (h : y < x) : popLeft (y :: xs) x = y :: popLeft xs x := by
  have hstep : bisectLeft (y :: xs) x = bisectLeft xs x + 1 := by simp [bisectLeft, h]
  rw [popLeft, hstep, eraseIdx_cons_succ]
  rfl

theorem popLeft_cons_self : popLeft (x :: xs) x = xs := by
  have hzero : bisectLeft (x :: xs) x = 0 := by simp [bisectLeft]
  rw [popLeft, hzero, eraseIdx_cons_zero]

theorem insertLeft_perm (xs : List α) (x : α) : (insertLeft xs x).Perm (x :: xs) :=
  perm_insertIdx x xs (bisectLeft_le_length xs x)

@[simp] theorem mem_insertLeft {y : α} : y ∈ insertLeft xs x ↔ y = x ∨ y ∈ xs := by
  rw [(insertLeft_perm xs x).mem_iff, mem_cons]

theorem pairwise_insertLeft (hs : xs.Pairwise (· < ·)) (hnew : x ∉ xs) : (insertLeft xs x).Pairwise (· < ·) := by
  induction xs with
  | nil => exact pairwise_singleton _ x
  | cons y ys ih =>
    obtain ⟨hy, hys⟩ := pairwise_cons.mp hs
    have hne : x ≠ y := fun heq => hnew (heq ▸ mem_cons_self)
    have hnew : x ∉ ys := fun hmem => hnew (mem_cons_of_mem y hmem)
    rcases lt_or_ge y x with hlt | hle
    · rw [insertLeft_cons_of_lt hlt]
      refine pairwise_cons.mpr ⟨fun z hz => ?_, ih hys hnew⟩
      rcases mem_insertLeft.mp hz with rfl | hz
      · exact hlt
      · exact hy z hz
    · have hlt : x < y := lt_of_le_of_ne hle hne
      rw [insertLeft_cons_of_le hle]
      refine pairwise_cons.mpr ⟨fun z hz => ?_, hs⟩
      rcases mem_cons.mp hz with rfl | hz
      · exact hlt
      · exact lt_trans hlt (hy z hz)

/-- The entry at the insertion point is the one looked for, when it is listed at all. -/
theorem popLeft_perm (hs : xs.Pairwise (· < ·)) (hmem : x ∈ xs) : xs.Perm (x :: popLeft xs x) := by
  induction xs with
  | nil => exact absurd hmem not_mem_nil
  | cons y ys ih =>
    obtain ⟨hy, hys⟩ := pairwise_cons.mp hs
    rcases mem_cons.mp hmem with rfl | hmem
    · rw [popLeft_cons_self]
    · rw [popLeft_cons_of_lt (hy x hmem)]
      exact ((ih hys hmem).cons y).trans (List.Perm.swap x y _)

theorem pairwise_popLeft (hs : xs.Pairwise (· < ·)) : (popLeft xs x).Pairwise (· < ·) :=
  hs.sublist (eraseIdx_sublist _ _)

theorem mem_popLeft (hs : xs.Pairwise (· < ·)) (hmem : x ∈ xs) {y : α} : y ∈ popLeft xs x ↔ y ≠ x ∧ y ∈ xs := by
  have hperm := popLeft_perm hs hmem
  have hnodup : (x :: popLeft xs x).Nodup := hperm.nodup_iff.mp (hs.imp fun h => ne_of_lt h)
  have hnot := (nodup_cons.mp hnodup).1
  rw [hperm.mem_iff, mem_cons]
  constructor
  · exact fun hy => ⟨fun heq => hnot (heq ▸ hy), .inr hy⟩
  · exact fun hy => hy.2.resolve_left hy.1

/-- A strictly sorted list is determined by its members. -/
theorem eq_of_mem_iff (hs : xs.Pairwise (· < ·)) (hs' : ys.Pairwise (· < ·)) (h : ∀ x, x ∈ xs ↔ x ∈ ys) : xs = ys := by
  have hnodup : xs.Nodup := hs.imp fun h => ne_of_lt h
  have hnodup' : ys.Nodup := hs'.imp fun h => ne_of_lt h
  have hperm : xs.Perm ys := (perm_ext_iff_of_nodup hnodup hnodup').mpr h
  refine hperm.eq_of_pairwise ?_ hs hs'
  intro a b _ _ hab hba
  exact absurd hab (not_lt.mpr (le_of_lt hba))

end SystemDesign.SortedKeys

/-! ### First occurrences -/

namespace SystemDesign

open List

variable {α : Type} [DecidableEq α]

theorem eraseDups_filter (p : α → Bool) (l : List α) : (l.filter p).eraseDups = l.eraseDups.filter p := by
  match l with
  | [] => rfl
  | a :: l =>
    have hsmaller : (l.filter fun b => !b == a).length ≤ l.length := length_filter_le _ _
    by_cases ha : p a = true
    · rw [filter_cons_of_pos ha, eraseDups_cons, eraseDups_cons, filter_cons_of_pos ha,
        filter_comm, eraseDups_filter p (l.filter fun b => !b == a)]
    · rw [filter_cons_of_neg ha, eraseDups_cons, filter_cons_of_neg ha,
        ← eraseDups_filter p (l.filter fun b => !b == a), filter_filter]
      congr 1
      refine filter_congr fun b _ => ?_
      by_cases hb : b = a
      · subst hb
        simpa using ha
      · simp [hb]
termination_by l.length

theorem nodup_eraseDups (l : List α) : l.eraseDups.Nodup := by
  match l with
  | [] => exact nodup_nil
  | a :: l =>
    have hsmaller : (l.filter fun b => !b == a).length ≤ l.length := length_filter_le _ _
    rw [eraseDups_cons, nodup_cons]
    refine ⟨fun hmem => ?_, nodup_eraseDups _⟩
    simpa using (mem_filter.mp (mem_eraseDups.mp hmem)).2
termination_by l.length

theorem head?_eraseDups (l : List α) : l.eraseDups.head? = l.head? := by
  cases l with
  | nil => rfl
  | cons a l => rw [eraseDups_cons, head?_cons, head?_cons]

/-- Of the first items one more than is asked for is enough when one is left out. -/
theorem take_filter_take {l : List α} (h : l.Nodup) (x : α) (count : ℕ) :
    ((l.take (count + 1)).filter fun a => a ≠ x).take count = (l.filter fun a => a ≠ x).take count := by
  induction l generalizing count with
  | nil => rfl
  | cons a l ih =>
    obtain ⟨ha, hl⟩ := nodup_cons.mp h
    by_cases hx : a = x
    · subst hx
      have hkeep : ∀ b ∈ l, decide (b ≠ a) = true := fun b hb => decide_eq_true fun heq => ha (heq ▸ hb)
      rw [take_succ_cons, filter_cons_of_neg (by simp), filter_cons_of_neg (by simp),
        filter_eq_self.mpr hkeep, filter_eq_self.mpr fun b hb => hkeep b (mem_of_mem_take hb), take_take,
        Nat.min_self]
    · rw [take_succ_cons, filter_cons_of_pos (by simpa using hx), filter_cons_of_pos (by simpa using hx)]
      cases count with
      | zero => rfl
      | succ count => rw [take_succ_cons, take_succ_cons, ih hl count]

end SystemDesign
