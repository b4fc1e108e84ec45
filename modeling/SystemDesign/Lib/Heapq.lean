import Mathlib

/-!
Python's `heapq` on lists, as `heapq.py` computes it.

`siftdown` carries an item from a position towards the root, `siftup` first
walks the hole down to a leaf along the smaller children and then carries the
item back up. The order facts are stated with a hole: `UpOrder h s p x` is what
`siftdown` needs before `x` is put at `p`, `HoleOrder h s p` what `siftup` keeps
while the hole descends. `HeapFrom s h` is heap order among the parents at or
after `s`, which `heapify` extends one parent at a time.
-/

namespace SystemDesign.Heapq

open List hiding not_lt

variable {α : Type} [LinearOrder α]

/-- `(pos - 1) >> 1`. -/
def parent (pos : ℕ) : ℕ := (pos - 1) / 2

/-! ### The algorithms -/

/-- The loop of `_siftdown`; the fuel bounds the parents still above `pos`. -/
def siftdownLoop (startpos : ℕ) (newitem : α) : ℕ → List α → ℕ → List α
  | 0, heap, pos => heap.set pos newitem
  | fuel + 1, heap, pos =>
      if startpos < pos ∧ newitem < heap.getD (parent pos) newitem then
        siftdownLoop startpos newitem fuel (heap.set pos (heap.getD (parent pos) newitem)) (parent pos)
      else heap.set pos newitem

/-- `_siftdown(heap, startpos, pos)` once `heap[pos]` holds `newitem`. -/
def siftdown (heap : List α) (startpos pos : ℕ) (newitem : α) : List α := siftdownLoop startpos newitem pos heap pos

/-- The child `_siftup` moves into the hole: the right one unless the left is smaller. -/
def smallerChild (heap : List α) (newitem : α) (pos : ℕ) : ℕ :=
  if 2 * pos + 2 < heap.length ∧ ¬ heap.getD (2 * pos + 1) newitem < heap.getD (2 * pos + 2) newitem then
    2 * pos + 2
  else 2 * pos + 1

/-- The loop of `_siftup`: bubble the smaller child up until the hole is a leaf. -/
def siftupLoop (newitem : α) : ℕ → List α → ℕ → List α × ℕ
  | 0, heap, pos => (heap, pos)
  | fuel + 1, heap, pos =>
      if 2 * pos + 1 < heap.length then
        siftupLoop newitem fuel
          (heap.set pos (heap.getD (smallerChild heap newitem pos) newitem))
          (smallerChild heap newitem pos)
      else (heap, pos)

/-- `_siftup(heap, pos)` once `heap[pos]` holds `newitem`. -/
def siftup (heap : List α) (pos : ℕ) (newitem : α) : List α :=
  let hole := siftupLoop newitem heap.length heap pos
  siftdown hole.1 pos hole.2 newitem

def heappush (heap : List α) (item : α) : List α := siftdown (heap ++ [item]) 0 heap.length item

/-- `heappop`: the popped item and the remaining heap, `none` on an empty heap. -/
def heappop (heap : List α) : Option (α × List α) :=
  match heap.getLast? with
  | none => none
  | some lastelt =>
      match heap.dropLast with
      | [] => some (lastelt, [])
      | returnitem :: rest => some (returnitem, siftup (lastelt :: rest) 0 lastelt)

/-- The loop of `heapify` over the parents `i - 1, …, 0`. -/
def heapifyLoop : ℕ → List α → List α
  | 0, heap => heap
  | i + 1, heap =>
      match heap[i]? with
      | none => heapifyLoop i heap
      | some item => heapifyLoop i (siftup heap i item)

def heapify (heap : List α) : List α := heapifyLoop (heap.length / 2) heap

/-! ### Reading and writing positions -/

variable {h : List α} {i : ℕ}

omit [LinearOrder α] in
theorem getD_set (hi : i < h.length) (v d : α) (j : ℕ) : (h.set i v).getD j d = if j = i then v else h.getD j d := by
  rw [getD_eq_getElem?_getD, getElem?_set, getD_eq_getElem?_getD]
  by_cases hj : j = i
  · subst hj; simp [hi]
  · simp [Ne.symm hj, hj]

/-- Moving position `j` into `i` and writing `v` at `j` permutes writing `v` at `i`. -/
theorem set_move_perm {j : ℕ} (hi : i < h.length) (hj : j < h.length) (hne : i ≠ j) (v d : α) :
    ((h.set i (h.getD j d)).set j v).Perm (h.set i v) := by
  have hval : h.getD j d = h[j] := by simp [getD_eq_getElem?_getD, hj]
  have hj' : j < (h.set i h[j]).length := by simpa using hj
  have hset : (h.set i h[j])[j] = h[j] := by simp [hne]
  rw [hval]
  refine perm_iff_count.mpr fun a => ?_
  rw [count_set hj', count_set hi, count_set hi, hset]
  omega

/-! ### Heap order -/

/-- Heap order among the parents at or after `s`. -/
def HeapFrom (s : ℕ) (h : List α) : Prop :=
  ∀ d : α, ∀ i, 0 < i → i < h.length → s ≤ parent i → h.getD (parent i) d ≤ h.getD i d

/-- Heap order: no item is below its parent. -/
def IsHeap (h : List α) : Prop := HeapFrom 0 h

/-- `s` is `p` or an ancestor of it. -/
inductive Ancestor (s : ℕ) : ℕ → Prop where
  | self : Ancestor s s
  | child {c : ℕ} : 0 < c → Ancestor s (parent c) → Ancestor s c

variable {p s : ℕ}

theorem Ancestor.le (h : Ancestor s p) : s ≤ p := by
  induction h with
  | self => exact le_rfl
  | child hc _ ih => unfold parent at ih; omega

theorem Ancestor.up (h : Ancestor s p) (hne : p ≠ s) : 0 < p ∧ Ancestor s (parent p) := by
  cases h with
  | self => exact absurd rfl hne
  | child hc h => exact ⟨hc, h⟩

theorem ancestor_zero (p : ℕ) : Ancestor 0 p := by
  induction p using Nat.strongRecOn with
  | ind p ih =>
    rcases Nat.eq_zero_or_pos p with rfl | hp
    · exact .self
    · exact .child hp (ih (parent p) (by unfold parent; omega))

/-- Every pair of a parent at or after `s` and a child that avoids the hole is in order. -/
def OrderedOff (h : List α) (s hole : ℕ) : Prop :=
  ∀ d : α, ∀ i, 0 < i → i < h.length → s ≤ parent i → i ≠ hole → parent i ≠ hole → h.getD (parent i) d ≤ h.getD i d

/-- What `siftup` keeps while the hole descends: the pairs off the hole are in order, and
the hole's children are not below its parent. -/
structure HoleOrder (h : List α) (s hole : ℕ) : Prop where
  lt : hole < h.length
  anc : Ancestor s hole
  off : OrderedOff h s hole
  grand : hole ≠ s → ∀ d : α, ∀ c, 0 < c → c < h.length → parent c = hole → h.getD (parent hole) d ≤ h.getD c d

/-- What `siftdown` needs: a hole in order, and the item not above the hole's children. -/
structure UpOrder (h : List α) (s hole : ℕ) (x : α) : Prop extends HoleOrder h s hole where
  below : ∀ c, 0 < c → c < h.length → parent c = hole → x ≤ h.getD c x

/-! ### siftdown -/

omit [LinearOrder α] in
theorem getD_congr (hi : i < h.length) (d d' : α) : h.getD i d = h.getD i d' := by
  simp [getD_eq_getElem?_getD, hi]

theorem parent_lt (h : 0 < i) : parent i < i := by unfold parent; omega

variable {x : α}

/-- One step of `siftdown`: the parent drops into the hole. -/
theorem UpOrder.move (o : UpOrder h s p x) (hp : s < p) (hx : x < h.getD (parent p) x) :
    UpOrder (h.set p (h.getD (parent p) x)) s (parent p) x := by
  have hup := o.anc.up (by omega)
  have hqp : parent p < p := parent_lt hup.1
  have hlt := o.lt
  have hsq : s ≤ parent p := hup.2.le
  refine ⟨⟨by simpa using hqp.trans hlt, hup.2, ?_, ?_⟩, ?_⟩
  · intro d i hi0 hi hsi hiq hpiq
    rw [length_set] at hi
    rw [getD_set hlt, getD_set hlt]
    have hip : i ≠ p := fun e => hpiq (by rw [e])
    rw [if_neg hip]
    split
    · rename_i hpi
      rw [getD_congr (by omega) x d]
      exact o.grand (by omega) d i hi0 hi hpi
    · exact o.off d i hi0 hi hsi hip ‹_›
  · intro hqs d c hc0 hc hcq
    rw [length_set] at hc
    have hq0 := (hup.2.up hqs).1
    have hqq : parent (parent p) < parent p := parent_lt hq0
    have hgg : h.getD (parent (parent p)) d ≤ h.getD (parent p) d :=
      o.off d (parent p) hq0 (by omega) (hup.2.up hqs).2.le (by omega) (by omega)
    rw [getD_set hlt, getD_set hlt, if_neg (by omega)]
    split
    · rw [getD_congr (by omega) x d]; exact hgg
    · have := o.off d c hc0 hc (by omega) ‹_› (by omega)
      rw [hcq] at this
      exact hgg.trans this
  · intro c hc0 hc hcq
    rw [length_set] at hc
    rw [getD_set hlt]
    split
    · exact hx.le
    · have := o.off x c hc0 hc (by omega) ‹_› (by omega)
      rw [hcq] at this
      exact hx.le.trans this

/-- The end of `siftdown`: the item lands in the hole. -/
theorem UpOrder.place (o : UpOrder h s p x) (hstop : s < p → ¬ x < h.getD (parent p) x) : HeapFrom s (h.set p x) := by
  intro d i hi0 hi hsi
  have hlt := o.lt
  rw [length_set] at hi
  rw [getD_set hlt, getD_set hlt]
  have hpi := parent_lt hi0
  by_cases hip : i = p
  · subst hip
    rw [if_neg (by omega), if_pos rfl]
    have := not_lt.mp (hstop (by omega))
    rwa [getD_congr (by omega) x d] at this
  · rw [if_neg hip]
    split
    · rename_i hpp
      rw [getD_congr hi d x]
      exact o.below i hi0 hi hpp
    · exact o.off d i hi0 hi hsi hip ‹_›

theorem siftdownLoop_spec (fuel : ℕ) (hf : p ≤ fuel) (o : UpOrder h s p x) :
    HeapFrom s (siftdownLoop s x fuel h p) ∧ (siftdownLoop s x fuel h p).Perm (h.set p x) := by
  induction fuel generalizing h p with
  | zero => exact ⟨o.place fun hs => by omega, Perm.refl _⟩
  | succ fuel ih =>
    simp only [siftdownLoop]
    split
    · rename_i hc
      have hup := o.anc.up (by omega)
      have hq := parent_lt hup.1
      obtain ⟨h1, h2⟩ := ih (by omega) (o.move hc.1 hc.2)
      exact ⟨h1, h2.trans (set_move_perm o.lt (hq.trans o.lt) (by omega) x x)⟩
    · rename_i hc
      exact ⟨o.place fun hs hx => hc ⟨hs, hx⟩, Perm.refl _⟩

/-! ### siftup -/

theorem smallerChild_spec (x : α) (hp : 2 * p + 1 < h.length) :
    smallerChild h x p < h.length ∧ parent (smallerChild h x p) = p ∧ p < smallerChild h x p ∧
      ∀ d : α, ∀ c, 0 < c → c < h.length → parent c = p → h.getD (smallerChild h x p) d ≤ h.getD c d := by
  have hchild : ∀ c, 0 < c → parent c = p → c = 2 * p + 1 ∨ c = 2 * p + 2 := by
    intro c hc0 hcp; unfold parent at hcp; omega
  unfold smallerChild
  split
  · rename_i hc
    refine ⟨hc.1, by unfold parent; omega, by omega, fun d c hc0 hc' hcp => ?_⟩
    have hle := not_lt.mp hc.2
    rw [getD_congr hc.1 x d, getD_congr hp x d] at hle
    rcases hchild c hc0 hcp with rfl | rfl
    · exact hle
    · exact le_rfl
  · rename_i hc
    refine ⟨hp, by unfold parent; omega, by omega, fun d c hc0 hc' hcp => ?_⟩
    rcases hchild c hc0 hcp with rfl | rfl
    · exact le_rfl
    · have hlt : h.getD (2 * p + 1) x < h.getD (2 * p + 2) x := by
        by_contra hn
        exact hc ⟨hc', hn⟩
      rw [getD_congr hc' x d, getD_congr hp x d] at hlt
      exact hlt.le

/-- One step of `siftup`: the smaller child rises into the hole. -/
theorem HoleOrder.move (o : HoleOrder h s p) (x : α) (hp : 2 * p + 1 < h.length) :
    HoleOrder (h.set p (h.getD (smallerChild h x p) x)) s (smallerChild h x p) := by
  obtain ⟨hlt, hpar, hgt, hmin⟩ := smallerChild_spec x hp
  set c := smallerChild h x p
  have hsp := o.anc.le
  refine ⟨by simpa using hlt, .child (by omega) (hpar ▸ o.anc), ?_, ?_⟩
  · intro d i hi0 hi hsi hic hpic
    rw [length_set] at hi
    have hpi := parent_lt hi0
    rw [getD_set o.lt, getD_set o.lt]
    by_cases hip : i = p
    · subst hip
      rw [if_neg (by omega), if_pos rfl, getD_congr hlt x d]
      exact o.grand (by omega) d c (by omega) hlt hpar
    · rw [if_neg hip]
      split
      · rename_i hpp
        rw [getD_congr hlt x d]
        exact hmin d i hi0 hi hpp
      · exact o.off d i hi0 hi hsi hip ‹_›
  · intro _ d k hk0 hk hkc
    rw [length_set] at hk
    have hpk := parent_lt hk0
    rw [getD_set o.lt, getD_set o.lt, if_pos hpar, if_neg (by omega), getD_congr hlt x d, ← hkc]
    exact o.off d k hk0 hk (by omega) (by omega) (by omega)

theorem siftupLoop_spec (x : α) (fuel : ℕ) (hf : h.length ≤ fuel + p) (o : HoleOrder h s p) :
    UpOrder (siftupLoop x fuel h p).1 s (siftupLoop x fuel h p).2 x ∧
      ((siftupLoop x fuel h p).1.set (siftupLoop x fuel h p).2 x).Perm (h.set p x) := by
  have leaf : ∀ {h : List α} {p : ℕ}, HoleOrder h s p → ¬ 2 * p + 1 < h.length → UpOrder h s p x := fun o hl =>
    ⟨o, fun c hc0 hc hcp => absurd hc (by unfold parent at hcp; omega)⟩
  induction fuel generalizing h p with
  | zero => exact absurd o.lt (by omega)
  | succ fuel ih =>
    simp only [siftupLoop]
    split
    · rename_i hc
      obtain ⟨hlt, hpar, hgt, -⟩ := smallerChild_spec x hc
      obtain ⟨h1, h2⟩ := ih (by rw [length_set]; omega) (o.move x hc)
      exact ⟨h1, h2.trans (set_move_perm o.lt hlt (by omega) x x)⟩
    · exact ⟨leaf o ‹_›, Perm.refl _⟩

theorem siftup_spec (x : α) (o : HoleOrder h s s) : HeapFrom s (siftup h s x) ∧ (siftup h s x).Perm (h.set s x) := by
  obtain ⟨h1, h2⟩ := siftupLoop_spec x h.length (by omega) o
  obtain ⟨h3, h4⟩ := siftdownLoop_spec _ le_rfl h1
  exact ⟨h3, h4.trans h2⟩

/-! ### The operations -/

theorem isHeap_nil : IsHeap ([] : List α) := by
  intro d i _ hi
  simp at hi

/-- The head of a heap is its least item. -/
theorem IsHeap.head_le (hh : IsHeap h) {rest : List α} (hx : h = x :: rest) : ∀ y ∈ h, x ≤ y := by
  have hroot : ∀ i, i < h.length → h.getD 0 x ≤ h.getD i x := by
    intro i
    induction i using Nat.strongRecOn with
    | ind i ih =>
      intro hi
      rcases Nat.eq_zero_or_pos i with rfl | hi0
      · exact le_rfl
      · have hp := parent_lt hi0
        exact (ih (parent i) hp (by omega)).trans (hh x i hi0 hi (Nat.zero_le _))
  intro y hy
  obtain ⟨i, hi, rfl⟩ := getElem_of_mem hy
  have hval : h.getD i x = h[i] := by simp [getD_eq_getElem?_getD, hi]
  have hzero : h.getD 0 x = x := by simp [hx]
  calc x = h.getD 0 x := hzero.symm
    _ ≤ h.getD i x := hroot i hi
    _ = h[i] := hval

theorem heappush_spec (hh : IsHeap h) (x : α) : IsHeap (heappush h x) ∧ (heappush h x).Perm (x :: h) := by
  have o : UpOrder (h ++ [x]) 0 h.length x := by
    refine ⟨⟨by simp, ancestor_zero _, ?_, ?_⟩, ?_⟩
    · intro d i hi0 hi _ hne _
      have hi' : i < h.length := by simp at hi; omega
      have hp := parent_lt hi0
      have := hh d i hi0 hi' (Nat.zero_le _)
      simpa [getD_eq_getElem?_getD, getElem?_append, hi', hp.trans hi'] using this
    · intro _ d c _ hc hcp
      unfold parent at hcp; simp at hc; omega
    · intro c _ hc hcp
      unfold parent at hcp; simp at hc; omega
  obtain ⟨h1, h2⟩ := siftdownLoop_spec h.length le_rfl o
  refine ⟨h1, h2.trans ?_⟩
  have : (h ++ [x]).set h.length x = h ++ [x] := by simp
  rw [this]
  exact perm_append_singleton x h

theorem heappop_spec {rest : List α} (hh : IsHeap (x :: rest)) :
    ∃ h', heappop (x :: rest) = some (x, h') ∧ IsHeap h' ∧ h'.Perm rest := by
  rcases rest.eq_nil_or_concat' with rfl | ⟨mid, z, rfl⟩
  · exact ⟨[], rfl, isHeap_nil, Perm.refl _⟩
  · have hdrop : (x :: (mid ++ [z])).dropLast = x :: mid := by
      rw [← cons_append, dropLast_concat]
    have hlast : (x :: (mid ++ [z])).getLast? = some z := by
      rw [← cons_append, getLast?_concat]
    have o : HoleOrder (z :: mid) 0 0 := by
      refine ⟨by simp, .self, ?_, fun h => absurd rfl h⟩
      intro d i hi0 hi _ _ hne
      have hp := parent_lt hi0
      have hi' : i < mid.length + 1 := by simpa using hi
      have := hh d i hi0 (by simp; omega) (Nat.zero_le _)
      have hread : ∀ j, 0 < j → j < mid.length + 1 → (x :: (mid ++ [z])).getD j d = (z :: mid).getD j d := by
        intro j hj0 hj
        obtain ⟨k, rfl⟩ := Nat.exists_eq_succ_of_ne_zero (by omega : j ≠ 0)
        have hk : k < mid.length := by omega
        simp [getD_eq_getElem?_getD, getElem?_append, hk]
      rwa [hread i hi0 hi', hread (parent i) (by omega) (by omega)] at this
    obtain ⟨h1, h2⟩ := siftup_spec z o
    refine ⟨siftup (z :: mid) 0 z, ?_, h1, h2.trans ?_⟩
    · unfold heappop
      rw [hlast, hdrop]
    · have : (z :: mid).set 0 z = z :: mid := rfl
      rw [this]
      exact (perm_append_singleton z mid).symm

theorem heappop_cases (hh : IsHeap h) : (h = [] ∧ heappop h = none) ∨
    ∃ x h', heappop h = some (x, h') ∧ IsHeap h' ∧ h.Perm (x :: h') ∧ (∀ y ∈ h, x ≤ y) ∧ h.head? = some x := by
  cases h with
  | nil => exact .inl ⟨rfl, rfl⟩
  | cons x rest =>
    obtain ⟨h', hpop, hheap, hperm⟩ := heappop_spec hh
    exact .inr ⟨x, h', hpop, hheap, (hperm.symm.cons x), hh.head_le rfl, rfl⟩

theorem heapifyLoop_spec (hh : HeapFrom i h) : IsHeap (heapifyLoop i h) ∧ (heapifyLoop i h).Perm h := by
  induction i generalizing h with
  | zero => exact ⟨hh, Perm.refl _⟩
  | succ i ih =>
    simp only [heapifyLoop]
    cases hi : h[i]? with
    | none =>
      have hlen : h.length ≤ i := List.getElem?_eq_none_iff.mp hi
      refine ih fun d j hj0 hj hs => ?_
      have := parent_lt hj0
      omega
    | some item =>
      have hlt : i < h.length := (List.getElem?_eq_some_iff.mp hi).1
      have o : HoleOrder h i i := by
        refine ⟨hlt, .self, ?_, fun h => absurd rfl h⟩
        intro d j hj0 hj hs _ hne
        exact hh d j hj0 hj (by omega)
      obtain ⟨h1, h2⟩ := siftup_spec item o
      obtain ⟨h3, h4⟩ := ih h1
      have hset : h.set i item = h := by
        rw [← (List.getElem?_eq_some_iff.mp hi).2]
        exact set_getElem_self hlt
      rw [hset] at h2
      exact ⟨h3, h4.trans h2⟩

theorem heapify_spec (h : List α) : IsHeap (heapify h) ∧ (heapify h).Perm h := by
  refine heapifyLoop_spec fun d i hi0 hi hs => ?_
  unfold parent at hs
  omega

end SystemDesign.Heapq
