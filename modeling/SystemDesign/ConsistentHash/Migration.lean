import SystemDesign.ConsistentHash.Ring

/-!
Migration planning (`migration.py`): the arcs of the ring whose owner differs between
two snapshots, and the candidate keys that lie on them.

Both planners follow the two topologies by their boundaries alone. They agree with
`get_node` at every position (`affected_exact`), so the plan is exactly the set of
keys that move.
-/

namespace SystemDesign.ConsistentHash

open List hiding le_of_lt le_refl le_total lt_irrefl not_le

structure AffectedRange where
  start : ℤ
  stop : ℤ
  previousOwner : Option String
  newOwner : Option String

def AffectedRange.contains (r : AffectedRange) (position : ℤ) : Bool :=
  if r.start < r.stop then decide (r.start ≤ position) && decide (position < r.stop)
  else decide (position ≥ r.start) || decide (position < r.stop)

theorem AffectedRange.contains_iff (r : AffectedRange) (p : ℤ) : r.contains p = true ↔ OnArc r.start r.stop p := by
  unfold contains OnArc
  split <;> simp

structure KeyMigration where
  key : String
  previousOwner : Option String
  newOwner : Option String

/-- What `before._state is after._state` may answer: the same object is an equal state,
but equal states need not be one object. -/
structure Identity (before after : RingState) where
  same : Bool
  sound : same = true → before = after

/-! ### The plan -/

/-- The `while` loop of `_owners_at_boundaries`. -/
def advance (positions : List ℤ) (start : ℤ) (index : ℕ) : ℕ :=
  if h : index < positions.length then
    if positions[index] ≤ start then advance positions start (index + 1) else index
  else index
termination_by positions.length - index

/-- The `for` loop of `_owners_at_boundaries` from an index on. -/
def ownersFrom (s : RingState) : ℕ → List ℤ → List (Option String)
  | _, [] => []
  | index, start :: rest =>
    let index := advance s.positions start index
    (s.entries[index % s.entries.length]?).map Entry.node :: ownersFrom s index rest

/-- `_owners_at_boundaries`. -/
def ownersAtBoundaries (s : RingState) (boundaries : List ℤ) : List (Option String) :=
  if s.entries.length = 0 then List.replicate boundaries.length none
  else ownersFrom s 0 boundaries

def boundariesOf (before after : RingState) : List ℤ :=
  groupKeys ((before.positions ++ after.positions).mergeSort fun a b => decide (a ≤ b))

/-- `affected_ranges` on two snapshots with one hash function. -/
def affectedRanges (before after : RingState) (identity : Identity before after) :
    List AffectedRange :=
  if identity.same then []
  else
    let boundaries := boundariesOf before after
    let owners := (ownersAtBoundaries before boundaries).zip (ownersAtBoundaries after boundaries)
    owners.zipIdx.filterMap fun ((old, new), index) =>
      if old ≠ new then
        some ⟨boundaries.getD index 0, boundaries.getD ((index + 1) % boundaries.length) 0, old, new⟩
      else none

/-- `ranges[bisect_right(starts, position) - 1]`, where index `-1` is the last range. -/
def candidate (ranges : List AffectedRange) (position : ℤ) : Option AffectedRange :=
  match bisectRight (ranges.map AffectedRange.start) position with
  | 0 => ranges.getLast?
  | k + 1 => ranges[k]?

/-- One step of `selected`. -/
def select (ranges : List AffectedRange) (hash : String → ℤ) (key : String) :
    Option KeyMigration :=
  match candidate ranges (hash key) with
  | some interval =>
    if interval.contains (hash key) then
      some ⟨key, interval.previousOwner, interval.newOwner⟩
    else none
  | none => none

/-- `iter_migrations`, run over all the candidate keys. -/
def iterMigrations (before after : RingState) (identity : Identity before after)
    (hash : String → ℤ) (keys : List String) : List KeyMigration :=
  let ranges := affectedRanges before after identity
  if ranges.isEmpty then [] else keys.filterMap (select ranges hash)

/-! ### Owners at the boundaries -/

theorem advance_eq {positions : List ℤ} (hs : positions.Pairwise (· ≤ ·)) (start : ℤ) (index : ℕ)
    (hle : index ≤ bisectRight positions start) : advance positions start index = bisectRight positions start := by
  have hlen := bisectRight_le_length positions start
  fun_induction advance positions start index with
  | case1 index h hstart ih => exact ih ((lt_bisectRight_iff hs start h).mpr hstart)
  | case2 index h hstart =>
    have := mt (lt_bisectRight_iff hs start h).mp hstart
    omega
  | case3 index h => omega

/-- Along ascending boundaries the carried index never has to go back. -/
theorem ownersFrom_eq (s : RingState) (index : ℕ) (boundaries : List ℤ) (hs : boundaries.Pairwise (· < ·))
    (hle : ∀ b ∈ boundaries, index ≤ bisectRight s.positions b) :
    ownersFrom s index boundaries = boundaries.map s.ownerAt := by
  induction boundaries generalizing index with
  | nil => rfl
  | cons start rest ih =>
    obtain ⟨hstart, hrest⟩ := pairwise_cons.mp hs
    have hadv := advance_eq s.positions_sorted start index (hle start mem_cons_self)
    have hmono : ∀ b ∈ rest, bisectRight s.positions start ≤ bisectRight s.positions b := by
      intro b hb
      by_contra hlt
      have hi : bisectRight s.positions b < s.positions.length := by
        have := bisectRight_le_length s.positions start
        omega
      have hat := (lt_bisectRight_iff s.positions_sorted start hi).mp (by omega)
      have hnot := mt (lt_bisectRight_iff s.positions_sorted b hi).mpr
      exact absurd (hnot (lt_irrefl _)) (not_not.mpr (hat.trans (hstart b hb).le))
    rw [ownersFrom, map_cons, hadv, ih _ hrest hmono]
    rfl

theorem ownersAtBoundaries_eq (s : RingState) {boundaries : List ℤ} (hs : boundaries.Pairwise (· < ·)) :
    ownersAtBoundaries s boundaries = boundaries.map s.ownerAt := by
  unfold ownersAtBoundaries
  split
  · rename_i h
    have hempty : s.entries = [] := length_eq_zero_iff.mp h
    have hnone : s.ownerAt = fun _ => none := funext (s.ownerAt_of_empty hempty)
    rw [hnone, map_const']
  · exact ownersFrom_eq s 0 boundaries hs fun b _ => Nat.zero_le _

section Plan

variable (before after : RingState)

theorem boundariesOf_sorted : (boundariesOf before after).Pairwise (· < ·) := by
  apply groupKeys_pairwise
  have hsort := @List.pairwise_mergeSort ℤ (fun a b => decide (a ≤ b))
    (fun a b c hab hbc => by simp only [decide_eq_true_eq] at *; exact hab.trans hbc)
    (fun a b => by simpa using le_total a b) (before.positions ++ after.positions)
  exact hsort.imp fun h => by simpa using h

theorem mem_boundariesOf {z : ℤ} : z ∈ boundariesOf before after ↔ z ∈ before.positions ∨ z ∈ after.positions := by
  rw [boundariesOf, mem_groupKeys, mem_mergeSort, mem_append]

/-- The range of the arc that starts at the `i`-th boundary. -/
def arcRange (i : ℕ) : AffectedRange :=
  let boundaries := boundariesOf before after
  ⟨boundaries.getD i 0, boundaries.getD ((i + 1) % boundaries.length) 0,
    before.ownerAt (boundaries.getD i 0), after.ownerAt (boundaries.getD i 0)⟩

/-- The owner changes on the arc that starts at the `i`-th boundary. -/
def arcChanged (i : ℕ) : Bool := decide ((arcRange before after i).previousOwner ≠ (arcRange before after i).newOwner)

theorem arcChanged_self (i : ℕ) : arcChanged before before i = false := by
  simp [arcChanged, arcRange]

/-- The plan is the list of changed arcs in ring order, also when the shortcut for a
shared topology is taken. -/
theorem affectedRanges_eq (identity : Identity before after) : affectedRanges before after identity =
      ((List.range (boundariesOf before after).length).filter (arcChanged before after)).map
        (arcRange before after) := by
  cases hsame : identity.same with
  | true =>
    obtain rfl := identity.sound hsame
    simp [affectedRanges, hsame, arcChanged_self]
  | false =>
    have hs := boundariesOf_sorted before after
    simp only [affectedRanges, hsame, Bool.false_eq_true, if_false, ownersAtBoundaries_eq _ hs, zip_map']
    have hidx : ((boundariesOf before after).map fun b => (before.ownerAt b, after.ownerAt b)).zipIdx =
        (List.range (boundariesOf before after).length).map fun i =>
          ((before.ownerAt ((boundariesOf before after).getD i 0),
            after.ownerAt ((boundariesOf before after).getD i 0)), i) := by
      apply ext_getElem
      · simp
      · intro i h₁ h₂
        have hi : i < (boundariesOf before after).length := by simpa using h₁
        simp [hi]
    rw [hidx, filterMap_map, ← filterMap_eq_filter, map_filterMap]
    congr 1
    funext i
    cases hc : arcChanged before after i with
    | true =>
      have hne : before.ownerAt ((boundariesOf before after).getD i 0) ≠
        after.ownerAt ((boundariesOf before after).getD i 0) := of_decide_eq_true hc
      simp only [Function.comp_apply, Option.guard, hc, if_true, Option.map_some]
      exact if_pos hne
    | false =>
      have heq : ¬ before.ownerAt ((boundariesOf before after).getD i 0) ≠
        after.ownerAt ((boundariesOf before after).getD i 0) := of_decide_eq_false hc
      simp only [Function.comp_apply, Option.guard, hc, Bool.false_eq_true, if_false, Option.map_none]
      exact if_neg heq

variable {before after}

theorem arcRange_contains_iff {i : ℕ} (hi : i < (boundariesOf before after).length) (p : ℤ) :
    (arcRange before after i).contains p = true ↔ i = arcIndex (boundariesOf before after) p := by
  have hnext := Nat.mod_lt (i + 1) (show 0 < (boundariesOf before after).length by omega)
  rw [AffectedRange.contains_iff, ← onArc_iff (boundariesOf_sorted before after) p hi hnext]
  simp [arcRange, hi, hnext]

/-- Along an arc a topology whose positions are all boundaries has one owner. -/
theorem ownerAt_arc (s : RingState) {boundaries : List ℤ} (hs : boundaries.Pairwise (· < ·))
    (hsub : ∀ z ∈ s.positions, z ∈ boundaries) (p : ℤ) (hpos : 0 < boundaries.length) :
    s.ownerAt p = s.ownerAt (boundaries.getD (arcIndex boundaries p) 0) := by
  have hmono : boundaries.Pairwise (· ≤ ·) := hs.imp fun h => le_of_lt h
  have hk := arcIndex_lt p hpos
  have hform := (arcIndex_eq_iff hk).mp rfl
  generalize arcIndex boundaries p = k at *
  have hget : boundaries.getD k 0 = boundaries[k] := by simp [hk]
  rw [hget]
  have horder : ∀ (j : ℕ) (hj : j < boundaries.length), boundaries[j] ≤ boundaries[k] ↔ j ≤ k := by
    intro j hj
    constructor
    · intro hle
      by_contra hlt
      exact absurd hle (not_le.mpr (pairwise_iff_getElem.mp hs k j hk hj (by omega)))
    · intro hle
      rcases Nat.eq_or_lt_of_le hle with rfl | hlt
      · exact le_refl _
      · exact le_of_lt (pairwise_iff_getElem.mp hs j k hj hk hlt)
  rcases hform with hat | ⟨hzero, hlast⟩
  · apply s.ownerAt_congr
    intro z hz
    obtain ⟨j, hj, rfl⟩ := getElem_of_mem (hsub z hz)
    rw [← lt_bisectRight_iff hmono p hj, hat, horder j hj]
    omega
  · apply s.ownerAt_wrap
    · intro z hz
      obtain ⟨j, hj, rfl⟩ := getElem_of_mem (hsub z hz)
      have := mt (lt_bisectRight_iff hmono p hj).mpr (by omega)
      exact not_le.mp this
    · intro z hz
      obtain ⟨j, hj, rfl⟩ := getElem_of_mem (hsub z hz)
      exact (horder j hj).mpr (by omega)

theorem arcRange_owners (p : ℤ) (hpos : 0 < (boundariesOf before after).length) :
    (arcRange before after (arcIndex (boundariesOf before after) p)).previousOwner = before.ownerAt p ∧
      (arcRange before after (arcIndex (boundariesOf before after) p)).newOwner = after.ownerAt p := by
  have hs := boundariesOf_sorted before after
  constructor
  · exact (ownerAt_arc before hs (fun z hz => (mem_boundariesOf before after).mpr (.inl hz)) p hpos).symm
  · exact (ownerAt_arc after hs (fun z hz => (mem_boundariesOf before after).mpr (.inr hz)) p hpos).symm

theorem arcChanged_iff (p : ℤ) (hpos : 0 < (boundariesOf before after).length) :
    arcChanged before after (arcIndex (boundariesOf before after) p) = true ↔ before.ownerAt p ≠ after.ownerAt p := by
  obtain ⟨hprev, hnew⟩ := @arcRange_owners before after p hpos
  simp [arcChanged, hprev, hnew]

/-- Without boundaries both rings are empty. -/
theorem ownerAt_of_no_boundaries (h : (boundariesOf before after).length = 0) (p : ℤ) :
    before.ownerAt p = after.ownerAt p := by
  have hnil : boundariesOf before after = [] := length_eq_zero_iff.mp h
  have hnone : ∀ s : RingState, (∀ z ∈ s.positions, z ∈ boundariesOf before after) → s.ownerAt p = none := by
    intro s hsub
    apply s.ownerAt_of_empty
    rw [hnil] at hsub
    have : s.positions = [] := eq_nil_iff_forall_not_mem.mpr fun z hz => nomatch hsub z hz
    exact map_eq_nil_iff.mp this
  rw [hnone before fun z hz => (mem_boundariesOf before after).mpr (.inl hz),
    hnone after fun z hz => (mem_boundariesOf before after).mpr (.inr hz)]

/-- The ranges that hold a position: the changed arc it lies on, if any. -/
theorem filter_contains_eq (identity : Identity before after) (p : ℤ) :
    (affectedRanges before after identity).filter (fun r => r.contains p) =
      if before.ownerAt p = after.ownerAt p then []
      else [arcRange before after (arcIndex (boundariesOf before after) p)] := by
  rcases Nat.eq_zero_or_pos (boundariesOf before after).length with hzero | hpos
  · rw [if_pos (ownerAt_of_no_boundaries hzero p), affectedRanges_eq, hzero]
    rfl
  · have hlt := arcIndex_lt p hpos
    have hiff := @arcChanged_iff before after p hpos
    rw [affectedRanges_eq, filter_map, filter_filter]
    generalize hk : arcIndex (boundariesOf before after) p = k at *
    have hone : ∀ i ∈ List.range (boundariesOf before after).length,
        (((fun r : AffectedRange => r.contains p) ∘ arcRange before after) i &&
          arcChanged before after i) = (decide (i = k) && arcChanged before after k) := by
      intro i hi
      have hc := @arcRange_contains_iff before after i (mem_range.mp hi) p
      rw [hk] at hc
      by_cases hik : i = k
      · subst hik
        simp [hc.mpr rfl]
      · have : (arcRange before after i).contains p = false := by
          simpa using mt hc.mp hik
        simp [this, hik]
    rw [filter_congr hone]
    by_cases hsame : before.ownerAt p = after.ownerAt p
    · have hno : arcChanged before after k = false := by simpa using mt hiff.mp (not_not.mpr hsame)
      simp [hno, hsame]
    · have hyes := hiff.mpr hsame
      have hsingle : (List.range (boundariesOf before after).length).filter (fun i => decide (i = k)) = [k] := by
        rw [filter_eq, count_eq_one_of_mem nodup_range (mem_range.mpr hlt)]
        rfl
      simp [hyes, hsame, hsingle]

variable {r : AffectedRange}

/-- Index `bisect_right - 1` is the last range that starts at or before the position. -/
theorem candidate_middle {left right : List AffectedRange} {p : ℤ} (hleft : ∀ a ∈ left, a.start ≤ p)
    (hr : r.start ≤ p) (hright : ∀ a ∈ right, p < a.start) : candidate (left ++ r :: right) p = some r := by
  have hbisect : bisectRight ((left ++ r :: right).map AffectedRange.start) p = left.length + 1 := by
    rw [append_cons, map_append, bisectRight_append]
    · simp
    · intro z hz
      obtain ⟨a, ha, rfl⟩ := mem_map.mp hz
      rcases mem_append.mp ha with ha | ha
      · exact hleft a ha
      · exact mem_singleton.mp ha ▸ hr
    · intro z hz
      obtain ⟨a, ha, rfl⟩ := mem_map.mp hz
      exact hright a ha
  simp only [candidate, hbisect]
  simp

/-- Index `-1` is the range that wraps round. -/
theorem candidate_last {left : List AffectedRange} {p : ℤ} (hleft : ∀ a ∈ left, p < a.start) (hr : p < r.start) :
    candidate (left ++ [r]) p = some r := by
  have hbisect : bisectRight ((left ++ [r]).map AffectedRange.start) p = 0 := by
    apply bisectRight_eq_zero
    intro z hz
    obtain ⟨a, ha, rfl⟩ := mem_map.mp hz
    rcases mem_append.mp ha with ha | ha
    · exact hleft a ha
    · exact mem_singleton.mp ha ▸ hr
  simp only [candidate, hbisect]
  simp

/-- The binary search over the changed arcs alone finds the arc of a position whose
owner changes. -/
theorem candidate_eq (identity : Identity before after) {p : ℤ} (hne : before.ownerAt p ≠ after.ownerAt p) :
    candidate (affectedRanges before after identity) p =
      some (arcRange before after (arcIndex (boundariesOf before after) p)) := by
  have hpos : 0 < (boundariesOf before after).length := Nat.pos_of_ne_zero fun h => hne (ownerAt_of_no_boundaries h p)
  have hs := boundariesOf_sorted before after
  have hmono : (boundariesOf before after).Pairwise (· ≤ ·) := hs.imp fun h => le_of_lt h
  have hlt := arcIndex_lt p hpos
  have hchanged := (@arcChanged_iff before after p hpos).mpr hne
  have hform := (arcIndex_eq_iff hlt).mp rfl
  generalize arcIndex (boundariesOf before after) p = k at *
  have hstart : ∀ i, i < (boundariesOf before after).length →
      ((arcRange before after i).start ≤ p ↔ i < bisectRight (boundariesOf before after) p) := by
    intro i hi
    rw [lt_bisectRight_iff hmono p hi]
    simp [arcRange, hi]
  have hsplit : List.range (boundariesOf before after).length =
      List.range k ++ k :: List.range' (k + 1) ((boundariesOf before after).length - (k + 1)) := by
    have hlen : (boundariesOf before after).length =
        k + (1 + ((boundariesOf before after).length - (k + 1))) := by omega
    conv_lhs => rw [hlen, range_add, range_add]
    simp [range'_eq_map_range, Nat.add_assoc]
  rw [affectedRanges_eq, hsplit, filter_append, filter_cons_of_pos hchanged, map_append, map_cons]
  rcases hform with hat | ⟨hzero, hlast⟩
  · apply candidate_middle
    · simp only [mem_map, mem_filter, mem_range]
      rintro r ⟨i, ⟨hi, -⟩, rfl⟩
      exact (hstart i (by omega)).mpr (by omega)
    · exact (hstart k hlt).mpr (by omega)
    · simp only [mem_map, mem_filter, mem_range'_1]
      rintro r ⟨i, ⟨hi, -⟩, rfl⟩
      exact not_le.mp (mt (hstart i (by omega)).mp (by omega))
  · have hnone : (boundariesOf before after).length - (k + 1) = 0 := by omega
    rw [hnone]
    apply candidate_last
    · simp only [mem_map, mem_filter, mem_range]
      rintro r ⟨i, ⟨hi, -⟩, rfl⟩
      exact not_le.mp (mt (hstart i (by omega)).mp (by omega))
    · exact not_le.mp (mt (hstart k hlt).mp (by omega))

theorem mem_of_candidate {ranges : List AffectedRange} {p : ℤ} (h : candidate ranges p = some r) : r ∈ ranges := by
  unfold candidate at h
  split at h
  · exact mem_of_getLast? h
  · exact mem_of_getElem? h

/-- One candidate key is selected exactly when its owner changes. -/
theorem select_eq (identity : Identity before after) (hash : String → ℤ) (key : String) :
    select (affectedRanges before after identity) hash key =
      if before.ownerAt (hash key) = after.ownerAt (hash key) then none
      else some ⟨key, before.ownerAt (hash key), after.ownerAt (hash key)⟩ := by
  have hfilter := filter_contains_eq identity (hash key)
  by_cases hsame : before.ownerAt (hash key) = after.ownerAt (hash key)
  · rw [if_pos hsame] at hfilter ⊢
    unfold select
    split
    · rename_i interval hc
      have hno : ¬ interval.contains (hash key) = true := filter_eq_nil_iff.mp hfilter interval (mem_of_candidate hc)
      rw [if_neg hno]
    · rfl
  · have hpos : 0 < (boundariesOf before after).length :=
      Nat.pos_of_ne_zero fun h => hsame (ownerAt_of_no_boundaries h _)
    obtain ⟨hprev, hnew⟩ := @arcRange_owners before after (hash key) hpos
    have hin := (@arcRange_contains_iff before after _ (arcIndex_lt (hash key) hpos) _).mpr rfl
    rw [if_neg hsame, select, candidate_eq identity hsame]
    simp [hin, hprev, hnew]

end Plan

/-- The plan agrees with lookup. Every position lies in exactly one affected range, with
its two owners, when its owner changes and in none when it does not; and the migrations
are the supplied keys whose `get_node` changes, in order. -/
theorem affected_exact (before after : RingState) (identity : Identity before after)
    (hash : String → ℤ) :
    (∀ (s : RingState) (key : String), s.getNode hash key = match s.ownerAt (hash key) with
      | some node => .ok node
      | none => .error (.runtimeError "Hash ring is empty - no nodes available.")) ∧
    (∀ p, (before.ownerAt p = after.ownerAt p ∧
        (affectedRanges before after identity).filter (fun r => r.contains p) = []) ∨
      (before.ownerAt p ≠ after.ownerAt p ∧ ∃ start stop,
        (affectedRanges before after identity).filter (fun r => r.contains p) =
          [⟨start, stop, before.ownerAt p, after.ownerAt p⟩])) ∧
    ∀ keys, iterMigrations before after identity hash keys = keys.filterMap fun key =>
      if (before.getNode hash key).toOption = (after.getNode hash key).toOption then none
      else some ⟨key, (before.getNode hash key).toOption, (after.getNode hash key).toOption⟩ := by
  refine ⟨fun s key => s.getNode_eq hash key, fun p => ?_, fun keys => ?_⟩
  · have hfilter := filter_contains_eq identity p
    by_cases hsame : before.ownerAt p = after.ownerAt p
    · exact .inl ⟨hsame, by rw [hfilter, if_pos hsame]⟩
    · have hpos : 0 < (boundariesOf before after).length :=
        Nat.pos_of_ne_zero fun h => hsame (ownerAt_of_no_boundaries h p)
      obtain ⟨hprev, hnew⟩ := @arcRange_owners before after p hpos
      rw [if_neg hsame] at hfilter
      rw [← hprev, ← hnew, hfilter]
      exact .inr ⟨hprev ▸ hnew ▸ hsame, _, _, rfl⟩
  · have hselect := fun key => select_eq identity hash key
    simp only [RingState.getNode_toOption]
    rw [← funext hselect]
    cases hempty : (affectedRanges before after identity).isEmpty with
    | true =>
      simp only [iterMigrations, hempty, if_true]
      rw [List.isEmpty_iff.mp hempty, eq_comm, filterMap_eq_nil_iff]
      intro key _
      rfl
    | false => simp only [iterMigrations, hempty, Bool.false_eq_true, if_false]

end SystemDesign.ConsistentHash
