import SystemDesign.ConsistentHash.Histories

/-!
The invariant of every history: the entries are those of the weights, the nodes are the weighted
ones in order, every weight is positive and the capacity is kept.
-/

namespace SystemDesign.ConsistentHash

open List hiding not_le not_lt
open Dict hiding set

variable {hash : String → ℤ} {maxVirtualNodes : ℕ} {p p' : Published} {w w' : Dict String ℕ} {node : String} {value : ℤ}
  {out : List ℤ} {count : ℕ}

/-! ### What a call that returns has checked -/

theorem publishAdd_cases (h : publishAdd hash maxVirtualNodes p node value = .ok (p', out)) :
    0 < value ∧ node ∉ p.nodes ∧ p.entries.length + value.toNat ≤ maxVirtualNodes ∧
      p' = .fromOrdered ((p.entries ++ (virtualEntries hash node 0 value.toNat).mergeSort Entry.le).mergeSort Entry.le)
        (p.nodes ++ [node]) := by
  by_cases hname : node = ""
  · simp [publishAdd, validateNode, hname, bind, Except.bind] at h
  by_cases hvalue : value ≤ 0
  · simp [publishAdd, validateNode, hname, positiveCount, hvalue, bind, Except.bind] at h
  by_cases hnode : node ∈ p.nodes
  · simp [publishAdd, validateNode, hname, positiveCount, hvalue, hnode, bind, Except.bind, throw, throwThe,
      MonadExceptOf.throw] at h
  by_cases hroom : maxVirtualNodes < p.entries.length + value.toNat
  · simp [publishAdd, validateNode, hname, positiveCount, hvalue, hnode, ensureCapacity, hroom, bind, Except.bind] at h
  · simp [publishAdd, validateNode, hname, positiveCount, hvalue, hnode, ensureCapacity, hroom, bind, Except.bind, pure,
      Except.pure] at h
    exact ⟨not_le.mp hvalue, hnode, not_lt.mp hroom, h.1.symm⟩

theorem publishRemove_cases (h : publishRemove p node = .ok (p', out)) : node ∈ p.nodes ∧
      p' = .fromOrdered (p.entries.filter fun e => e.node ≠ node) (p.nodes.filter fun name => name ≠ node) := by
  by_cases hname : node = ""
  · simp [publishRemove, validateNode, hname, bind, Except.bind] at h
  by_cases hnode : node ∈ p.nodes
  · simp [publishRemove, validateNode, hname, hnode, bind, Except.bind, pure, Except.pure] at h
    exact ⟨hnode, by simpa using h.1.symm⟩
  · simp [publishRemove, validateNode, hname, hnode, bind, Except.bind, throw, throwThe, MonadExceptOf.throw] at h

theorem publishSet_cases (h : publishSet hash maxVirtualNodes p node value = .ok (p', out)) :
    0 < value ∧ node ∈ p.nodes ∧
      p.entries.length - (p.entries.countP fun e => e.node = node) + value.toNat ≤ maxVirtualNodes ∧
      ((p.entries.countP fun e => e.node = node) = value.toNat ∧ p' = p ∨
        (p.entries.countP fun e => e.node = node) < value.toNat ∧
          p' = .fromOrdered ((p.entries ++ (virtualEntries hash node (p.entries.countP fun e => e.node = node)
            value.toNat).mergeSort Entry.le).mergeSort Entry.le) p.nodes ∨
        value.toNat < (p.entries.countP fun e => e.node = node) ∧
          p' = .fromOrdered (p.entries.filter fun e => e.node ≠ node || e.index < value.toNat) p.nodes) := by
  by_cases hname : node = ""
  · simp [publishSet, validateNode, hname, bind, Except.bind] at h
  by_cases hvalue : value ≤ 0
  · simp [publishSet, validateNode, hname, positiveCount, hvalue, bind, Except.bind] at h
  by_cases hnode : node ∈ p.nodes
  swap
  · simp [publishSet, validateNode, hname, positiveCount, hvalue, hnode, bind, Except.bind, throw, throwThe,
      MonadExceptOf.throw] at h
  generalize hold : (p.entries.countP fun e => e.node = node) = old
  by_cases hroom : maxVirtualNodes < p.entries.length - old + value.toNat
  · simp [publishSet, validateNode, hname, positiveCount, hvalue, hnode, ensureCapacity, hold, hroom, bind, Except.bind] at h
  refine ⟨not_le.mp hvalue, hnode, not_lt.mp hroom, ?_⟩
  obtain hlt | heq | hgt := lt_trichotomy old value.toNat
  · simp [publishSet, validateNode, hname, positiveCount, hvalue, hnode, ensureCapacity, hold, hroom, hlt, hlt.ne, bind,
      Except.bind, pure, Except.pure] at h
    exact .inr (.inl ⟨hlt, h.1.symm⟩)
  · subst heq
    simp [publishSet, validateNode, hname, positiveCount, hvalue, hnode, ensureCapacity, hold, hroom, bind, Except.bind, pure,
      Except.pure] at h
    exact .inl ⟨rfl, h.1.symm⟩
  · simp [publishSet, validateNode, hname, positiveCount, hvalue, hnode, ensureCapacity, hold, hroom, hgt.not_gt, hgt.ne',
      bind, Except.bind, pure, Except.pure] at h
    exact .inr (.inr ⟨hgt, by simpa using h.1.symm⟩)

/-! ### The entries of the weights -/

theorem node_of_mem_virtualEntries {start stop : ℕ} {e : Entry} (h : e ∈ virtualEntries hash node start stop) : e.node = node := by
  obtain ⟨index, -, rfl⟩ := mem_map.mp h
  rfl

theorem virtualEntries_split {mid : ℕ} (h : mid ≤ count) :
    virtualEntries hash node 0 mid ++ virtualEntries hash node mid count = virtualEntries hash node 0 count := by
  rw [virtualEntries, virtualEntries, virtualEntries, ← map_append, Nat.sub_zero, Nat.sub_zero,
    show List.range' mid (count - mid) = List.range' (0 + 1 * mid) (count - mid) by rw [zero_add, one_mul],
    range'_append, Nat.add_sub_cancel' h]

theorem length_virtualEntries (start stop : ℕ) : (virtualEntries hash node start stop).length = stop - start := by
  rw [virtualEntries, length_map, length_range']

theorem scratch_perm (h : w.entries.Perm w'.entries) : (scratch hash w).Perm (scratch hash w') := h.flatMap_right _

theorem scratch_of_some (h : w.get? node = some count) :
    (scratch hash w).Perm (virtualEntries hash node 0 count ++ scratch hash (w.erase node)) :=
  (entries_perm h).flatMap_right _

theorem scratch_set (w : Dict String ℕ) (node : String) (count : ℕ) :
    (scratch hash (w.set node count)).Perm (virtualEntries hash node 0 count ++ scratch hash (w.erase node)) :=
  (set_entries_perm w node count).flatMap_right _

/-- No entry of the other nodes is of this one. -/
theorem ne_of_mem_scratch_erase {e : Entry} (h : e ∈ scratch hash (w.erase node)) : e.node ≠ node := by
  obtain ⟨⟨name, count⟩, hname, he⟩ := mem_flatMap.mp h
  have hmem := mem_entries.mp hname
  rw [node_of_mem_virtualEntries he]
  rintro rfl
  rw [get?_erase, if_pos rfl] at hmem
  cases hmem

theorem filter_node_scratch (h : w.get? node = some count) :
    ((scratch hash w).filter fun e => e.node = node).Perm (virtualEntries hash node 0 count) := by
  refine ((scratch_of_some h).filter _).trans ?_
  rw [filter_append, filter_eq_self.mpr fun e he => decide_eq_true (node_of_mem_virtualEntries he),
    filter_eq_nil_iff.mpr fun e he => by simpa using ne_of_mem_scratch_erase he, append_nil]

theorem scratch_erase (h : w.get? node = some count) :
    (scratch hash (w.erase node)).Perm ((scratch hash w).filter fun e => e.node ≠ node) := by
  refine Perm.symm (((scratch_of_some h).filter _).trans ?_)
  rw [filter_append, filter_eq_nil_iff.mpr fun e he => by simp [node_of_mem_virtualEntries he],
    filter_eq_self.mpr fun e he => by simpa using ne_of_mem_scratch_erase he, nil_append]

/-- Dropping the highest indices of a node lowers its weight. -/
theorem scratch_lower {old : ℕ} (h : w.get? node = some old) (hle : count ≤ old) :
    (scratch hash (w.set node count)).Perm ((scratch hash w).filter fun e => e.node ≠ node || e.index < count) := by
  refine (scratch_set w node count).trans (Perm.symm (((scratch_of_some h).filter _).trans ?_))
  have hown : (virtualEntries hash node 0 old).filter (fun e => e.node ≠ node || e.index < count) =
      virtualEntries hash node 0 count := by
    rw [← virtualEntries_split hle, filter_append]
    have hkeep : (virtualEntries hash node 0 count).filter (fun e => e.node ≠ node || e.index < count) =
        virtualEntries hash node 0 count := by
      refine filter_eq_self.mpr fun e he => ?_
      obtain ⟨index, hindex, rfl⟩ := mem_map.mp he
      simpa using hindex
    have hdrop : (virtualEntries hash node count old).filter (fun e => e.node ≠ node || e.index < count) = [] := by
      refine filter_eq_nil_iff.mpr fun e he => ?_
      obtain ⟨index, hindex, rfl⟩ := mem_map.mp he
      have := (mem_range'_1.mp hindex).1
      simpa using this
    rw [hkeep, hdrop, append_nil]
  have hothers : (scratch hash (w.erase node)).filter (fun e => e.node ≠ node || e.index < count) =
      scratch hash (w.erase node) :=
    filter_eq_self.mpr fun e he => by simp [ne_of_mem_scratch_erase he]
  rw [filter_append, hown, hothers]

/-- Appending indices to a node raises its weight. -/
theorem scratch_raise {old : ℕ} (h : w.get? node = some old) (hle : old ≤ count) :
    (scratch hash (w.set node count)).Perm (scratch hash w ++ virtualEntries hash node old count) := by
  refine (scratch_set w node count).trans ?_
  rw [← virtualEntries_split hle, append_assoc]
  refine (Perm.append_left _ perm_append_comm).trans ?_
  rw [← append_assoc]
  exact (scratch_of_some h).symm.append_right _

/-! ### The invariant -/

/-- The published state is the ring of its weights. -/
structure Built (hash : String → ℤ) (maxVirtualNodes : ℕ) (p : Published) (w : Dict String ℕ) : Prop where
  entries : p.entries.Perm (scratch hash w)
  sorted : p.entries.Pairwise fun a b => a.le b = true
  positions : p.positions = p.entries.map Entry.position
  nodes : p.nodes = w.keys
  positive : ∀ n c, w.get? n = some c → 0 < c
  capacity : p.entries.length ≤ maxVirtualNodes

theorem positive_set {n : String} {c : ℕ} (hw : ∀ n c, w.get? n = some c → 0 < c) (hcount : 0 < count)
    (h : (w.set node count).get? n = some c) : 0 < c := by
  obtain ⟨-, rfl⟩ | ⟨-, h⟩ := get?_set_cases h
  · exact hcount
  · exact hw n c h

namespace Built

theorem add (h : Built hash maxVirtualNodes p w) (hrun : publishAdd hash maxVirtualNodes p node value = .ok (p', out)) :
    Built hash maxVirtualNodes p' (w.set node value.toNat) := by
  obtain ⟨hvalue, hnode, hroom, rfl⟩ := publishAdd_cases hrun
  have hnone : w.get? node = none := Assoc.lookup_eq_none_iff.mpr fun hmem => hnode (by rw [h.nodes]; exact hmem)
  have hadded : ((p.entries ++ (virtualEntries hash node 0 value.toNat).mergeSort Entry.le).mergeSort Entry.le).Perm
      (p.entries ++ virtualEntries hash node 0 value.toNat) :=
    (List.mergeSort_perm _ _).trans ((List.mergeSort_perm _ _).append_left _)
  refine ⟨hadded.trans ?_, sorted_mergeSort _, rfl, ?_, fun n c hc => positive_set h.positive (by omega) hc, ?_⟩
  · refine List.Perm.trans (h.entries.append_right _) ?_
    rw [scratch, scratch, set_entries_of_none hnone, flatMap_append]
    simp
  · exact (congrArg (· ++ [node]) h.nodes).trans (keys_set_of_none hnone _).symm
  · have hlength := hadded.length_eq
    rw [length_append, length_virtualEntries] at hlength
    exact hlength.le.trans (by omega)

theorem remove (h : Built hash maxVirtualNodes p w) (hrun : publishRemove p node = .ok (p', out)) :
    Built hash maxVirtualNodes p' (w.erase node) := by
  obtain ⟨hnode, rfl⟩ := publishRemove_cases hrun
  obtain ⟨count, hcount⟩ := Dict.mem_keys.mp (h.nodes ▸ hnode)
  refine ⟨(h.entries.filter _).trans (scratch_erase hcount).symm, h.sorted.filter _, rfl,
    (congrArg _ h.nodes).trans (keys_erase w node).symm, fun n c hc => ?_, (length_filter_le _ _).trans h.capacity⟩
  rw [get?_erase] at hc
  split at hc
  · cases hc
  · exact h.positive n c hc

theorem set (h : Built hash maxVirtualNodes p w) (hrun : publishSet hash maxVirtualNodes p node value = .ok (p', out)) :
    Built hash maxVirtualNodes p' (w.set node value.toNat) := by
  obtain ⟨hvalue, hnode, hroom, hcases⟩ := publishSet_cases hrun
  obtain ⟨old, hold⟩ := Dict.mem_keys.mp (h.nodes ▸ hnode)
  have hcount : (p.entries.countP fun e => e.node = node) = old := by
    rw [countP_eq_length_filter, ((h.entries.filter _).trans (filter_node_scratch hold)).length_eq,
      length_virtualEntries, Nat.sub_zero]
  have hpositive : ∀ n c, (w.set node value.toNat).get? n = some c → 0 < c := fun n c hc =>
    positive_set h.positive (by omega) hc
  have hkeys : p.nodes = (w.set node value.toNat).keys := h.nodes.trans (set_keys_of_some hold _).symm
  have hle : old ≤ p.entries.length := hcount ▸ countP_le_length
  rw [hcount] at hcases hroom
  obtain ⟨heq, rfl⟩ | ⟨hlt, rfl⟩ | ⟨hgt, rfl⟩ := hcases
  · have hsame : (w.set node value.toNat).entries.Perm w.entries :=
      (set_entries_perm w node value.toNat).trans (heq ▸ (entries_perm hold).symm)
    exact ⟨h.entries.trans (scratch_perm hsame).symm, h.sorted, h.positions, hkeys, hpositive, h.capacity⟩
  · have hadded : ((p.entries ++ (virtualEntries hash node old value.toNat).mergeSort Entry.le).mergeSort Entry.le).Perm
        (p.entries ++ virtualEntries hash node old value.toNat) :=
      (List.mergeSort_perm _ _).trans ((List.mergeSort_perm _ _).append_left _)
    refine ⟨hadded.trans ((h.entries.append_right _).trans (scratch_raise hold hlt.le).symm), sorted_mergeSort _, rfl, hkeys,
      hpositive, ?_⟩
    have hlength := hadded.length_eq
    rw [length_append, length_virtualEntries] at hlength
    exact hlength.le.trans (by omega)
  · exact ⟨(h.entries.filter _).trans (scratch_lower hold hgt.le).symm, h.sorted.filter _, rfl, hkeys, hpositive,
      (length_filter_le _ _).trans h.capacity⟩

theorem perform (h : Built hash maxVirtualNodes p w) {c : Call} (hrun : perform hash maxVirtualNodes p c = .ok (p', out)) :
    Built hash maxVirtualNodes p' (c.weigh w) := by
  cases c with
  | addNode node numVirtualNodes => exact h.add hrun
  | removeNode node => exact h.remove hrun
  | setVirtualNodes node count => exact h.set hrun

end Built

/-! ### New rings -/

variable {names : List String}

theorem init_cases {s : RingState} (h : init hash maxVirtualNodes count names = .ok s) :
    names.Nodup ∧ names.length * count ≤ maxVirtualNodes ∧
      s = .build (names.flatMap fun node => virtualEntries hash node 0 count) names := by
  by_cases hroom : maxVirtualNodes < names.length * count
  · simp [init, ensureCapacity, hroom, bind, Except.bind] at h
  by_cases hnodup : names.Nodup
  · rw [init, ensureCapacity, if_neg hroom] at h
    obtain ⟨-, -, h⟩ := of_bind h
    obtain ⟨-, -, h⟩ := of_bind h
    simp [hnodup, pure, Except.pure] at h
    exact ⟨hnodup, not_lt.mp hroom, h.symm⟩
  · rw [init, ensureCapacity, if_neg hroom] at h
    obtain ⟨-, -, h⟩ := of_bind h
    obtain ⟨-, -, h⟩ := of_bind h
    simp [hnodup, bind, Except.bind, throw, throwThe, MonadExceptOf.throw] at h

theorem entries_newWeights (h : names.Nodup) :
    (newWeights count names).entries = names.map fun name => (name, count) := by
  induction names using List.reverseRecOn with
  | nil => rfl
  | append_singleton names name ih =>
    obtain ⟨hnames, -, hnew⟩ := nodup_append.mp h
    have hnone : (newWeights count names).get? name = none := by
      refine Assoc.lookup_eq_none_iff.mpr fun hmem => ?_
      rw [ih hnames, map_map] at hmem
      obtain ⟨other, hother, heq⟩ := mem_map.mp hmem
      exact hnew other hother name mem_cons_self heq
    rw [newWeights, foldl_append, foldl_cons, foldl_nil, ← newWeights, set_entries_of_none hnone, ih hnames, map_append]
    rfl

theorem built_new {s : RingState} (hcount : 0 < count) (h : init hash maxVirtualNodes count names = .ok s) :
    Built hash maxVirtualNodes (.fromOrdered s.entries s.nodes) (newWeights count names) := by
  obtain ⟨hnodup, hroom, rfl⟩ := init_cases h
  have hentries : (newWeights count names).entries = names.map fun name => (name, count) := entries_newWeights hnodup
  have hsorted : ((names.flatMap fun node => virtualEntries hash node 0 count).mergeSort Entry.le).Perm
      (names.flatMap fun node => virtualEntries hash node 0 count) := List.mergeSort_perm _ _
  refine ⟨hsorted.trans ?_, sorted_mergeSort _, rfl, ?_, fun n c hc => ?_, ?_⟩
  · rw [scratch, hentries, flatMap_map]
  · show names = _
    rw [Dict.keys, hentries, map_map]
    exact (map_id' names).symm
  · have hmem := mem_entries.mpr hc
    rw [hentries] at hmem
    obtain ⟨_, _, heq⟩ := mem_map.mp hmem
    exact (Prod.mk.inj heq).2 ▸ hcount
  · refine hsorted.length_eq.le.trans (le_of_eq_of_le ?_ hroom)
    simp [length_flatMap, length_virtualEntries]

theorem History.built (h : History hash maxVirtualNodes p w) : Built hash maxVirtualNodes p w := by
  induction h with
  | new hcount hinit => exact built_new hcount hinit
  | call _ hrun ih => exact ih.perform hrun

/-! ### From scratch -/

def shortHash (name : String) : ℤ := name.length

end SystemDesign.ConsistentHash
