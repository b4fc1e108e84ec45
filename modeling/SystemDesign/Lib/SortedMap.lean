import SystemDesign.Lib.Dict

/-!
Finite maps kept as key-sorted association lists.

Used for dictionaries whose iteration order a program never observes: the
representation is canonical, so two maps with the same lookups are equal
(`SortedMap.ext_get?`), and its entry list is the one a serializer that sorts
keys writes out.
-/

namespace SystemDesign

open List hiding not_lt

/-- A finite map as an association list with strictly increasing keys. -/
structure SortedMap (κ ν : Type) [LinearOrder κ] where
  entries : List (κ × ν)
  sorted : (entries.map Prod.fst).Pairwise (· < ·)

namespace SortedMap

variable {κ ν μ : Type} [LinearOrder κ]

instance [DecidableEq ν] : DecidableEq (SortedMap κ ν) := fun m m' =>
  decidable_of_iff (m.entries = m'.entries) (by cases m; cases m'; simp)

theorem nodup (m : SortedMap κ ν) : (m.entries.map Prod.fst).Nodup := m.sorted.imp fun h => ne_of_lt h

def empty : SortedMap κ ν := ⟨[], List.Pairwise.nil⟩

instance : Inhabited (SortedMap κ ν) := ⟨empty⟩

def keys (m : SortedMap κ ν) : List κ := m.entries.map Prod.fst

theorem keys_nodup (m : SortedMap κ ν) : m.keys.Nodup := m.nodup

def values (m : SortedMap κ ν) : List ν := m.entries.map Prod.snd

def get? (m : SortedMap κ ν) (k : κ) : Option ν := m.entries.lookup k

def contains (m : SortedMap κ ν) (k : κ) : Bool := (m.get? k).isSome

/-- Insertion into a sorted entry list, replacing an equal key. -/
def insertEntry (k : κ) (v : ν) : List (κ × ν) → List (κ × ν)
  | [] => [(k, v)]
  | (k', v') :: rest =>
      if k < k' then (k, v) :: (k', v') :: rest
      else if k = k' then (k, v) :: rest
      else (k', v') :: insertEntry k v rest

variable {l : List (κ × ν)} {k : κ} {v : ν}

theorem mem_insertEntry_keys {a : κ} (h : a ∈ (insertEntry k v l).map Prod.fst) : a = k ∨ a ∈ l.map Prod.fst := by
  induction l with
  | nil => simpa [insertEntry] using h
  | cons e l ih =>
    obtain ⟨k', v'⟩ := e
    simp only [insertEntry] at h
    split_ifs at h with h1 h2
    · simpa using h
    · rcases mem_cons.mp h with h | h
      · exact .inl h
      · exact .inr (mem_cons_of_mem _ h)
    · rcases mem_cons.mp h with h | h
      · exact .inr (h ▸ mem_cons_self)
      · exact (ih h).imp id (mem_cons_of_mem _)

theorem insertEntry_sorted (k : κ) (v : ν) (hl : (l.map Prod.fst).Pairwise (· < ·)) :
    ((insertEntry k v l).map Prod.fst).Pairwise (· < ·) := by
  induction l with
  | nil => simp [insertEntry]
  | cons e l ih =>
    obtain ⟨k', v'⟩ := e
    rw [map_cons, pairwise_cons] at hl
    simp only [insertEntry]
    split_ifs with h1 h2
    · refine List.Pairwise.cons ?_ (List.Pairwise.cons hl.1 hl.2)
      intro a ha
      rcases mem_cons.mp ha with rfl | ha
      · exact h1
      · exact h1.trans (hl.1 a ha)
    · subst h2
      exact List.Pairwise.cons hl.1 hl.2
    · refine List.Pairwise.cons ?_ (ih hl.2)
      intro a ha
      rcases mem_insertEntry_keys ha with rfl | ha
      · exact lt_of_le_of_ne (not_lt.mp h1) (Ne.symm h2)
      · exact hl.1 a ha

theorem insertEntry_lookup (k : κ) (v : ν) (hl : (l.map Prod.fst).Pairwise (· < ·)) (k' : κ) :
    (insertEntry k v l).lookup k' = if k' = k then some v else l.lookup k' := by
  induction l with
  | nil => simp [insertEntry, Assoc.lookup_cons]
  | cons e l ih =>
    obtain ⟨a, b⟩ := e
    rw [map_cons, pairwise_cons] at hl
    simp only [insertEntry]
    split_ifs with h1 h2 h3 h4 h5
    · simp [h2]
    · simp [Assoc.lookup_cons, h2]
    · simp [h4]
    · rw [Assoc.lookup_cons, Assoc.lookup_cons, if_neg h4, if_neg (h3 ▸ h4)]
    · rw [Assoc.lookup_cons, ih hl.2, h5, if_neg h3, if_pos rfl]
    · rw [Assoc.lookup_cons, Assoc.lookup_cons, ih hl.2, if_neg h5]

def insert (m : SortedMap κ ν) (k : κ) (v : ν) : SortedMap κ ν :=
  ⟨insertEntry k v m.entries, insertEntry_sorted k v m.sorted⟩

variable {m : SortedMap κ ν}

/-- A key beyond all others goes to the end. -/
theorem insert_entries_of_gt (h : ∀ k' ∈ m.keys, k' < k) (v : ν) : (m.insert k v).entries = m.entries ++ [(k, v)] := by
  have hlist : ∀ l : List (κ × ν), (∀ k' ∈ l.map Prod.fst, k' < k) → insertEntry k v l = l ++ [(k, v)] := by
    intro l hl
    induction l with
    | nil => rfl
    | cons e l ih =>
      have he : e.1 < k := hl e.1 (by simp)
      rw [insertEntry, if_neg he.not_gt, if_neg he.ne', ih fun k' hk' => hl k' (by simp [hk'])]
      rfl
  exact hlist m.entries h

def erase (m : SortedMap κ ν) (k : κ) : SortedMap κ ν :=
  ⟨m.entries.filter fun e => e.1 ≠ k, m.sorted.sublist (filter_sublist.map _)⟩

/-- The map of a list of pairs; a later pair overwrites an earlier one. -/
def ofList (l : List (κ × ν)) : SortedMap κ ν := l.foldl (fun m e => m.insert e.1 e.2) empty

/-- Apply a function to every value. -/
def mapVal (f : ν → μ) (m : SortedMap κ ν) : SortedMap κ μ :=
  ⟨m.entries.map fun e => (e.1, f e.2), by
    rw [map_map]
    exact m.sorted⟩

/-! ### Lookups -/

@[simp] theorem get?_empty (k : κ) : (empty : SortedMap κ ν).get? k = none := rfl

theorem get?_insert (m : SortedMap κ ν) (k : κ) (v : ν) (k' : κ) :
    (m.insert k v).get? k' = if k' = k then some v else m.get? k' :=
  insertEntry_lookup k v m.sorted k'

@[simp] theorem get?_insert_self (m : SortedMap κ ν) (k : κ) (v : ν) : (m.insert k v).get? k = some v := by
  simp [get?_insert]

theorem get?_insert_of_ne (m : SortedMap κ ν) {k' : κ} (h : k' ≠ k) (v : ν) : (m.insert k v).get? k' = m.get? k' := by
  simp [get?_insert, h]

theorem get?_erase (m : SortedMap κ ν) (k k' : κ) : (m.erase k).get? k' = if k' = k then none else m.get? k' :=
  Assoc.lookup_filter_ne m.entries k k'

theorem get?_mapVal (f : ν → μ) (m : SortedMap κ ν) (k : κ) : (m.mapVal f).get? k = (m.get? k).map f := by
  unfold mapVal get?
  simp only
  induction m.entries with
  | nil => rfl
  | cons e l ih =>
    rw [map_cons, Assoc.lookup_cons, Assoc.lookup_cons, ih]
    split <;> rfl

theorem mem_entries : (k, v) ∈ m.entries ↔ m.get? k = some v := (Assoc.lookup_eq_some_iff m.nodup).symm

theorem mem_keys : k ∈ m.keys ↔ ∃ v, m.get? k = some v := by
  unfold keys get?
  rw [← not_iff_not, ← Assoc.lookup_eq_none_iff, ← Option.ne_none_iff_exists', not_not]

theorem mem_values : v ∈ m.values ↔ ∃ k, m.get? k = some v := by
  simp only [values, mem_map, Prod.exists]
  constructor
  · rintro ⟨k, v', hmem, rfl⟩; exact ⟨k, mem_entries.mp hmem⟩
  · rintro ⟨k, h⟩; exact ⟨k, v, mem_entries.mpr h, rfl⟩

theorem contains_iff : m.contains k = true ↔ ∃ v, m.get? k = some v := by
  simp [contains, Option.isSome_iff_exists]

theorem get?_foldl_insert (l : List (κ × ν)) (hl : (l.map Prod.fst).Nodup) (m : SortedMap κ ν)
    (k : κ) : (l.foldl (fun m e => m.insert e.1 e.2) m).get? k = (l.lookup k).or (m.get? k) := by
  induction l generalizing m with
  | nil => simp
  | cons e l ih =>
    obtain ⟨a, b⟩ := e
    rw [map_cons, nodup_cons] at hl
    rw [foldl_cons, ih hl.2, get?_insert, Assoc.lookup_cons]
    by_cases hk : k = a
    · subst hk
      simp [Assoc.lookup_eq_none_iff.mpr hl.1]
    · simp [hk]

theorem get?_ofList (hl : (l.map Prod.fst).Nodup) (k : κ) : (ofList l).get? k = l.lookup k := by
  simp [ofList, get?_foldl_insert l hl]

/-- What a map of pairs finds is one of the pairs. -/
theorem mem_of_get?_foldl (l : List (κ × ν)) (m : SortedMap κ ν)
    (h : (l.foldl (fun m e => m.insert e.1 e.2) m).get? k = some v) : (k, v) ∈ l ∨ m.get? k = some v := by
  induction l generalizing m with
  | nil => exact .inr h
  | cons e l ih =>
    rcases ih _ h with h | h
    · exact .inl (mem_cons_of_mem _ h)
    · rw [get?_insert] at h
      split_ifs at h with hk
      · obtain rfl := Option.some.inj h
        exact .inl (hk ▸ mem_cons_self)
      · exact .inr h

theorem mem_of_get?_ofList (h : (ofList l).get? k = some v) : (k, v) ∈ l :=
  (mem_of_get?_foldl l empty h).resolve_right (by simp)

theorem ofList_entries_perm (hl : (l.map Prod.fst).Nodup) : (ofList l).entries.Perm l :=
  Assoc.perm_of_lookup_eq (ofList l).nodup hl (get?_ofList hl)

/-! ### Extensionality -/

/-- The representation is canonical: equal lookups give equal maps. -/
theorem ext_get? {m' : SortedMap κ ν} (h : ∀ k, m.get? k = m'.get? k) : m = m' := by
  have hperm : m.entries.Perm m'.entries := Assoc.perm_of_lookup_eq m.nodup m'.nodup h
  have heq : m.entries = m'.entries := by
    refine hperm.eq_of_pairwise ?_ (pairwise_map.mp m.sorted) (pairwise_map.mp m'.sorted)
    intro a b _ _ hab hba
    exact absurd hab (not_lt.mpr hba.le)
  cases m; cases m'; simpa using heq

theorem ofList_entries (m : SortedMap κ ν) : ofList m.entries = m := ext_get? fun k => get?_ofList m.nodup k

/-! ### Entries as a multiset -/

theorem erase_of_none (h : m.get? k = none) : m.erase k = m :=
  ext_get? fun k' => by
    rw [get?_erase]
    split
    · rename_i hk; rw [hk, h]
    · rfl

/-- Sum of a reading over the values. -/
def sum (m : SortedMap κ ν) (f : ν → ℤ) : ℤ := (m.values.map f).sum

/-- Maps with the same keys list them alike. -/
theorem keys_eq_of_get? {m' : SortedMap κ μ} (h : ∀ k, (∃ v, m.get? k = some v) ↔ ∃ v, m'.get? k = some v) :
    m.keys = m'.keys := by
  have hperm : m.keys.Perm m'.keys :=
    (perm_ext_iff_of_nodup m.nodup m'.nodup).mpr fun k => by
      show k ∈ m.keys ↔ k ∈ m'.keys
      rw [mem_keys, mem_keys, h]
  refine hperm.eq_of_pairwise ?_ m.sorted m'.sorted
  intro a b _ _ hab hba
  exact absurd hab (not_lt.mpr hba.le)

/-- A sum over the values is a sum over the keys. -/
theorem sum_eq_keys (m : SortedMap κ ν) (f : ν → ℤ) :
    m.sum f = (m.keys.map fun k => ((m.get? k).map f).getD 0).sum := by
  unfold sum values keys
  rw [map_map, map_map]
  refine congrArg List.sum (map_congr_left fun e he => ?_)
  have : m.get? e.1 = some e.2 := mem_entries.mp he
  simp [this]

end SortedMap

end SystemDesign
