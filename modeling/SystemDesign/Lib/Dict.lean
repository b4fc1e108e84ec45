import Mathlib

/-!
Python dictionaries: association lists with distinct keys, in insertion order.

`set` overwrites in place and appends a new key, `erase` drops a key, and
iteration follows the entry list. Two dictionaries are `Equiv` when they answer
every lookup alike; their entry lists are then permutations of each other, so
any order-insensitive reading (a sum over the values, a membership test) agrees
on them. The facts about raw association lists at the top are shared with
`SystemDesign.Lib.SortedMap`.
-/

namespace SystemDesign

open List hiding le_antisymm le_total le_trans

/-! ### Association lists with distinct keys -/

namespace Assoc

variable {κ ν : Type} [DecidableEq κ]

theorem lookup_cons (a : κ) (b : ν) (l : List (κ × ν)) (k : κ) :
    ((a, b) :: l).lookup k = if k = a then some b else l.lookup k := by
  rw [List.lookup_cons]
  by_cases h : k = a
  · simp [h]
  · have : (k == a) = false := by simpa using h
    simp [h, this]

variable {l : List (κ × ν)}

/-- With distinct keys a lookup finds exactly the listed pairs. -/
theorem lookup_eq_some_iff (hl : (l.map Prod.fst).Nodup) {k : κ} {v : ν} : l.lookup k = some v ↔ (k, v) ∈ l := by
  induction l with
  | nil => simp
  | cons e l ih =>
    obtain ⟨k', v'⟩ := e
    rw [map_cons, nodup_cons] at hl
    rw [lookup_cons]
    by_cases hk : k = k'
    · subst hk
      have hnot : (k, v) ∉ l := fun h => hl.1 (mem_map.mpr ⟨_, h, rfl⟩)
      simp [hnot, eq_comm]
    · simp [hk, ih hl.2]

theorem lookup_eq_none_iff {l : List (κ × ν)} {k : κ} : l.lookup k = none ↔ k ∉ l.map Prod.fst := by
  rw [List.lookup_eq_none_iff]
  constructor
  · intro h hk
    obtain ⟨p, hp, rfl⟩ := mem_map.mp hk
    simpa using h p hp
  · intro h p hp
    have : k ≠ p.1 := fun e => h (e ▸ mem_map_of_mem hp)
    simpa using this

theorem lookup_filter_ne (l : List (κ × ν)) (k k' : κ) :
    (l.filter fun e => e.1 ≠ k).lookup k' = if k' = k then none else l.lookup k' := by
  induction l with
  | nil => simp
  | cons e l ih =>
    obtain ⟨a, b⟩ := e
    by_cases ha : a = k
    · subst ha
      by_cases hk : k' = a
      · simpa [hk] using ih
      · simpa [lookup_cons, hk] using ih
    · rw [filter_cons_of_pos (by simpa using ha), lookup_cons, lookup_cons, ih]
      by_cases hk : k' = k
      · subst hk; simp [Ne.symm ha]
      · simp [hk]

/-- Splitting off the pair a lookup finds. -/
theorem perm_of_lookup (hl : (l.map Prod.fst).Nodup) {k : κ} {v : ν} (h : l.lookup k = some v) :
    l.Perm ((k, v) :: l.filter fun e => e.1 ≠ k) := by
  induction l with
  | nil => simp at h
  | cons e l ih =>
    obtain ⟨a, b⟩ := e
    rw [map_cons, nodup_cons] at hl
    rw [lookup_cons] at h
    by_cases hk : k = a
    · subst hk
      have hb : b = v := by simpa using h
      subst hb
      have hrest : (l.filter fun e => e.1 ≠ k) = l := by
        refine filter_eq_self.mpr fun e he => ?_
        have : e.1 ≠ k := fun h => hl.1 (mem_map.mpr ⟨e, he, h⟩)
        simpa using this
      rw [filter_cons_of_neg (by simp), hrest]
    · have ih' := ih hl.2 (by simpa [hk] using h)
      rw [filter_cons_of_pos (by simpa using Ne.symm hk)]
      exact (ih'.cons _).trans (List.Perm.swap _ _ _)

theorem filter_ne_of_lookup_none {k : κ} (h : l.lookup k = none) : (l.filter fun e => e.1 ≠ k) = l := by
  refine filter_eq_self.mpr fun e he => ?_
  have : e.1 ≠ k := fun hk => lookup_eq_none_iff.mp h (mem_map.mpr ⟨e, he, hk⟩)
  simpa using this

theorem filter_values (hl : (l.map Prod.fst).Nodup) {k : κ} {P : ν → Bool}
    (h : ∀ {k' v}, (k', v) ∈ l → (P v = true ↔ k' = k)) : (l.map Prod.snd).filter P = (l.lookup k).toList := by
  induction l with
  | nil => rfl
  | cons e l ih =>
    obtain ⟨a, b⟩ := e
    rw [map_cons, nodup_cons] at hl
    have ih' := ih hl.2 fun hmem => h (mem_cons_of_mem _ hmem)
    have hb := h mem_cons_self
    rw [map_cons, lookup_cons]
    by_cases ha : a = k
    · subst ha
      rw [filter_cons_of_pos (hb.mpr rfl), ih', lookup_eq_none_iff.mpr hl.1, if_pos rfl]
      rfl
    · rw [filter_cons_of_neg fun hP => ha (hb.mp hP), ih', if_neg (Ne.symm ha)]

variable {l' : List (κ × ν)}

theorem perm_of_lookup_eq (hl : (l.map Prod.fst).Nodup) (hl' : (l'.map Prod.fst).Nodup)
    (h : ∀ k, l.lookup k = l'.lookup k) : l.Perm l' := by
  refine (perm_ext_iff_of_nodup (Nodup.of_map _ hl) (Nodup.of_map _ hl')).mpr ?_
  rintro ⟨k, v⟩
  rw [← lookup_eq_some_iff hl, ← lookup_eq_some_iff hl', h]

theorem lookup_perm (hl : (l.map Prod.fst).Nodup) (h : l.Perm l') (k : κ) : l.lookup k = l'.lookup k := by
  have hl' : (l'.map Prod.fst).Nodup := (h.map Prod.fst).nodup_iff.mp hl
  refine Option.ext fun v => ?_
  rw [lookup_eq_some_iff hl, lookup_eq_some_iff hl', h.mem_iff]

/-- A list with distinct keys is determined by its keys in order and its lookups. -/
theorem eq_of_keys_of_lookup (hl : (l.map Prod.fst).Nodup) (hk : l.map Prod.fst = l'.map Prod.fst)
    (h : ∀ k, l.lookup k = l'.lookup k) : l = l' := by
  induction l generalizing l' with
  | nil =>
    rw [map_nil, eq_comm, map_eq_nil_iff] at hk
    exact hk.symm
  | cons e l ih =>
    cases l' with
    | nil => simp at hk
    | cons e' l' =>
      obtain ⟨k, v⟩ := e
      obtain ⟨k', v'⟩ := e'
      rw [map_cons, map_cons] at hk
      obtain ⟨hkk, hrest⟩ := List.cons.inj hk
      obtain rfl : k = k' := hkk
      rw [map_cons, nodup_cons] at hl
      have hv : v = v' := by simpa [lookup_cons] using h k
      subst hv
      rw [ih hl.2 hrest]
      intro a
      by_cases ha : a = k
      · subst ha
        rw [lookup_eq_none_iff.mpr hl.1, lookup_eq_none_iff.mpr (hrest ▸ hl.1)]
      · simpa [lookup_cons, ha] using h a

end Assoc

/-! ### Insertion-ordered dictionaries -/

/-- A Python `dict`: entries in insertion order, no key twice. -/
structure Dict (κ ν : Type) where
  entries : List (κ × ν)
  nodup : (entries.map Prod.fst).Nodup

namespace Dict

variable {κ ν : Type}

instance [DecidableEq κ] [DecidableEq ν] : DecidableEq (Dict κ ν) := fun d d' =>
  decidable_of_iff (d.entries = d'.entries) (by cases d; cases d'; simp)

def empty : Dict κ ν := ⟨[], nodup_nil⟩

instance : Inhabited (Dict κ ν) := ⟨empty⟩

def keys (d : Dict κ ν) : List κ := d.entries.map Prod.fst

def values (d : Dict κ ν) : List ν := d.entries.map Prod.snd

/-- Sum of a reading over the values. -/
def sum (d : Dict κ ν) (f : ν → ℤ) : ℤ := (d.values.map f).sum

variable {d : Dict κ ν}

theorem sum_congr {f g : ν → ℤ} (h : ∀ v ∈ d.values, f v = g v) : d.sum f = d.sum g := by
  unfold sum
  rw [map_congr_left h]

theorem sum_nonneg {f : ν → ℤ} (h : ∀ v ∈ d.values, 0 ≤ f v) : 0 ≤ d.sum f := by
  refine List.sum_nonneg fun x hx => ?_
  obtain ⟨v, hv, rfl⟩ := mem_map.mp hx
  exact h v hv

theorem sum_zero (d : Dict κ ν) : (d.sum fun _ => 0) = 0 := by
  simp [sum]

/-- Apply a function to every value. -/
def mapVal {μ : Type} (f : ν → μ) (d : Dict κ ν) : Dict κ μ :=
  ⟨d.entries.map fun e => (e.1, f e.2), by
    rw [map_map]
    exact d.nodup⟩

variable {μ : Type}

theorem mapVal_keys (f : ν → μ) (d : Dict κ ν) : (d.mapVal f).keys = d.keys := by
  simp [mapVal, keys, Function.comp_def]

variable [DecidableEq κ]

/-- `d.get(k)`. -/
def get? (d : Dict κ ν) (k : κ) : Option ν := d.entries.lookup k

/-- `k in d`. -/
def contains (d : Dict κ ν) (k : κ) : Bool := (d.get? k).isSome

/-- Overwrite the value of a listed key. -/
def overwrite (k : κ) (v : ν) : List (κ × ν) → List (κ × ν)
  | [] => []
  | (k', v') :: rest => if k' = k then (k, v) :: rest else (k', v') :: overwrite k v rest

theorem overwrite_keys (k : κ) (v : ν) (l : List (κ × ν)) : (overwrite k v l).map Prod.fst = l.map Prod.fst := by
  induction l with
  | nil => rfl
  | cons e l ih =>
    obtain ⟨k', v'⟩ := e
    simp only [overwrite]
    split
    · rename_i h; simp [h]
    · simp [ih]

variable {k : κ} {v : ν}

theorem overwrite_lookup {l : List (κ × ν)} (h : k ∈ l.map Prod.fst) (k' : κ) :
    (overwrite k v l).lookup k' = if k' = k then some v else l.lookup k' := by
  induction l with
  | nil => simp at h
  | cons e l ih =>
    obtain ⟨a, b⟩ := e
    simp only [overwrite]
    split
    · rename_i ha
      subst ha
      by_cases hk : k' = a <;> simp [Assoc.lookup_cons, hk]
    · rename_i ha
      have hmem : k ∈ l.map Prod.fst := by
        simpa [Ne.symm ha] using h
      rw [Assoc.lookup_cons, Assoc.lookup_cons, ih hmem]
      by_cases hk : k' = k
      · subst hk; simp [Ne.symm ha]
      · simp [hk]

/-- `d[k] = v`: in place for a present key, appended for a new one. -/
def set (d : Dict κ ν) (k : κ) (v : ν) : Dict κ ν :=
  if h : k ∈ d.entries.map Prod.fst then
    ⟨overwrite k v d.entries, by rw [overwrite_keys]; exact d.nodup⟩
  else
    ⟨d.entries ++ [(k, v)], by
      rw [map_append, nodup_append]
      refine ⟨d.nodup, by simp, ?_⟩
      intro a ha b hb hab
      simp only [map_cons, map_nil, mem_singleton] at hb
      exact h (hb ▸ hab ▸ ha)⟩

/-- `del d[k]`, or nothing when the key is absent. -/
def erase (d : Dict κ ν) (k : κ) : Dict κ ν :=
  ⟨d.entries.filter fun e => e.1 ≠ k, d.nodup.sublist (filter_sublist.map _)⟩

/-! ### Lookups -/

@[simp] theorem get?_empty (k : κ) : (empty : Dict κ ν).get? k = none := rfl

theorem get?_set (d : Dict κ ν) (k : κ) (v : ν) (k' : κ) :
    (d.set k v).get? k' = if k' = k then some v else d.get? k' := by
  unfold set get?
  split
  · rename_i h
    exact overwrite_lookup h k'
  · rename_i h
    rw [List.lookup_append]
    by_cases hk : k' = k
    · subst hk
      simp [Assoc.lookup_eq_none_iff.mpr h]
    · simp [hk, Assoc.lookup_cons]

@[simp] theorem get?_set_self (d : Dict κ ν) (k : κ) (v : ν) : (d.set k v).get? k = some v := by
  simp [get?_set]

theorem get?_set_of_ne (d : Dict κ ν) {k' : κ} (h : k' ≠ k) (v : ν) : (d.set k v).get? k' = d.get? k' := by
  simp [get?_set, h]

variable {w : ν}

/-- What a key holds after a write is what was written, or what another key held. -/
theorem get?_set_cases {k' : κ} (h : (d.set k v).get? k' = some w) :
    (k' = k ∧ w = v) ∨ (k' ≠ k ∧ d.get? k' = some w) := by
  rw [get?_set] at h
  split at h
  · rename_i heq
    exact .inl ⟨heq, (Option.some.inj h).symm⟩
  · rename_i hne
    exact .inr ⟨hne, h⟩

theorem exists_get?_set {k' : κ} (h : ∃ w, d.get? k' = some w) : ∃ w, (d.set k v).get? k' = some w := by
  rw [get?_set]
  split
  · exact ⟨v, rfl⟩
  · exact h

theorem get?_erase (d : Dict κ ν) (k k' : κ) : (d.erase k).get? k' = if k' = k then none else d.get? k' :=
  Assoc.lookup_filter_ne d.entries k k'

theorem get?_mapVal (f : ν → μ) (d : Dict κ ν) (k : κ) : (d.mapVal f).get? k = (d.get? k).map f := by
  unfold mapVal get?
  simp only
  induction d.entries with
  | nil => rfl
  | cons e l ih =>
    rw [map_cons, Assoc.lookup_cons, Assoc.lookup_cons, ih]
    split <;> rfl

variable {d' : Dict κ ν}

theorem ext_keys (hk : d.keys = d'.keys) (h : ∀ k, d.get? k = d'.get? k) : d = d' := by
  have := Assoc.eq_of_keys_of_lookup d.nodup hk h
  cases d; cases d'; simpa using this

theorem set_keys_of_some (h : d.get? k = some w) (v : ν) : (d.set k v).keys = d.keys := by
  have hmem : k ∈ d.entries.map Prod.fst := by
    by_contra hn
    rw [get?, Assoc.lookup_eq_none_iff.mpr hn] at h
    cases h
  simp only [set, dif_pos hmem, keys, overwrite_keys]

theorem mem_entries : (k, v) ∈ d.entries ↔ d.get? k = some v := (Assoc.lookup_eq_some_iff d.nodup).symm

theorem mem_keys : k ∈ d.keys ↔ ∃ v, d.get? k = some v := by
  unfold keys get?
  rw [← not_iff_not, ← Assoc.lookup_eq_none_iff, ← Option.ne_none_iff_exists', not_not]

theorem mem_values : v ∈ d.values ↔ ∃ k, d.get? k = some v := by
  simp only [values, mem_map, Prod.exists]
  constructor
  · rintro ⟨k, v', hmem, rfl⟩; exact ⟨k, mem_entries.mp hmem⟩
  · rintro ⟨k, h⟩; exact ⟨k, v, mem_entries.mpr h, rfl⟩

theorem filter_values {k : κ} {P : ν → Bool} (h : ∀ {k' v}, d.get? k' = some v → (P v = true ↔ k' = k)) :
    d.values.filter P = (d.get? k).toList :=
  Assoc.filter_values d.nodup fun hmem => h (mem_entries.mp hmem)

theorem contains_iff : d.contains k = true ↔ ∃ v, d.get? k = some v := by
  simp [contains, Option.isSome_iff_exists]

theorem contains_eq_false_iff : d.contains k = false ↔ d.get? k = none := by
  simp [contains]

/-! ### Entries as a multiset -/

theorem entries_perm (h : d.get? k = some v) : d.entries.Perm ((k, v) :: (d.erase k).entries) :=
  Assoc.perm_of_lookup d.nodup h

theorem erase_entries_of_none (h : d.get? k = none) : (d.erase k).entries = d.entries :=
  Assoc.filter_ne_of_lookup_none h

theorem set_entries_perm (d : Dict κ ν) (k : κ) (v : ν) : (d.set k v).entries.Perm ((k, v) :: (d.erase k).entries) := by
  refine (entries_perm (get?_set_self d k v)).trans (List.Perm.cons _ ?_)
  refine Assoc.perm_of_lookup_eq ((d.set k v).erase k).nodup (d.erase k).nodup fun k' => ?_
  show ((d.set k v).erase k).get? k' = (d.erase k).get? k'
  rw [get?_erase, get?_erase]
  by_cases hk : k' = k
  · simp [hk]
  · simp [hk, get?_set]

theorem length_set_of_none (h : d.get? k = none) (v : ν) : (d.set k v).entries.length = d.entries.length + 1 := by
  rw [(set_entries_perm d k v).length_eq, length_cons, erase_entries_of_none h]

theorem length_set_of_some (h : d.get? k = some w) (v : ν) : (d.set k v).entries.length = d.entries.length := by
  rw [(set_entries_perm d k v).length_eq, (entries_perm h).length_eq, length_cons, length_cons]

theorem sum_eq_of_get? (h : d.get? k = some v) (f : ν → ℤ) : d.sum f = f v + (d.erase k).sum f := by
  unfold sum values
  rw [(((entries_perm h).map Prod.snd).map f).sum_eq]
  simp

theorem sum_set (d : Dict κ ν) (k : κ) (v : ν) (f : ν → ℤ) : (d.set k v).sum f = f v + (d.erase k).sum f := by
  unfold sum values
  rw [(((set_entries_perm d k v).map Prod.snd).map f).sum_eq]
  simp

theorem sum_set_of_none (h : d.get? k = none) (v : ν) (f : ν → ℤ) : (d.set k v).sum f = d.sum f + f v := by
  have : (d.erase k).sum f = d.sum f := by unfold sum values; rw [erase_entries_of_none h]
  rw [sum_set, this, add_comm]

theorem sum_set_of_some (h : d.get? k = some w) (v : ν) (f : ν → ℤ) :
    (d.set k v).sum f = d.sum f + (f v - f w) := by
  rw [sum_set, sum_eq_of_get? h]; ring

/-! ### Entries written over -/

/-- The entries of a dictionary written into another, each as `f` says. -/
theorem get?_foldl_set (l : List (κ × μ)) (hl : (l.map Prod.fst).Nodup) (f : κ → μ → ν) (d : Dict κ ν) (k : κ) :
    (l.foldl (fun d e => d.set e.1 (f e.1 e.2)) d).get? k =
      (l.lookup k).elim (d.get? k) fun v => some (f k v) := by
  induction l generalizing d with
  | nil => rfl
  | cons e l ih =>
    obtain ⟨key, v⟩ := e
    rw [map_cons, nodup_cons] at hl
    rw [foldl_cons, ih hl.2, Assoc.lookup_cons]
    by_cases hk : k = key
    · subst hk
      rw [Assoc.lookup_eq_none_iff.mpr hl.1]
      simp
    · rw [if_neg hk, get?_set_of_ne _ hk]

/-! ### Equality up to order -/

/-- Same answers to every lookup. -/
def Equiv (d d' : Dict κ ν) : Prop := ∀ k, d.get? k = d'.get? k

theorem Equiv.symm (h : d.Equiv d') : d'.Equiv d := fun k => (h k).symm

theorem Equiv.trans {d'' : Dict κ ν} (h : d.Equiv d') (h' : d'.Equiv d'') : d.Equiv d'' :=
  fun k => (h k).trans (h' k)

theorem Equiv.entries_perm (h : d.Equiv d') : d.entries.Perm d'.entries :=
  Assoc.perm_of_lookup_eq d.nodup d'.nodup h

/-! ### Sorted by key -/

/-- The dictionary a reader builds from entries written in key order. -/
def sorted {κ ν : Type} [LinearOrder κ] (d : Dict κ ν) : Dict κ ν :=
  ⟨d.entries.insertionSort fun a b => a.1 ≤ b.1, ((perm_insertionSort _ _).map Prod.fst).nodup_iff.mpr d.nodup⟩

theorem sorted_equiv {κ ν : Type} [LinearOrder κ] (d : Dict κ ν) : d.sorted.Equiv d := fun k =>
  Assoc.lookup_perm d.sorted.nodup (perm_insertionSort _ _) k

theorem Equiv.sorted_eq {κ ν : Type} [LinearOrder κ] {d d' : Dict κ ν} (h : d.Equiv d') : d.sorted = d'.sorted := by
  have hperm : d.sorted.entries.Perm d'.sorted.entries :=
    (d.sorted_equiv.trans (h.trans d'.sorted_equiv.symm)).entries_perm
  have htrans : IsTrans (κ × ν) fun a b => a.1 ≤ b.1 := ⟨fun _ _ _ h h' => le_trans h h'⟩
  have htotal : Std.Total fun a b : κ × ν => a.1 ≤ b.1 := ⟨fun a b => le_total a.1 b.1⟩
  have hd := pairwise_insertionSort (fun a b : κ × ν => a.1 ≤ b.1) d.entries
  have hd' := pairwise_insertionSort (fun a b : κ × ν => a.1 ≤ b.1) d'.entries
  have heq : d.sorted.entries = d'.sorted.entries := by
    refine hperm.eq_of_pairwise ?_ hd hd'
    intro a b ha hb hab hba
    -- equal keys carry equal values
    have hk : a.1 = b.1 := le_antisymm hab hba
    have h1 : d.sorted.get? a.1 = some a.2 := mem_entries.mp ha
    have h2 : d.sorted.get? b.1 = some b.2 := mem_entries.mp (hperm.mem_iff.mpr hb)
    rw [← hk, h1] at h2
    exact Prod.ext hk (Option.some.inj h2)
  cases hx : d.sorted; cases hy : d'.sorted
  simpa [hx, hy] using heq

end Dict

end SystemDesign
