import SystemDesign.KvStorage.Tables
import SystemDesign.Lib.Heapq

/-!
Merging tables (`_k_way_merge`).

The heap holds the next entry of every table, by key, then by time from the newest on, then by the number of the
table. What comes out first of a key is thus its newest entry, and of several of one time that of the first table.
-/

namespace SystemDesign.KvStorage

open List hiding le_antisymm le_refl
open Heapq

variable {τ : Type} [LinearOrder τ]

/-- An item of the heap: key, negated timestamp and number of the table. -/
abbrev Item (τ : Type) := String ×ₗ τᵒᵈ ×ₗ ℕ

def item (entry : Entry τ) (idx : ℕ) : Item τ := toLex (entry.key, toLex (OrderDual.toDual entry.timestamp, idx))

/-- The number of the table an item is from. -/
def itemIdx (x : Item τ) : ℕ := (ofLex (ofLex x).2).2

/-- `heappush` of the next entry of an iterator, if there is one. -/
def pushNext (heap : List (Item τ)) (idx : ℕ) (it : List (Entry τ)) : List (Item τ) :=
  match it with
  | [] => heap
  | entry :: _ => heappush heap (item entry idx)

/-- The heap with the first entry of every iterator. -/
def pushAll (its : List (List (Entry τ))) : List (Item τ) :=
  its.zipIdx.foldl (fun heap it => pushNext heap it.2 it.1) []

/-- `while heap`: the entry of the popped item is the next one of its table. -/
def mergeLoop (expired : Entry τ → Bool) : ℕ → List (Item τ) → List (List (Entry τ)) → Option String → List (Entry τ)
  | 0, _, _, _ => []
  | fuel + 1, heap, its, lastKey =>
    match heappop heap with
    | none => []
    | some (x, heap) =>
      match its[itemIdx x]? with
      | some (entry :: rest) =>
        let its := its.set (itemIdx x) rest
        let heap := pushNext heap (itemIdx x) rest
        if lastKey = some entry.key then mergeLoop expired fuel heap its lastKey
        else if expired entry then mergeLoop expired fuel heap its (some entry.key)
        else entry :: mergeLoop expired fuel heap its (some entry.key)
      | _ => []

/-- `_k_way_merge`. -/
def kWayMerge (expired : Entry τ → Bool) (sstables : List (SSTable τ)) : List (Entry τ) :=
  let its := sstables.map SSTable.entries
  mergeLoop expired its.flatten.length (pushAll its) its none

/-! ### The heap -/

/-- The items of the next entries. -/
def heads (its : List (List (Entry τ) × ℕ)) : List (Item τ) :=
  its.filterMap fun it => it.1.head?.map fun entry => item entry it.2

variable {i : ℕ}

theorem item_le {a b : Entry τ} {j : ℕ} : item a i ≤ item b j ↔
    a.key < b.key ∨ a.key = b.key ∧ (b.timestamp < a.timestamp ∨ a.timestamp = b.timestamp ∧ i ≤ j) := by
  simp [item, Prod.Lex.toLex_le_toLex]

theorem pushNext_spec {heap : List (Item τ)} (h : IsHeap heap) (idx : ℕ) (it : List (Entry τ)) :
    IsHeap (pushNext heap idx it) ∧ (pushNext heap idx it).Perm (heads [(it, idx)] ++ heap) := by
  cases it with
  | nil => exact ⟨h, .refl _⟩
  | cons entry rest => exact heappush_spec h (item entry idx)

theorem pushAll_spec (its : List (List (Entry τ))) : IsHeap (pushAll its) ∧ (pushAll its).Perm (heads its.zipIdx) := by
  have hfold : ∀ (numbered : List (List (Entry τ) × ℕ)) heap, IsHeap heap →
      IsHeap (numbered.foldl (fun heap it => pushNext heap it.2 it.1) heap) ∧
        (numbered.foldl (fun heap it => pushNext heap it.2 it.1) heap).Perm (heads numbered ++ heap) := by
    intro numbered
    induction numbered with
    | nil => exact fun heap h => ⟨h, .refl _⟩
    | cons it numbered ih =>
      intro heap h
      obtain ⟨hheap, hperm⟩ := pushNext_spec h it.2 it.1
      obtain ⟨hheap', hperm'⟩ := ih _ hheap
      refine ⟨hheap', hperm'.trans ?_⟩
      have hcons : heads (it :: numbered) = heads [it] ++ heads numbered := filterMap_append (l := [it])
      rw [hcons, append_assoc]
      refine (hperm.append_left _).trans ?_
      rw [← append_assoc, ← append_assoc]
      exact perm_append_comm.append_right _
  obtain ⟨hheap, hperm⟩ := hfold its.zipIdx [] isHeap_nil
  rw [append_nil] at hperm
  exact ⟨hheap, hperm⟩

section
omit [LinearOrder τ]

theorem mem_heads {its : List (List (Entry τ))} {x : Item τ} :
    x ∈ heads its.zipIdx ↔ ∃ i entry rest, its[i]? = some (entry :: rest) ∧ x = item entry i := by
  simp only [heads, mem_filterMap, Prod.exists, mem_zipIdx_iff_getElem?]
  constructor
  · rintro ⟨it, i, hi, hx⟩
    cases it with
    | nil => cases hx
    | cons entry rest => exact ⟨i, entry, rest, hi, (Option.some.inj hx).symm⟩
  · rintro ⟨i, entry, rest, hi, rfl⟩
    exact ⟨entry :: rest, i, hi, rfl⟩

theorem heads_append (its its' : List (List (Entry τ) × ℕ)) : heads (its ++ its') = heads its ++ heads its' :=
  filterMap_append

theorem heads_split (before : List (List (Entry τ))) (it : List (Entry τ)) (after : List (List (Entry τ))) :
    heads (before ++ it :: after).zipIdx =
      heads before.zipIdx ++ (heads [(it, before.length)] ++ heads (after.zipIdx (before.length + 1))) := by
  rw [← heads_append, ← heads_append, zipIdx_append, zipIdx_cons, Nat.zero_add, singleton_append]

end

/-- The state of the loop: what is in the heap, and that the tables are sorted and not before the last key. -/
structure Merging (heap : List (Item τ)) (its : List (List (Entry τ))) (lastKey : Option String) : Prop where
  isHeap : IsHeap heap
  next : heap.Perm (heads its.zipIdx)
  sorted : ∀ it ∈ its, Sorted it
  behind : ∀ key, lastKey = some key → ∀ it ∈ its, ∀ entry ∈ it, key ≤ entry.key

/-- The next entry of the merge: no key is before it, and it is the newest of its key. -/
structure Next (its : List (List (Entry τ))) (i : ℕ) (entry : Entry τ) (rest : List (Entry τ)) : Prop where
  here : its[i]? = some (entry :: rest)
  least : ∀ it ∈ its, ∀ other ∈ it, entry.key ≤ other.key
  newest : newestOf Entry.timestamp (its.map (lookup entry.key)) = some entry

variable {heap : List (Item τ)} {its : List (List (Entry τ))} {lastKey : Option String} {expired : Entry τ → Bool}
variable {entry : Entry τ} {rest : List (Entry τ)}

theorem Next.split (h : Next its i entry rest) :
    ∃ before after, its = before ++ (entry :: rest) :: after ∧ before.length = i ∧
      its.set i rest = before ++ rest :: after := by
  obtain ⟨hlt, hget⟩ := List.getElem?_eq_some_iff.mp h.here
  rw [← hget]
  exact exists_of_set hlt

omit [LinearOrder τ] in
theorem Sorted.head_le {other : Entry τ} (h : Sorted (entry :: rest)) (hmem : other ∈ entry :: rest) :
    entry.key ≤ other.key := by
  obtain rfl | hmem := mem_cons.mp hmem
  · exact le_refl _
  · exact (rel_of_pairwise_cons h hmem).le

theorem Merging.exists_next (h : Merging heap its lastKey) {x : Item τ} {items : List (Item τ)}
    (hheap : heap = x :: items) : ∃ i entry rest, x = item entry i ∧ Next its i entry rest := by
  obtain ⟨i, entry, rest, hi, rfl⟩ := mem_heads.mp (h.next.mem_iff.mp (hheap ▸ mem_cons_self))
  have hfirst : ∀ (j : ℕ) (other : Entry τ) more, its[j]? = some (other :: more) → item entry i ≤ item other j :=
    fun j other more hj => h.isHeap.head_le hheap _ (h.next.mem_iff.mpr (mem_heads.mpr ⟨j, other, more, hj, rfl⟩))
  have hleast : ∀ (j : ℕ) (other : Entry τ) more, its[j]? = some (other :: more) → entry.key ≤ other.key := by
    intro j other more hj
    obtain hlt | ⟨heq, -⟩ := item_le.mp (hfirst j other more hj)
    · exact hlt.le
    · exact heq.le
  refine ⟨i, entry, rest, rfl, hi, ?_, ?_⟩
  · intro it hit other hother
    obtain ⟨j, hj⟩ := mem_iff_getElem?.mp hit
    cases it with
    | nil => cases hother
    | cons first more => exact (hleast j first more hj).trans ((h.sorted _ hit).head_le hother)
  · refine newestOf_eq_some (i := i) ?_ ?_
    · rw [getElem?_map, hi, Option.map_some, lookup_cons, if_pos rfl]
    · intro j other hj
      rw [getElem?_map] at hj
      obtain ⟨it, hit, hlookup⟩ := Option.map_eq_some_iff.mp hj
      obtain ⟨hmem, hkey⟩ := lookup_eq_some hlookup
      cases it with
      | nil => cases hmem
      | cons first more =>
        -- the entry of the key is the next one of its table, since no key is before it
        have hsame : first.key = entry.key :=
          le_antisymm (((h.sorted _ (mem_of_getElem? hit)).head_le hmem).trans hkey.le) (hleast j first more hit)
        rw [lookup_cons, if_pos hsame] at hlookup
        obtain rfl := Option.some.inj hlookup
        obtain hlt | ⟨-, hlt | ⟨htime, hle⟩⟩ := item_le.mp (hfirst j first more hit)
        · exact absurd hsame hlt.ne'
        · exact ⟨hlt.le, fun _ => hlt⟩
        · exact ⟨htime.ge, fun hj => absurd hj hle.not_gt⟩

/-- What is left once the next entry is taken. -/
theorem Merging.pop (h : Merging heap its lastKey) {x : Item τ} {items : List (Item τ)} (hheap : heap = x :: items)
    (hx : x = item entry i) (hnext : Next its i entry rest) :
    ∃ heap', heappop heap = some (x, heap') ∧ Merging (pushNext heap' i rest) (its.set i rest) (some entry.key) := by
  obtain ⟨heap', hpop, hheap', hperm⟩ := heappop_spec (hheap ▸ h.isHeap)
  obtain ⟨hpush, hpushed⟩ := pushNext_spec hheap' i rest
  refine ⟨heap', hheap ▸ hpop, hpush, ?_, ?_, ?_⟩
  · obtain ⟨before, after, hits, hlen, hset⟩ := hnext.split
    have hheads := h.next
    rw [hheap, hits, heads_split, hlen] at hheads
    have hitem : heads [(entry :: rest, i)] = [x] := by rw [hx]; rfl
    rw [hitem, singleton_append] at hheads
    have hrest := (hheads.trans perm_middle).cons_inv
    rw [hset, heads_split, hlen]
    refine hpushed.trans (((hperm.trans hrest).append_left _).trans ?_)
    rw [← append_assoc, ← append_assoc]
    exact perm_append_comm.append_right _
  · intro it hit
    obtain hit | rfl := mem_or_eq_of_mem_set hit
    · exact h.sorted it hit
    · exact (pairwise_cons.mp (h.sorted _ (mem_of_getElem? hnext.here))).2
  · rintro key hkey it hit other hother
    cases hkey
    obtain hit | rfl := mem_or_eq_of_mem_set hit
    · exact hnext.least it hit other hother
    · exact hnext.least _ (mem_of_getElem? hnext.here) other (mem_cons_of_mem _ hother)

theorem lookup_set {key : String} (hnext : Next its i entry rest) (hlt : entry.key < key) :
    (its.set i rest).map (lookup key) = its.map (lookup key) := by
  refine ext_getElem? fun j => ?_
  rw [getElem?_map, getElem?_map, getElem?_set]
  split
  · rename_i hj
    subst hj
    rw [hnext.here, if_pos (List.getElem?_eq_some_iff.mp hnext.here).1, Option.map_some, Option.map_some, lookup_cons,
      if_neg hlt.ne]
  · rfl

/-- What a merge returns: its keys are in order and behind the last key, and each has its newest entry. -/
structure Merged (expired : Entry τ → Bool) (its : List (List (Entry τ))) (lastKey : Option String)
    (merged : List (Entry τ)) : Prop where
  sorted : Sorted merged
  behind : ∀ key, lastKey = some key → ∀ entry ∈ merged, key < entry.key
  newest : ∀ key, (∀ last, lastKey = some last → last < key) →
    lookup key merged = (newestOf Entry.timestamp (its.map (lookup key))).filter fun entry => !expired entry

theorem lookup_newest_none {key : String} (h : ∀ it ∈ its, ∀ entry ∈ it, entry.key ≠ key) :
    newestOf Entry.timestamp (its.map (lookup key)) = none := by
  refine newestOf_eq_none fun found hfound => ?_
  obtain ⟨it, hit, rfl⟩ := mem_map.mp hfound
  exact lookup_eq_none.mpr (h it hit)

theorem Merged.skip {merged : List (Entry τ)} (hnext : Next its i entry rest)
    (h : Merged expired (its.set i rest) (some entry.key) merged) :
    Merged expired its (some entry.key) merged where
  sorted := h.sorted
  behind := h.behind
  newest key hkey := by rw [h.newest key hkey, lookup_set hnext (hkey _ rfl)]

/-- The newest entry of a key is taken, unless it is expired. -/
theorem Merged.take {merged : List (Entry τ)} (hstate : Merging heap its lastKey) (hnext : Next its i entry rest)
    (hnew : lastKey ≠ some entry.key) (h : Merged expired (its.set i rest) (some entry.key) merged) :
    Merged expired its lastKey (if expired entry then merged else entry :: merged) := by
  have hmem : entry ∈ entry :: rest := mem_cons_self
  have hlast : ∀ last, lastKey = some last → last < entry.key := fun last hlast =>
    lt_of_le_of_ne (hstate.behind last hlast _ (mem_of_getElem? hnext.here) entry hmem) fun heq =>
      hnew (hlast.trans (congrArg some heq))
  have hafter : ∀ other ∈ merged, entry.key < other.key := h.behind _ rfl
  refine ⟨?_, ?_, ?_⟩
  · split
    · exact h.sorted
    · exact pairwise_cons.mpr ⟨hafter, h.sorted⟩
  · intro last hkey other hother
    split at hother
    · exact (hlast last hkey).trans (hafter other hother)
    · obtain rfl | hother := mem_cons.mp hother
      · exact hlast last hkey
      · exact (hlast last hkey).trans (hafter other hother)
  · intro key hkey
    obtain hlt | rfl | hgt := lt_trichotomy entry.key key
    · have hrest := h.newest key fun last heq => Option.some.inj heq ▸ hlt
      rw [lookup_set hnext hlt] at hrest
      split
      · exact hrest
      · rw [lookup_cons, if_neg hlt.ne, hrest]
    · rw [hnext.newest]
      split
      · rename_i hexpired
        rw [Option.filter_some, if_neg (by simp [hexpired]), lookup_eq_none]
        exact fun other hother => (hafter other hother).ne'
      · rename_i hexpired
        rw [lookup_cons, if_pos rfl, Option.filter_some, if_pos (by simp [hexpired])]
    · rw [lookup_newest_none fun it hit other hother => ((hgt.trans_le (hnext.least it hit other hother))).ne',
        Option.filter_none, lookup_eq_none]
      intro other hother
      split at hother
      · exact (hgt.trans (hafter other hother)).ne'
      · obtain rfl | hother := mem_cons.mp hother
        · exact hgt.ne'
        · exact (hgt.trans (hafter other hother)).ne'

theorem mergeLoop_merged (fuel : ℕ) (hstate : Merging heap its lastKey) (hfuel : its.flatten.length ≤ fuel) :
    Merged expired its lastKey (mergeLoop expired fuel heap its lastKey) := by
  induction fuel generalizing heap its lastKey with
  | zero =>
    have hnone : ∀ it ∈ its, ∀ entry ∈ it, False := by
      intro it hit entry hentry
      have hmem : entry ∈ its.flatten := mem_flatten.mpr ⟨it, hit, hentry⟩
      rw [length_eq_zero_iff.mp (Nat.le_zero.mp hfuel)] at hmem
      cases hmem
    refine ⟨List.Pairwise.nil, nofun, fun key _ => ?_⟩
    rw [lookup_newest_none fun it hit entry hentry => (hnone it hit entry hentry).elim]
    rfl
  | succ fuel ih =>
    cases hheap : heap with
    | nil =>
      have hnone : ∀ it ∈ its, it = [] := by
        intro it hit
        obtain ⟨i, hi⟩ := mem_iff_getElem?.mp hit
        cases it with
        | nil => rfl
        | cons entry rest =>
          have hmem := hstate.next.mem_iff.mpr (mem_heads.mpr ⟨i, entry, rest, hi, rfl⟩)
          rw [hheap] at hmem
          cases hmem
      refine ⟨List.Pairwise.nil, nofun, fun key _ => ?_⟩
      rw [lookup_newest_none fun it hit entry hentry => by rw [hnone it hit] at hentry; cases hentry]
      rfl
    | cons x items =>
      obtain ⟨i, entry, rest, hx, hnext⟩ := hstate.exists_next hheap
      obtain ⟨heap', hpop, hstate'⟩ := hstate.pop hheap hx hnext
      have hidx : itemIdx x = i := by rw [hx]; rfl
      have hlen : (its.set i rest).flatten.length ≤ fuel := by
        obtain ⟨before, after, hits, -, hset⟩ := hnext.split
        rw [hset]
        rw [hits] at hfuel
        simp only [flatten_append, flatten_cons, length_append, length_cons] at hfuel ⊢
        omega
      have hmerged := ih hstate' hlen
      rw [← hheap, mergeLoop, hpop]
      dsimp only
      rw [hidx, hnext.here]
      dsimp only
      by_cases hseen : lastKey = some entry.key
      · rw [if_pos hseen, hseen]
        exact hmerged.skip hnext
      · rw [if_neg hseen]
        exact hmerged.take hstate hnext hseen

theorem kWayMerge_merged (expired : Entry τ → Bool) (sstables : List (SSTable τ)) :
    Merged expired (sstables.map SSTable.entries) none (kWayMerge expired sstables) := by
  refine mergeLoop_merged _ ⟨(pushAll_spec _).1, (pushAll_spec _).2, ?_, nofun⟩ le_rfl
  intro it hit
  obtain ⟨t, -, rfl⟩ := mem_map.mp hit
  exact t.sorted

end SystemDesign.KvStorage
