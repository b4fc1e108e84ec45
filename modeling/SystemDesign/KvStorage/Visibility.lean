import SystemDesign.KvStorage.Engine

/-!
What a flush changes for readers.

Both readers return the first of the newest entries of a key, the memtable first and then the tables in their order.
A flush keeps all of the newest entries. It is invisible exactly if it keeps their first ones, too: a compaction moves
the tables of a level, among which other tables may stand, in front of the first other table that is older.
-/

namespace SystemDesign.KvStorage

open List hiding le_antisymm le_of_lt not_le

variable {τ : Type} [LinearOrder τ] {s s' : StorageEngine τ} {key : String}

/-- The first of the newest entries of a key. -/
def newest (key : String) (sstables : List (SSTable τ)) : Option (Entry τ) :=
  newestOf Entry.timestamp (sstables.map fun t => t.get key)

/-- What a reader finds. -/
def StorageEngine.found (s : StorageEngine τ) (key : String) : Option (Entry τ) :=
  newerOf Entry.timestamp (s.memtable.entries.get? key) (newest key s.sstables)

/-! ### The readers -/

theorem get_eq (s : StorageEngine τ) (key : String) : s.get key = do
    validateKey key
    return (s.found key).map fun best => ⟨best.key, best.value, best.timestamp, best.isTombstone, true⟩ := by
  have hfold : ∀ (sstables : List (SSTable τ)) best,
      sstables.foldl (fun best t => newerOf Entry.timestamp best (t.get key)) best =
        newerOf Entry.timestamp best (newest key sstables) := by
    intro sstables best
    rw [newest, ← foldl_newerOf, foldl_map]
  rw [StorageEngine.get, hfold, StorageEngine.found]

theorem get?_scanEntry (entries : Dict String (Entry τ)) (entry : Entry τ) : (scanEntry entries entry).get? key =
    if entry.key = key then newerOf Entry.timestamp (some entry) (entries.get? key) else entries.get? key := by
  unfold scanEntry
  split
  · rename_i previous hget
    split
    · rename_i hle
      split
      · rename_i hkey
        rw [← hkey, hget, newerOf_some, if_neg hle.not_gt, Dict.get?_set_self]
      · rename_i hkey
        exact Dict.get?_set_of_ne _ (Ne.symm hkey) _
    · rename_i hlt
      split
      · rename_i hkey
        rw [← hkey, hget, newerOf_some, if_pos (not_le.mp hlt)]
      · rfl
  · rename_i hget
    split
    · rename_i hkey
      rw [← hkey, hget, Dict.get?_set_self]
      rfl
    · rename_i hkey
      exact Dict.get?_set_of_ne _ (Ne.symm hkey) _

theorem get?_foldl_scanEntry {entries : List (Entry τ)} (h : Sorted entries) (scanned : Dict String (Entry τ)) :
    (entries.foldl scanEntry scanned).get? key = newerOf Entry.timestamp (lookup key entries) (scanned.get? key) := by
  induction entries generalizing scanned with
  | nil => exact (none_newerOf _).symm
  | cons entry entries ih =>
    obtain ⟨hfirst, hrest⟩ := pairwise_cons.mp h
    rw [foldl_cons, ih hrest, get?_scanEntry, lookup_cons]
    split
    · rename_i hkey
      have hnone : lookup key entries = none :=
        lookup_eq_none.mpr fun other hother heq => (hfirst other hother).ne (hkey.trans heq.symm)
      rw [hnone, none_newerOf]
    · rfl

theorem get?_scan_tables (sstables : List (SSTable τ)) :
    (sstables.reverse.foldl (fun entries t => t.entries.foldl scanEntry entries) Dict.empty).get? key =
      newest key sstables := by
  induction sstables with
  | nil => rfl
  | cons t sstables ih =>
    rw [reverse_cons, foldl_append, foldl_cons, foldl_nil, get?_foldl_scanEntry t.sorted, ih]
    exact (newestOf_cons _ _).symm

theorem get?_scan (s : StorageEngine τ) (key : String) : s.scan.get? key =
    (s.found key).map fun entry => ⟨entry.key, entry.value, entry.timestamp, entry.isTombstone, !entry.isTombstone⟩ := by
  rw [StorageEngine.scan, Dict.get?_mapVal, get?_foldl_scanEntry s.memtable.sorted_entriesSorted, get?_scan_tables,
    MemTable.lookup_entriesSorted, StorageEngine.found]

/-- No reader sees a difference. -/
structure Invisible (s s' : StorageEngine τ) : Prop where
  get : ∀ key, s'.get key = s.get key
  scan : ∀ key, s'.scan.get? key = s.scan.get? key

theorem invisible_iff : Invisible s s' ↔ ∀ key, s'.found key = s.found key := by
  constructor
  · intro h key
    have hscan := h.scan key
    rw [get?_scan, get?_scan] at hscan
    refine Option.map_injective ?_ hscan
    rintro ⟨⟩ ⟨⟩ heq
    simp only [StorageResult.mk.injEq] at heq
    obtain ⟨rfl, rfl, rfl, rfl, -⟩ := heq
    rfl
  · exact fun h => ⟨fun key => by rw [get_eq, get_eq, h], fun key => by rw [get?_scan, get?_scan, h]⟩

/-! ### Compaction -/

/-- The tables of a level, moved together in front of the first other table that is older than a time. -/
def gathered (level : ℕ) (now : τ) (sstables : List (SSTable τ)) : List (SSTable τ) :=
  (offLevel level sstables).takeWhile (fun t => ¬ t.createdAt < now) ++ atLevel level sstables ++
    (offLevel level sstables).dropWhile (fun t => ¬ t.createdAt < now)

theorem insertCompacted_eq (compacted : SSTable τ) (sstables : List (SSTable τ)) :
    insertCompacted compacted sstables = sstables.takeWhile (fun t => ¬ t.createdAt < compacted.createdAt) ++
      compacted :: sstables.dropWhile (fun t => ¬ t.createdAt < compacted.createdAt) := by
  induction sstables with
  | nil => rfl
  | cons t sstables ih =>
    unfold insertCompacted
    by_cases holder : t.createdAt < compacted.createdAt
    · rw [if_pos holder, takeWhile_cons_of_neg (by simpa using holder), dropWhile_cons_of_neg (by simpa using holder)]
      rfl
    · rw [if_neg holder, ih, takeWhile_cons_of_pos (by simpa using holder),
        dropWhile_cons_of_pos (by simpa using holder)]
      rfl

variable {sstables : List (SSTable τ)}

omit [LinearOrder τ] in
theorem atLevel_ne_nil {threshold : ℤ} {level : ℕ} (h : fullLevel threshold sstables = some level) :
    atLevel level sstables ≠ [] := by
  have hmem := mem_of_find?_eq_some h
  rw [mem_insertionSort, mem_dedup, mem_map] at hmem
  obtain ⟨t, ht, hlevel⟩ := hmem
  exact ne_nil_of_mem (mem_filter.mpr ⟨ht, by simpa using hlevel⟩)

theorem lookup_kWayMerge (sstables : List (SSTable τ)) (key : String) :
    lookup key (kWayMerge (fun _ => false) sstables) = newest key sstables := by
  rw [(kWayMerge_merged _ _).newest key nofun, map_map]
  change (newest key sstables).filter (fun _ => true) = newest key sstables
  cases newest key sstables <;> rfl

theorem compact_returns (now : τ) (hsome : sstables ≠ []) (level : ℕ) :
    ∃ compacted, compact now sstables level = .ok compacted ∧ compacted.level = level + 1 ∧
      compacted.createdAt = now ∧ ∀ key, compacted.get key = newest key sstables := by
  have hmerged : kWayMerge (fun _ => false) sstables ≠ [] := by
    obtain ⟨t, sstables, rfl⟩ := exists_cons_of_ne_nil hsome
    obtain ⟨entry, rest, hentries⟩ := exists_cons_of_ne_nil t.nonempty
    intro hnil
    have hlookup := lookup_kWayMerge (t :: sstables) entry.key
    have hget : t.get entry.key = some entry := t.sorted.lookup_eq (by rw [hentries]; exact mem_cons_self)
    rw [hnil, newest, map_cons, newestOf_cons, hget] at hlookup
    cases hrest : newestOf Entry.timestamp (sstables.map fun t => t.get entry.key) with
    | none =>
      rw [hrest] at hlookup
      cases hlookup
    | some other =>
      rw [hrest, newerOf_some] at hlookup
      split at hlookup <;> cases hlookup
  exact ⟨⟨level + 1, now, kWayMerge (fun _ => false) sstables, (kWayMerge_merged _ _).sorted, hmerged⟩,
    dif_pos hmerged, rfl, rfl, lookup_kWayMerge sstables⟩

theorem newest_part {before part after : List (SSTable τ)} {t : SSTable τ} (h : t.get key = newest key part) :
    newest key (before ++ t :: after) = newest key (before ++ part ++ after) := by
  unfold newest at h ⊢
  rw [map_append, map_cons, h, newestOf_part, map_append, map_append]

theorem maybeCompact_returns (threshold : ℤ) (now : τ) (sstables : List (SSTable τ)) :
    ∃ sstables', maybeCompact threshold now sstables = .ok sstables' ∧
      ((fullLevel threshold sstables = none ∧ sstables' = sstables) ∨
        ∃ level, fullLevel threshold sstables = some level ∧
          ∀ key, newest key sstables' = newest key (gathered level now sstables)) := by
  unfold maybeCompact
  cases hfull : fullLevel threshold sstables with
  | none => exact ⟨sstables, rfl, .inl ⟨rfl, rfl⟩⟩
  | some level =>
    obtain ⟨compacted, hcompact, hlevel, hcreated, hget⟩ := compact_returns now (atLevel_ne_nil hfull) level
    refine ⟨replaceCompacted compacted sstables, bind_eq_ok.mpr ⟨compacted, hcompact, rfl⟩,
      .inr ⟨level, rfl, fun key => ?_⟩⟩
    rw [replaceCompacted, insertCompacted_eq, hlevel, hcreated, Nat.add_sub_cancel]
    exact newest_part (hget key)

/-! ### Flushes -/

/-- For every key, the first of the newest entries is still the first once the tables of the level that is merged have
been moved. -/
def StorageEngine.InOrder (s : StorageEngine τ) (created compacted : τ) : Prop :=
  ∀ table : SSTable τ, table.level = 0 → table.createdAt = created → table.entries = s.memtable.entriesSorted →
    ∀ level, fullLevel s.compactionThreshold (table :: s.sstables) = some level →
      ∀ key, newest key (gathered level compacted (table :: s.sstables)) = newest key (table :: s.sstables)

omit [LinearOrder τ] in
theorem entriesSorted_eq_nil {m : MemTable τ} : m.entriesSorted = [] ↔ m.entries.entries = [] := by
  have hlength : m.entriesSorted.length = m.entries.entries.length := by
    unfold MemTable.entriesSorted Dict.values
    rw [length_map, m.entries.sorted_equiv.entries_perm.length_eq]
  rw [← length_eq_zero_iff, hlength, length_eq_zero_iff]

/-- A flush returns, and is invisible exactly if it keeps what is first. -/
theorem flush_returns (s : StorageEngine τ) (created compacted : τ) :
    ∃ s', s.flush created compacted = .ok s' ∧ (Invisible s s' ↔ s.InOrder created compacted) := by
  unfold StorageEngine.flush
  by_cases hempty : s.memtable.entries.entries = []
  · rw [if_pos hempty]
    refine ⟨s, rfl, fun _ table _ _ hentries => ?_, fun _ => ⟨fun _ => rfl, fun _ => rfl⟩⟩
    exact absurd (hentries.trans (entriesSorted_eq_nil.mpr hempty)) table.nonempty
  · rw [if_neg hempty]
    have hnonempty : s.memtable.entriesSorted ≠ [] := fun hnil => hempty (entriesSorted_eq_nil.mp hnil)
    let table : SSTable τ := ⟨0, created, s.memtable.entriesSorted, s.memtable.sorted_entriesSorted, hnonempty⟩
    have hcreate : SSTable.create "Cannot create SSTable from empty MemTable" 0 created s.memtable.entriesSorted
        s.memtable.sorted_entriesSorted = .ok table := dif_pos hnonempty
    obtain ⟨sstables, hcompact, hcases⟩ := maybeCompact_returns s.compactionThreshold compacted (table :: s.sstables)
    refine ⟨⟨s.memtable.clear, sstables, s.compactionThreshold⟩,
      bind_eq_ok.mpr ⟨table, hcreate, bind_eq_ok.mpr ⟨sstables, hcompact, rfl⟩⟩, ?_⟩
    have hbefore : ∀ key, s.found key = newest key (table :: s.sstables) := by
      intro key
      rw [StorageEngine.found, ← MemTable.lookup_entriesSorted]
      exact (newestOf_cons _ _).symm
    have hafter : ∀ key,
        StorageEngine.found ⟨s.memtable.clear, sstables, s.compactionThreshold⟩ key = newest key sstables :=
      fun key => none_newerOf _
    have htable : ∀ other : SSTable τ, other.level = 0 → other.createdAt = created →
        other.entries = s.memtable.entriesSorted → other = table := by
      rintro ⟨_, _, _, _, _⟩ rfl rfl rfl
      rfl
    rw [invisible_iff]
    obtain ⟨hfull, rfl⟩ | ⟨level, hfull, hgathered⟩ := hcases
    · refine ⟨fun _ other hlevel hcreated hentries level hsome => ?_,
        fun _ key => (hafter key).trans (hbefore key).symm⟩
      rw [htable other hlevel hcreated hentries, hfull] at hsome
      cases hsome
    · constructor
      · intro hsame other hlevel hcreated hentries level' hsome key
        rw [htable other hlevel hcreated hentries] at hsome ⊢
        obtain rfl := Option.some.inj (hfull.symm.trans hsome)
        rw [← hgathered, ← hafter, hsame, hbefore]
      · intro horder key
        rw [hafter, hgathered, horder table rfl rfl rfl level hfull, hbefore]

theorem invisible_of_flush {created compacted : τ} (h : s.flush created compacted = .ok s') :
    Invisible s s' ↔ s.InOrder created compacted := by
  obtain ⟨s'', hreturns, hiff⟩ := flush_returns s created compacted
  obtain rfl := Except.ok.inj (h.symm.trans hreturns)
  exact hiff

/-! ### Runs -/

/-- The last of the newest writes of a key. -/
def lastNewest (key : String) (log : List (Entry τ)) : Option (Entry τ) :=
  log.foldl (fun best entry => if key = entry.key then newerOf Entry.timestamp (some entry) best else best) none

/-- What a step has to meet: a flush keeps what is first, and a restart finds tables of different times in order. -/
def Kept (s : StorageEngine τ) : Event τ → Prop
  | .write _ => True
  | .flush created compacted => s.InOrder created compacted
  | .restart => s.sstables.Pairwise fun a b => b.createdAt < a.createdAt

theorem found_write (s : StorageEngine τ) (entry : Entry τ) (key : String) : (s.write entry).found key =
    if key = entry.key then newerOf Entry.timestamp (some entry) (s.found key) else s.found key := by
  unfold StorageEngine.found StorageEngine.write
  dsimp only
  rw [MemTable.get?_write]
  split
  · rw [newerOf_assoc]
  · rfl

/-- Tables in the order of different times are loaded as they were. -/
theorem eq_of_loaded {loaded : List (SSTable τ)} (hperm : loaded.Perm sstables)
    (hloaded : loaded.Pairwise fun a b => b.createdAt ≤ a.createdAt)
    (hdecreasing : sstables.Pairwise fun a b => b.createdAt < a.createdAt) : loaded = sstables := by
  refine hperm.eq_of_pairwise (fun a b ha hb hab hba => ?_) hloaded (hdecreasing.imp le_of_lt)
  have hnodup : (sstables.map SSTable.createdAt).Nodup := pairwise_map.mpr (hdecreasing.imp fun hlt => hlt.ne')
  exact inj_on_of_nodup_map hnodup (hperm.mem_iff.mp ha) hb (le_antisymm hba hab)

theorem Run.found {log : List (Entry τ)} (h : Run Kept s log) (key : String) : s.found key = lastNewest key log := by
  induction h with
  | start => rfl
  | step h hstep hmet ih =>
    cases hstep with
    | write entry =>
      rw [found_write, ih, Event.written, lastNewest, lastNewest, foldl_append]
      rfl
    | flush hflush =>
      rw [invisible_iff.mp ((invisible_of_flush hflush).mpr hmet), ih, Event.written, append_nil]
    | restart hloaded hsorted =>
      rw [eq_of_loaded hloaded hsorted hmet, Event.written, append_nil]
      exact ih

/-! ### Equal times -/

/-- Writes that are each flushed at once, with the times of the tables. -/
def fill (writes : List (Entry τ × τ × τ)) (s : StorageEngine τ) : Except Error (StorageEngine τ) :=
  writes.foldlM (fun (s : StorageEngine τ) w => (s.write w.1).flush w.2.1 w.2.2) s

theorem fill_run (writes : List (Entry τ × τ × τ)) {log : List (Entry τ)} (h : Run (fun _ _ => True) s log)
    (hfill : fill writes s = .ok s') : ∃ log', Run (fun _ _ => True) s' log' := by
  induction writes generalizing s log with
  | nil =>
    cases hfill
    exact ⟨log, h⟩
  | cons w writes ih =>
    rw [fill, foldlM_cons, bind_eq_ok] at hfill
    obtain ⟨next, hflush, hrest⟩ := hfill
    exact ih ((h.step (.write s w.1) trivial).step (.flush hflush) trivial) hrest

/-- Two tables of level 1, the older one with the first write of `k`, and no table of level 0. -/
def earlier : List (Entry ℕ × ℕ × ℕ) :=
  [(⟨"k", some [1], 5, false⟩, 1, 1), (⟨"a", some [1], 5, false⟩, 2, 3), (⟨"b", some [1], 5, false⟩, 4, 4),
    (⟨"c", some [1], 5, false⟩, 5, 6)]

/-- The second write of `k`, of the same time. -/
def later : Entry ℕ := ⟨"k", some [2], 5, false⟩

/-- What `get` returns before and after a flush of the second write. -/
def shown : Except Error (Option (StorageResult ℕ) × Option (StorageResult ℕ)) := do
  let s ← fill earlier (.new 64 2)
  let s' ← (s.write later).flush 7 8
  let before ← (s.write later).get "k"
  let after ← s'.get "k"
  return (before, after)

theorem shown_eq : shown = .ok (some ⟨"k", some [2], 5, false, true⟩, some ⟨"k", some [1], 5, false, true⟩) := by
  decide +kernel

end SystemDesign.KvStorage
