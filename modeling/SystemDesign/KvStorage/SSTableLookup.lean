import SystemDesign.KvStorage.SSTableFile

/-!
Looking a key up in the file of a sorted table finds what a search through its entries finds (`sstable.py`).

The data block is the entries one after another, so that every offset the index or the scan names is where an entry
starts (`readEntryAt_start`). The index names the entries sixteen apart (`Indexed`). A scan over some of the entries
finds what is among them (`scanDataBlock_eq`), and those outside the range that the index gives have other keys.
-/

namespace SystemDesign.KvStorage

open List hiding le_of_lt le_trans lt_asymm lt_irrefl lt_of_le_of_lt lt_trans not_le not_lt

variable {entries front mid back : List (Entry UInt64)} {entry : Entry UInt64} {key : String}
  {parameters : BloomParameters} {behind : List UInt8} {table : SSTableFile}

/-- An entry as it is read: with no value where it is a tombstone, and with some value otherwise. -/
def readBack (entry : Entry UInt64) : Entry UInt64 :=
  { entry with value := if entry.isTombstone then none else some (entry.value.getD []) }

theorem readBack_eq (h : entry.value = none ↔ entry.isTombstone = true) : readBack entry = entry := by
  obtain ⟨key, value, timestamp, isTombstone⟩ := entry
  cases value <;> cases isTombstone <;> simp_all [readBack]

/-! ### The blocks -/

def blockOf (entries : List (Entry UInt64)) : List UInt8 := entries.flatMap packEntry

theorem blockOf_append (front back : List (Entry UInt64)) : blockOf (front ++ back) = blockOf front ++ blockOf back :=
  flatMap_append

theorem length_packEntry_pos (entry : Entry UInt64) : 0 < (packEntry entry).length := by
  rw [packEntry, length_append, length_littleEndian]
  omega

/-- The index of the entries: every sixteenth key, with where its entry starts. -/
def Indexed (entries : List (Entry UInt64)) (index : List IndexEntry) : Prop :=
  index.length = (entries.length + 15) / 16 ∧ ∀ j, j < index.length →
    ∃ entry, entries[16 * j]? = some entry ∧
      index.getD j default = ⟨entry.key, (blockOf (entries.take (16 * j))).length⟩

theorem foldl_addEntry (parameters : BloomParameters) (bloom : BloomFilter) (entries : List (Entry UInt64)) :
    let blocks := entries.zipIdx.foldl (addEntry parameters) ⟨[], [], bloom⟩
    blocks.dataBlock = blockOf entries ∧ Indexed entries blocks.index ∧
      blocks.bloom = (entries.map Entry.key).foldl (BloomFilter.add parameters) bloom := by
  induction entries using List.reverseRecOn with
  | nil => exact ⟨rfl, ⟨rfl, fun j hj => absurd hj (Nat.not_lt_zero j)⟩, rfl⟩
  | append_singleton entries entry ih =>
    obtain ⟨hblock, ⟨hlength, hindex⟩, hbloom⟩ := ih
    rw [zipIdx_append, foldl_append, Nat.zero_add]
    generalize entries.zipIdx.foldl (addEntry parameters) ⟨[], [], bloom⟩ = blocks at *
    have hkept (j : ℕ) (hj : j < blocks.index.length) : ∃ other, (entries ++ [entry])[16 * j]? = some other ∧
        blocks.index.getD j default = ⟨other.key, (blockOf ((entries ++ [entry]).take (16 * j))).length⟩ := by
      obtain ⟨other, hother, heq⟩ := hindex j hj
      have hlt : 16 * j < entries.length := (List.getElem?_eq_some_iff.mp hother).1
      refine ⟨other, by rw [getElem?_append_left hlt, hother], ?_⟩
      rw [heq, take_append_of_le_length hlt.le]
    show (blocks.dataBlock ++ packEntry entry) = _ ∧ Indexed _ (if entries.length % indexInterval = 0 then _ else _) ∧
      blocks.bloom.add parameters entry.key = _
    refine ⟨by rw [hblock, blockOf_append]; simp [blockOf], ?_, by
      rw [hbloom, map_append, foldl_append]; rfl⟩
    unfold Indexed indexInterval
    rw [length_append, length_singleton]
    split
    · -- the entry is indexed
      rename_i hmod
      have hat : 16 * blocks.index.length = entries.length := by omega
      refine ⟨by rw [length_append, length_singleton]; omega, fun j hj => ?_⟩
      rw [length_append, length_singleton] at hj
      by_cases hlast : j = blocks.index.length
      · subst hlast
        refine ⟨entry, by rw [hat, getElem?_concat_length], ?_⟩
        rw [hat, take_left, hblock, getD_append_right _ _ _ _ (Nat.le_refl _), Nat.sub_self]
        rfl
      · obtain ⟨other, hother, heq⟩ := hkept j (by omega)
        exact ⟨other, hother, by rw [getD_append _ _ _ _ (by omega), heq]⟩
    · exact ⟨by omega, hkept⟩

/-- What a built table holds. -/
structure Built (parameters : BloomParameters) (entries : List (Entry UInt64)) (table : SSTableFile) : Prop where
  packable : ∀ entry ∈ entries, Packable entry
  block : table.rawData.take table.dataBlockSize = blockOf entries
  size : table.dataBlockSize = (blockOf entries).length
  indexed : Indexed entries table.index
  bloom : ∀ entry ∈ entries, table.bloomFilter.mightContain parameters entry.key = true
  first : ∃ first, entries[0]? = some first ∧ table.minKey = first.key
  last : ∃ last, entries.getLast? = some last ∧ table.maxKey = last.key

theorem built_of_build (h : build parameters behind entries = .ok table) : Built parameters entries table := by
  unfold build at h
  split at h
  · cases h
  · rename_i first rest
    split at h
    · rename_i hpackable
      obtain ⟨hblock, hindex, hbloom⟩ :=
        foldl_addEntry parameters (BloomFilter.new parameters (max (first :: rest).length 1)) (first :: rest)
      cases h
      refine
        { packable := hpackable, block := ?_, size := congrArg List.length hblock, indexed := hindex
          bloom := fun entry hentry => ?_, first := ⟨first, rfl, rfl⟩
          last := ⟨_, getLast?_eq_some_getLast (cons_ne_nil _ _), rfl⟩ }
      · rw [take_left]
        exact hblock
      · rw [hbloom]
        exact BloomFilter.mightContain_foldl_add (BloomFilter.sized_new _) _ (.inl (mem_map_of_mem hentry))
    · cases h

/-- A table is built of any entries whose fields fit. -/
theorem build_of_packable (hnonempty : entries ≠ []) (h : ∀ entry ∈ entries, Packable entry) :
    ∃ table, build parameters behind entries = .ok table := by
  cases entries with
  | nil => exact absurd rfl hnonempty
  | cons first rest =>
    unfold build
    dsimp only
    rw [if_pos h]
    exact ⟨_, rfl⟩

/-! ### Reading entries -/

/-- Where an entry starts it is read, and the next one starts behind it. -/
theorem readEntryAt_start (hblock : table.rawData.take table.dataBlockSize = blockOf (front ++ entry :: back))
    (hpackable : Packable entry) :
    table.readEntryAt (blockOf front).length = some (readBack entry, (blockOf (front ++ [entry])).length) := by
  have htime : entry.timestamp.toNat < 256 ^ 8 := entry.timestamp.toNat_lt
  have htombstone : (if entry.isTombstone then 1 else 0) < 256 ^ 1 := by split <;> decide
  have hdrop : (table.rawData.take table.dataBlockSize).drop (blockOf front).length
      = packEntry entry ++ blockOf back := by
    rw [hblock, blockOf_append, drop_left]
    rfl
  have hnext : (blockOf (front ++ [entry])).length = (blockOf front).length + 4 + (utf8Bytes entry.key).length + 4
      + (entry.value.getD []).length + 8 + 1 := by
    simp only [blockOf, packEntry, flatMap_append, flatMap_cons, flatMap_nil, length_append,
      length_littleEndian, length_nil]
    omega
  unfold SSTableFile.readEntryAt
  rw [hdrop, hnext]
  simp only [packEntry, append_assoc, readNat_append hpackable.1, readNat_append hpackable.2,
    readNat_append htime, readNat_append htombstone, readBytes_append, ofUtf8Bytes_utf8Bytes, Option.bind_eq_bind,
    Option.bind_some, Option.pure_def, UInt64.ofNat_toNat, readBack]
  cases entry.isTombstone <;> rfl

theorem length_blockOf_lt (front : List (Entry UInt64)) (entry : Entry UInt64) (mid : List (Entry UInt64)) :
    (blockOf front).length < (blockOf (front ++ entry :: mid)).length := by
  have := length_packEntry_pos entry
  simp only [blockOf, flatMap_append, flatMap_cons, length_append]
  omega

theorem lookup_eq_none_of_lt (h : ∀ entry ∈ entries, key < entry.key) : lookup key entries = none :=
  lookup_eq_none.mpr fun entry hentry heq => absurd (h entry hentry) (by rw [heq]; exact lt_irrefl key)

/-- Scanning over some entries finds the key among them. -/
theorem scanDataBlock_eq (hblock : table.rawData.take table.dataBlockSize = blockOf (front ++ (mid ++ back)))
    (hpackable : ∀ entry ∈ mid, Packable entry) (hsorted : Sorted mid) (key : String) :
    table.scanDataBlock key (blockOf front).length (blockOf (front ++ mid)).length = (lookup key mid).map readBack := by
  induction mid generalizing front with
  | nil =>
    rw [append_nil, SSTableFile.scanDataBlock, if_neg (Nat.lt_irrefl _)]
    rfl
  | cons entry mid ih =>
    obtain ⟨hfirst, hsorted⟩ := pairwise_cons.mp hsorted
    have hread := readEntryAt_start hblock (hpackable entry mem_cons_self)
    rw [SSTableFile.scanDataBlock, if_pos (length_blockOf_lt front entry mid), lookup_cons]
    split
    · rename_i hnone
      rw [hread] at hnone
      cases hnone
    · rename_i hsome
      rw [hread] at hsome
      cases hsome
      show (if entry.key = key then _ else if key < entry.key then _ else _) = _
      by_cases hkey : entry.key = key
      · rw [if_pos hkey, if_pos hkey]
        rfl
      · rw [if_neg hkey, if_neg hkey]
        by_cases hlt : key < entry.key
        · -- the later entries have still greater keys
          rw [if_pos hlt, lookup_eq_none_of_lt fun other hother => lt_trans hlt (hfirst other hother)]
          rfl
        · rw [if_neg hlt]
          have hcons : front ++ entry :: mid = front ++ [entry] ++ mid := by rw [append_assoc]; rfl
          rw [hcons]
          refine ih ?_ (fun other hother => hpackable other (mem_cons_of_mem _ hother)) hsorted
          rw [hblock, cons_append, append_assoc]
          rfl

/-! ### The range to scan -/

theorem lookup_append (key : String) (front back : List (Entry UInt64)) :
    lookup key (front ++ back) = (lookup key front).or (lookup key back) := find?_append

theorem Sorted.key_lt (h : Sorted entries) {i j : ℕ} {a b : Entry UInt64} (hij : i < j) (ha : entries[i]? = some a)
    (hb : entries[j]? = some b) : a.key < b.key := by
  obtain ⟨hi, rfl⟩ := List.getElem?_eq_some_iff.mp ha
  obtain ⟨hj, rfl⟩ := List.getElem?_eq_some_iff.mp hb
  exact pairwise_iff_getElem.mp h i j hi hj hij

/-- Between a position whose key is not beyond the one looked for and one from which on the keys are, a search through
the list finds everything. -/
theorem lookup_between (h : Sorted entries) {start stop : ℕ} (hle : start ≤ stop)
    (hstart : ∃ first, entries[start]? = some first ∧ first.key ≤ key)
    (hstop : ∀ later, entries[stop]? = some later → key < later.key) :
    lookup key entries = lookup key ((entries.take stop).drop start) := by
  obtain ⟨first, hfirst, hkey⟩ := hstart
  have hbefore : lookup key (entries.take start) = none := lookup_eq_none.mpr fun entry hentry heq => by
    obtain ⟨i, hi⟩ := mem_iff_getElem?.mp hentry
    rw [getElem?_take] at hi
    split at hi
    · rename_i hlt
      exact absurd (lt_of_lt_of_le (h.key_lt hlt hi hfirst) hkey) (by rw [heq]; exact lt_irrefl key)
    · cases hi
  have hafter : lookup key (entries.drop stop) = none := lookup_eq_none_of_lt fun entry hentry => by
    obtain ⟨i, hi⟩ := mem_iff_getElem?.mp hentry
    rw [getElem?_drop] at hi
    have hlt : stop < entries.length := lt_of_le_of_lt (Nat.le_add_right stop i) (List.getElem?_eq_some_iff.mp hi).1
    have hat := hstop _ (getElem?_eq_getElem hlt)
    cases i with
    | zero => exact hstop _ hi
    | succ i => exact lt_trans hat (h.key_lt (Nat.lt_add_of_pos_right i.succ_pos) (getElem?_eq_getElem hlt) hi)
  have hsplit : entries = entries.take start ++ ((entries.take stop).drop start ++ entries.drop stop) := by
    have htake : entries.take start = (entries.take stop).take start := by
      rw [take_take, Nat.min_eq_left hle]
    rw [htake, ← append_assoc, take_append_drop, take_append_drop]
  conv => lhs; rw [hsplit]
  rw [lookup_append, lookup_append, hbefore, hafter, Option.none_or, Option.or_none]

/-- The range that the index gives starts and stops at entries, and holds the key if any entry does. -/
theorem findScanRange_spec (h : Built parameters entries table) (hsorted : Sorted entries)
    (hmin : ¬ key < table.minKey) : ∃ start stop, start ≤ stop ∧
      table.findScanRange key = ((blockOf (entries.take start)).length, (blockOf (entries.take stop)).length) ∧
      lookup key entries = lookup key ((entries.take stop).drop start) := by
  obtain ⟨hlength, hindex⟩ := h.indexed
  obtain ⟨first, hfirst, hminKey⟩ := h.first
  have hpos : 0 < entries.length := (List.getElem?_eq_some_iff.mp hfirst).1
  have hnonempty : 0 < table.index.length := by omega
  have hempty : table.index.isEmpty = false := by
    rw [isEmpty_eq_false_iff]
    exact ne_nil_of_length_pos hnonempty
  have hdown : ∀ i j, i ≤ j → j < table.index.length →
      decide ((table.index.getD j default).key ≤ key) = true →
      decide ((table.index.getD i default).key ≤ key) = true := by
    intro i j hij hj htest
    obtain ⟨a, ha, hai⟩ := hindex i (by omega)
    obtain ⟨b, hb, hbj⟩ := hindex j hj
    rw [decide_eq_true_eq, hbj] at htest
    rw [decide_eq_true_eq, hai]
    rcases Nat.eq_or_lt_of_le hij with rfl | hlt
    · rw [ha] at hb
      cases hb
      exact htest
    · exact le_trans (le_of_lt (hsorted.key_lt (by omega) ha hb)) htest
  have hzero : decide ((table.index.getD 0 default).key ≤ key) = true := by
    obtain ⟨a, ha, heq⟩ := hindex 0 hnonempty
    rw [Nat.mul_zero, hfirst] at ha
    cases ha
    rw [decide_eq_true_eq, heq, ← hminKey]
    exact not_lt.mp hmin
  obtain ⟨hlt, htest, hbeyond⟩ := searchLast_zero hdown hnonempty hzero
  unfold SSTableFile.findScanRange
  rw [hempty, if_neg Bool.false_ne_true]
  dsimp only
  generalize searchLast (fun mid => decide ((table.index.getD mid default).key ≤ key)) 0 (↑table.index.length - 1) 0
    = last at *
  obtain ⟨a, ha, hat⟩ := hindex last hlt
  rw [decide_eq_true_eq, hat] at htest
  by_cases hmore : last + 1 < table.index.length
  · obtain ⟨b, hb, hbt⟩ := hindex (last + 1) hmore
    have hnot := hbeyond (last + 1) (Nat.lt_succ_self last) hmore
    rw [decide_eq_false_iff_not, hbt] at hnot
    refine ⟨16 * last, 16 * (last + 1), by omega, by rw [if_pos hmore, hat, hbt], ?_⟩
    refine lookup_between hsorted (by omega) ⟨a, ha, htest⟩ fun later hlater => ?_
    rw [hb] at hlater
    cases hlater
    exact not_le.mp hnot
  · have hat16 : 16 * last < entries.length := (List.getElem?_eq_some_iff.mp ha).1
    refine ⟨16 * last, entries.length, hat16.le, by rw [if_neg hmore, hat, h.size, take_length], ?_⟩
    refine lookup_between hsorted hat16.le ⟨a, ha, htest⟩ fun later hlater => ?_
    exact absurd (List.getElem?_eq_some_iff.mp hlater).1 (Nat.lt_irrefl _)

/-! ### The lookup -/

/-- A key that is found is neither denied by the filter nor out of the range of keys. -/
theorem passes_of_lookup (h : Built parameters entries table) (hsorted : Sorted entries)
    (hfound : lookup key entries = some entry) :
    table.bloomFilter.mightContain parameters key = true ∧ ¬ (key < table.minKey ∨ table.maxKey < key) := by
  obtain ⟨hmem, rfl⟩ := lookup_eq_some hfound
  obtain ⟨first, hfirst, hminKey⟩ := h.first
  obtain ⟨last, hlast, hmaxKey⟩ := h.last
  obtain ⟨i, hi⟩ := mem_iff_getElem?.mp hmem
  rw [getLast?_eq_getElem?] at hlast
  refine ⟨h.bloom entry hmem, ?_⟩
  rintro (hlt | hlt)
  · rw [hminKey] at hlt
    rcases Nat.eq_zero_or_pos i with rfl | hpos
    · rw [hfirst] at hi
      cases hi
      exact lt_irrefl _ hlt
    · exact lt_asymm hlt (hsorted.key_lt hpos hfirst hi)
  · rw [hmaxKey] at hlt
    have hle : i ≤ entries.length - 1 := Nat.le_sub_one_of_lt (List.getElem?_eq_some_iff.mp hi).1
    rcases Nat.eq_or_lt_of_le hle with rfl | hbefore
    · rw [hi] at hlast
      cases hlast
      exact lt_irrefl _ hlt
    · exact lt_asymm hlt (hsorted.key_lt hbefore hi hlast)

theorem SSTableFile.get_eq (h : Built parameters entries table) (hsorted : Sorted entries) (key : String) :
    table.get parameters key = (lookup key entries).map readBack := by
  unfold SSTableFile.get
  split
  · rename_i hdenied
    cases hfound : lookup key entries with
    | none => rfl
    | some entry => exact absurd (passes_of_lookup h hsorted hfound).1 hdenied
  · split
    · rename_i hrange
      cases hfound : lookup key entries with
      | none => rfl
      | some entry => exact absurd hrange (passes_of_lookup h hsorted hfound).2
    · rename_i hrange
      obtain ⟨start, stop, hle, heq, hlookup⟩ := findScanRange_spec h hsorted fun hlt => hrange (.inl hlt)
      have htake : entries.take stop = entries.take start ++ (entries.take stop).drop start := by
        conv => lhs; rw [← take_append_drop start (entries.take stop), take_take, Nat.min_eq_left hle]
      have hsub : ((entries.take stop).drop start).Sublist entries := (drop_sublist _ _).trans (take_sublist _ _)
      have hblock : table.rawData.take table.dataBlockSize
          = blockOf (entries.take start ++ ((entries.take stop).drop start ++ entries.drop stop)) := by
        rw [← append_assoc, ← htake, take_append_drop]
        exact h.block
      have hscan := scanDataBlock_eq hblock (fun entry hentry => h.packable entry (hsub.subset hentry))
        (hsorted.sublist hsub) key
      rw [← htake] at hscan
      rw [heq, hlookup]
      exact hscan

/-- A built table answers every key as a search through its entries does, up to how an entry is read back. Entries
that have no value exactly as tombstones, as the memtable's do, come back as they are. -/
theorem sstable_get (h : build parameters behind entries = .ok table) (hsorted : Sorted entries) (key : String) :
    table.get parameters key = (lookup key entries).map readBack ∧
      ((∀ entry ∈ entries, entry.value = none ↔ entry.isTombstone = true) →
        table.get parameters key = lookup key entries) := by
  have hget := SSTableFile.get_eq (built_of_build h) hsorted key
  refine ⟨hget, fun hvalues => ?_⟩
  rw [hget]
  cases hfound : lookup key entries with
  | none => rfl
  | some entry => exact congrArg some (readBack_eq (hvalues entry (lookup_eq_some hfound).1))

/-- An empty value and a tombstone; a key between them is not found. -/
theorem sstable_get_two :
    let parameters : BloomParameters := ⟨fun _ => [], fun items => 10 * items, fun _ _ => 7⟩
    let entries : List (Entry UInt64) := [⟨"a", some [], 0, false⟩, ⟨"c", none, 1, true⟩]
    ∃ table, build parameters [] entries = .ok table ∧ table.get parameters "a" = some ⟨"a", some [], 0, false⟩ ∧
      table.get parameters "c" = some ⟨"c", none, 1, true⟩ ∧ table.get parameters "b" = none := by
  intro parameters entries
  have hpackable : ∀ entry ∈ entries, Packable entry := by decide
  have hsorted : Sorted entries := by
    unfold Sorted
    decide
  have hvalues : ∀ entry ∈ entries, entry.value = none ↔ entry.isTombstone = true := by decide
  obtain ⟨table, htable⟩ : ∃ table, build parameters [] entries = .ok table :=
    build_of_packable (cons_ne_nil _ _) hpackable
  exact ⟨table, htable, ((sstable_get htable hsorted "a").2 hvalues).trans (by decide),
    ((sstable_get htable hsorted "c").2 hvalues).trans (by decide),
    ((sstable_get htable hsorted "b").2 hvalues).trans (by decide)⟩

end SystemDesign.KvStorage
