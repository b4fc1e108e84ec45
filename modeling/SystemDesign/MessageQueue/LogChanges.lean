import SystemDesign.MessageQueue.Layout

/-!
What appending, truncating and deleting files leave of a layout.
-/

namespace SystemDesign.MessageQueue.Partition

open List hiding le_refl le_trans lt_irrefl lt_trans not_le not_lt
open Locked

variable {log : PartitionLog} {layout : Layout}

/-- The log holds the layout. A file is named by a number that none of its records is below, and the records from the
base on form a chain that ends before the next offset. -/
structure Consistent (layout : Layout) (log : PartitionLog) : Prop where
  files : log.segments = filesOf layout
  chained : Chained log.manifest.base log.manifest.baseHash (liveValues log.manifest.base layout)
  entries : log.entries = noted (live log.manifest.base (rowsOf layout))
  next : log.nextOffset = log.manifest.base + (liveValues log.manifest.base layout).length
  committed_lt : log.manifest.committed < log.nextOffset
  base_le : log.manifest.base ≤ log.manifest.committed + 1
  ordered : (layout.map Prod.fst).Pairwise (· < ·)
  named : ∀ file ∈ layout, file.1 ≤ log.nextOffset ∧ ∀ stored ∈ file.2, file.1 ≤ stored.value.offset

theorem Consistent.row_lt (h : Consistent layout log) {row : Row} (hrow : row ∈ rowsOf layout) :
    row.2.2.value.offset < log.nextOffset := by
  by_cases hlive : log.manifest.base ≤ row.2.2.value.offset
  · have hmem : row ∈ live log.manifest.base (rowsOf layout) := mem_filter.mpr ⟨hrow, decide_eq_true hlive⟩
    have := (h.chained.offset_ge (mem_map_of_mem hmem)).2
    rw [h.next]
    exact this
  · have := h.next
    omega

theorem mem_rowsOf_of_mem {file : ℤ × List Stored} {stored : Stored} (hfile : file ∈ layout) (hmem : stored ∈ file.2) :
    ∃ row ∈ rowsOf layout, row.2.2 = stored ∧ row.1 = file.1 := by
  have hrows (position : ℕ) (records : List Stored) (hstored : stored ∈ records) :
      ∃ row ∈ rowsFrom file.1 position records, row.2.2 = stored ∧ row.1 = file.1 := by
    induction records generalizing position with
    | nil => exact absurd hstored not_mem_nil
    | cons first records ih =>
      rcases mem_cons.mp hstored with rfl | hstored
      · exact ⟨_, mem_cons_self, rfl, rfl⟩
      · obtain ⟨row, hrow, heq⟩ := ih (position + first.size) hstored
        exact ⟨row, mem_cons_of_mem _ hrow, heq⟩
  obtain ⟨row, hrow, heq⟩ := hrows 0 file.2 hmem
  exact ⟨row, mem_flatMap.mpr ⟨file, hfile, hrow⟩, heq⟩

/-! ### Hashes -/

theorem lastHash_take_succ (previous : String) {values : List Envelope} {k : ℕ} (hk : k < values.length) :
    lastHash previous (values.take (k + 1)) = values[k].hash := by
  rw [take_succ_eq_append_getElem hk, lastHash_append]
  rfl

theorem Chained.offset_getElem {offset : ℤ} {previous : String} {values : List Envelope}
    (h : Chained offset previous values) {k : ℕ} (hk : k < values.length) : values[k].offset = offset + k := by
  have hsplit : values = values.take k ++ values[k] :: values.drop (k + 1) := by
    rw [← drop_eq_getElem_cons hk, take_append_drop]
  rw [hsplit] at h
  have := h.offset_of_split
  rwa [length_take_of_le hk.le] at this

/-- The index finds the entries of the offsets between the base and the next one. -/
theorem Consistent.get?_entries (h : Consistent layout log) {k : ℕ}
    (hk : k < (live log.manifest.base (rowsOf layout)).length) :
    log.entries.get? (log.manifest.base + k) = some (Row.entry (live log.manifest.base (rowsOf layout))[k]) := by
  have hk' : k < (valuesOf (live log.manifest.base (rowsOf layout))).length := by rwa [valuesOf, length_map]
  have hoffset := h.chained.offset_getElem hk'
  have hvalue : (liveValues log.manifest.base layout)[k].offset
      = (live log.manifest.base (rowsOf layout))[k].2.2.value.offset := by simp [liveValues, valuesOf]
  rw [h.entries, ← hoffset, hvalue]
  exact get?_noted h.chained (getElem_mem hk)

theorem Consistent.hashAt_eq (h : Consistent layout log) {k : ℕ} (hk : k ≤ (liveValues log.manifest.base layout).length) :
    log.hashAt (log.manifest.base + k - 1)
      = some (lastHash log.manifest.baseHash ((liveValues log.manifest.base layout).take k)) := by
  unfold PartitionLog.hashAt
  cases k with
  | zero => rw [if_pos (by push_cast; ring)]; rfl
  | succ k =>
    have hlt : k < (live log.manifest.base (rowsOf layout)).length := by
      rw [liveValues, valuesOf, length_map] at hk
      exact hk
    rw [if_neg (by push_cast; omega), lastHash_take_succ _ hk,
      show log.manifest.base + ((k + 1 : ℕ) : ℤ) - 1 = log.manifest.base + k by push_cast; ring,
      h.get?_entries hlt]
    simp [liveValues, valuesOf, Row.entry, entryOf]

/-- A hash that is known is one of the chain's. -/
theorem Consistent.of_hashAt (h : Consistent layout log) {offset : ℤ} {hash : String}
    (hhash : log.hashAt offset = some hash) :
    ∃ k ≤ (liveValues log.manifest.base layout).length, offset = log.manifest.base + k - 1 ∧
      hash = lastHash log.manifest.baseHash ((liveValues log.manifest.base layout).take k) := by
  have hbound : ∃ k ≤ (liveValues log.manifest.base layout).length, offset = log.manifest.base + (k : ℕ) - 1 := by
    unfold PartitionLog.hashAt at hhash
    split at hhash
    · rename_i heq
      exact ⟨0, Nat.zero_le _, by push_cast; omega⟩
    · obtain ⟨entry, hentry, -⟩ := Option.map_eq_some_iff.mp hhash
      rw [h.entries] at hentry
      obtain ⟨row, hrow, rfl, -⟩ := mem_of_get?_noted hentry
      have hge := h.chained.offset_ge (mem_map_of_mem hrow)
      refine ⟨(row.2.2.value.offset - log.manifest.base + 1).toNat, ?_, ?_⟩
      · have hlength : (liveValues log.manifest.base layout).length
            = (valuesOf (live log.manifest.base (rowsOf layout))).length := rfl
        rw [hlength]
        omega
      · omega
  obtain ⟨k, hk, rfl⟩ := hbound
  rw [h.hashAt_eq hk] at hhash
  exact ⟨k, hk, rfl, (Option.some.inj hhash).symm⟩

/-! ### Appending -/

theorem appendFile_append {path : ℤ} {data : Bytes} {files : List (ℤ × Bytes)} (h : ∀ file ∈ files, file.1 < path)
    (tail : List (ℤ × Bytes)) : appendFile path data (files ++ tail) = files ++ appendFile path data tail := by
  induction files with
  | nil => rfl
  | cons file files ih =>
    have hlt := h file mem_cons_self
    rw [cons_append, appendFile, if_neg (not_lt.mpr hlt.le), if_neg (ne_of_gt hlt),
      ih fun other hother => h other (mem_cons_of_mem _ hother)]
    rfl

theorem mem_filesOf {file : ℤ × Bytes} (h : file ∈ filesOf layout) : ∃ f ∈ layout, file.1 = f.1 := by
  obtain ⟨f, hf, rfl⟩ := mem_map.mp h
  exact ⟨f, hf, rfl⟩

/-- A row behind the last one, in a layout that has it there. -/
theorem Consistent.writeRow (h : Consistent layout log) (row : Row) {layout' : Layout}
    (hoffset : row.2.2.value.offset = log.nextOffset)
    (hprevious : row.2.2.value.previous = lastHash log.manifest.baseHash (liveValues log.manifest.base layout))
    (hfiles : appendFile row.1 (frame row.2.2.payload) log.segments = filesOf layout')
    (hrows : rowsOf layout' = rowsOf layout ++ [row]) (hordered : (layout'.map Prod.fst).Pairwise (· < ·))
    (hnamed : ∀ file ∈ layout', file.1 ≤ log.nextOffset ∧ ∀ stored ∈ file.2, file.1 ≤ stored.value.offset) :
    Consistent layout' (writeRow log row) ∧
      liveValues log.manifest.base layout' = liveValues log.manifest.base layout ++ [row.2.2.value] := by
  have hnext := h.next
  have hlive : live log.manifest.base (rowsOf layout') = live log.manifest.base (rowsOf layout) ++ [row] := by
    rw [hrows, live_append]
    congr 1
    exact filter_cons_of_pos (by rw [decide_eq_true_eq]; omega)
  have hvalues : liveValues log.manifest.base layout' = liveValues log.manifest.base layout ++ [row.2.2.value] := by
    unfold liveValues
    rw [hlive, valuesOf, map_append]
    rfl
  refine
    ⟨{ files := hfiles
       chained := ?_
       entries := ?_
       next := ?_
       committed_lt := lt_trans h.committed_lt (Int.lt_succ _)
       base_le := h.base_le
       ordered := hordered
       named := fun file hfile => ⟨le_trans (hnamed file hfile).1 (Int.le_of_lt (Int.lt_succ _)),
        (hnamed file hfile).2⟩ }, hvalues⟩
  · show Chained log.manifest.base log.manifest.baseHash (liveValues log.manifest.base layout')
    rw [hvalues, chained_append]
    exact ⟨h.chained, by rw [hoffset, hnext], hprevious, trivial⟩
  · show log.entries.insert row.2.2.value.offset (Row.entry row) = noted (live log.manifest.base (rowsOf layout'))
    rw [hlive, noted_append, h.entries]
    rfl
  · show log.nextOffset + 1 = log.manifest.base + (liveValues log.manifest.base layout').length
    rw [hvalues, length_append, length_singleton, hnext]
    push_cast
    ring

/-- Where the next records are placed. -/
def placed (log : PartitionLog) (prepared : List Stored) : List Row :=
  placeRows log.segmentBytes (log.segments.getLast?.map Prod.fst)
    ((log.segments.getLast?.map fun file => file.2.length).getD 0) prepared

theorem placed_of_last {path : ℤ} {data : Bytes} (h : log.segments.getLast? = some (path, data))
    (prepared : List Stored) : placed log prepared = placeRows log.segmentBytes (some path) data.length prepared := by
  rw [placed, h]
  rfl

theorem getLast?_filesOf (init : Layout) (path : ℤ) (records : List Stored) :
    (filesOf (init ++ [(path, records)])).getLast? = some (path, fileOf records) := by
  rw [filesOf_append]
  exact getLast?_concat

theorem fileOf_append (front back : List Stored) : fileOf (front ++ back) = fileOf front ++ fileOf back :=
  flatMap_append

theorem fileOf_singleton (stored : Stored) : fileOf [stored] = frame stored.payload := by simp [fileOf]

/-- The first record goes behind the last one, and the others go behind it. -/
theorem Consistent.place (h : Consistent layout log) {stored : Stored} (hoffset : stored.value.offset = log.nextOffset)
    (hprevious : stored.value.previous = lastHash log.manifest.baseHash (liveValues log.manifest.base layout)) :
    ∃ row layout', (∀ rest, placed log (stored :: rest) = row :: placed (Partition.writeRow log row) rest) ∧
      Consistent layout' (Partition.writeRow log row) ∧
      liveValues log.manifest.base layout' = liveValues log.manifest.base layout ++ [stored.value] := by
  have hsize : (fileOf [stored]).length = stored.size := by rw [fileOf_singleton, length_frame]
  rcases eq_nil_or_concat layout with rfl | ⟨init, ⟨path, records⟩, rfl⟩
  · -- the first file
    have hfiles : appendFile log.nextOffset (frame stored.payload) log.segments
        = filesOf [(log.nextOffset, [stored])] := by
      rw [h.files]
      simp [filesOf, appendFile, fileOf_singleton]
    obtain ⟨hconsistent, hvalues⟩ := h.writeRow (log.nextOffset, 0, stored) hoffset hprevious hfiles
      (by simp [rowsOf, rowsFrom])
      (pairwise_singleton _ _) (by
        intro file hfile
        obtain rfl := mem_singleton.mp hfile
        exact ⟨Int.le_refl _, fun other hother => by rw [mem_singleton.mp hother, hoffset]⟩)
    have hnew : (Partition.writeRow log (log.nextOffset, 0, stored)).segments.getLast?
        = some (log.nextOffset, fileOf [stored]) := by
      rw [hconsistent.files]
      exact getLast?_filesOf [] _ _
    refine ⟨_, _, fun rest => ?_, hconsistent, hvalues⟩
    rw [placed_of_last hnew, placed, h.files]
    show placeRows log.segmentBytes none 0 (stored :: rest) = _
    rw [placeRows, hoffset, hsize]
    rfl
  · rw [concat_eq_append] at *
    have hinit : ∀ file ∈ filesOf init, file.1 < path := by
      intro file hfile
      obtain ⟨f, hf, heq⟩ := mem_filesOf hfile
      have hordered := h.ordered
      rw [map_append, pairwise_append] at hordered
      rw [heq]
      exact hordered.2.2 f.1 (mem_map_of_mem hf) path mem_cons_self
    have hpath := (h.named (path, records) (mem_append_right _ mem_cons_self)).1
    have hbehind : ∀ file ∈ init ++ [(path, records ++ [stored])],
        file.1 ≤ log.nextOffset ∧ ∀ other ∈ file.2, file.1 ≤ other.value.offset := by
      intro file hfile
      rcases mem_append.mp hfile with hfile | hfile
      · exact h.named file (mem_append_left _ hfile)
      · obtain rfl := mem_singleton.mp hfile
        refine ⟨hpath, fun other hother => ?_⟩
        rcases mem_append.mp hother with hother | hother
        · exact (h.named (path, records) (mem_append_right _ mem_cons_self)).2 other hother
        · rw [mem_singleton.mp hother, hoffset]
          exact hpath
    have hsame : ((init ++ [(path, records ++ [stored])]).map Prod.fst).Pairwise (· < ·) := by
      have hordered := h.ordered
      rwa [map_append] at hordered ⊢
    have happend : appendFile path (frame stored.payload) log.segments
        = filesOf (init ++ [(path, records ++ [stored])]) := by
      rw [h.files, filesOf_append, appendFile_append hinit, filesOf_append]
      simp only [filesOf, map_singleton, appendFile, lt_irrefl, if_false, if_true, fileOf_append, fileOf_singleton]
    have hrows : rowsOf (init ++ [(path, records ++ [stored])])
        = rowsOf (init ++ [(path, records)]) ++ [(path, (fileOf records).length, stored)] := by
      rw [rowsOf_append, rowsOf_append, rowsOf_singleton, rowsOf_singleton, rowsFrom_append, Nat.zero_add, append_assoc]
      rfl
    have hlast : log.segments.getLast? = some (path, fileOf records) := by rw [h.files, getLast?_filesOf]
    by_cases hfits : (fileOf records).length + stored.size > log.segmentBytes
    · rcases Int.lt_or_eq_of_le hpath with hlt | heq
      · -- a new file behind the last one
        have hall : ∀ file ∈ filesOf (init ++ [(path, records)]), file.1 < log.nextOffset := by
          intro file hfile
          rw [filesOf_append] at hfile
          rcases mem_append.mp hfile with hfile | hfile
          · exact lt_trans (hinit file hfile) hlt
          · obtain rfl := mem_singleton.mp hfile
            exact hlt
        have hfiles : appendFile log.nextOffset (frame stored.payload) log.segments
            = filesOf (init ++ [(path, records)] ++ [(log.nextOffset, [stored])]) := by
          rw [h.files, ← append_nil (filesOf (init ++ [(path, records)])), appendFile_append hall,
            filesOf_append (init ++ [(path, records)])]
          simp [appendFile, filesOf, fileOf_singleton]
        obtain ⟨hconsistent, hvalues⟩ := h.writeRow (log.nextOffset, 0, stored) hoffset hprevious hfiles
          (by rw [rowsOf_append, rowsOf_singleton]; rfl)
          (by
            rw [map_append, pairwise_append]
            refine ⟨h.ordered, pairwise_singleton _ _, fun a ha b hb => ?_⟩
            obtain rfl := mem_singleton.mp hb
            obtain ⟨f, hf, rfl⟩ := mem_map.mp ha
            exact hall (f.1, fileOf f.2) (mem_map_of_mem hf))
          (by
            intro file hfile
            rcases mem_append.mp hfile with hfile | hfile
            · exact h.named file hfile
            · obtain rfl := mem_singleton.mp hfile
              exact ⟨Int.le_refl _, fun other hother => by rw [mem_singleton.mp hother, hoffset]⟩)
        have hnew : (Partition.writeRow log (log.nextOffset, 0, stored)).segments.getLast?
            = some (log.nextOffset, fileOf [stored]) := by
          rw [hconsistent.files]
          exact getLast?_filesOf _ _ _
        refine ⟨_, _, fun rest => ?_, hconsistent, hvalues⟩
        rw [placed_of_last hnew, placed_of_last hlast, placeRows, if_pos hfits, hoffset, hsize]
        rfl
      · -- the last file has the next offset's name, so it is empty
        have hempty : records = [] := by
          refine eq_nil_iff_forall_not_mem.mpr fun other hother => ?_
          have hfile : (path, records) ∈ init ++ [(path, records)] := mem_append_right _ mem_cons_self
          obtain ⟨row, hrow, hstored, -⟩ := mem_rowsOf_of_mem hfile hother
          have hrowlt := h.row_lt hrow
          have hge := (h.named _ hfile).2 other hother
          rw [hstored] at hrowlt
          omega
        subst hempty
        obtain ⟨hconsistent, hvalues⟩ := h.writeRow (path, 0, stored) hoffset hprevious happend hrows hsame hbehind
        have hnew : (Partition.writeRow log (path, 0, stored)).segments.getLast? = some (path, fileOf [stored]) := by
          rw [hconsistent.files]
          exact getLast?_filesOf _ _ _
        refine ⟨_, _, fun rest => ?_, hconsistent, hvalues⟩
        rw [placed_of_last hnew, placed_of_last hlast, placeRows, if_pos hfits, hoffset, ← heq, hsize]
        rfl
    · obtain ⟨hconsistent, hvalues⟩ := h.writeRow (path, (fileOf records).length, stored) hoffset hprevious
        happend hrows hsame hbehind
      have hnew : (Partition.writeRow log (path, (fileOf records).length, stored)).segments.getLast?
          = some (path, fileOf (records ++ [stored])) := by
        rw [hconsistent.files]
        exact getLast?_filesOf _ _ _
      refine ⟨_, _, fun rest => ?_, hconsistent, hvalues⟩
      rw [placed_of_last hnew, placed_of_last hlast, placeRows, if_neg hfits, fileOf_append, length_append, hsize]
      rfl

/-- Prepared records go behind the last one. -/
theorem Consistent.appended (h : Consistent layout log) {prepared : List Stored}
    (hchain : Chained log.nextOffset (lastHash log.manifest.baseHash (liveValues log.manifest.base layout))
      (prepared.map Stored.value)) :
    ∃ layout', Consistent layout' (appendPrepared prepared log) ∧
      (appendPrepared prepared log).manifest = log.manifest ∧ (appendPrepared prepared log).failed = log.failed ∧
      liveValues log.manifest.base layout' = liveValues log.manifest.base layout ++ prepared.map Stored.value := by
  have heq (log : PartitionLog) (prepared : List Stored) :
      appendPrepared prepared log = (placed log prepared).foldl Partition.writeRow log := rfl
  induction prepared generalizing log layout with
  | nil => exact ⟨layout, h, rfl, rfl, by simp⟩
  | cons stored prepared ih =>
    obtain ⟨hoffset, hprevious, hrest⟩ := hchain
    obtain ⟨row, layout', hplaced, hconsistent, hvalues⟩ := h.place hoffset hprevious
    have hmanifest : (Partition.writeRow log row).manifest = log.manifest := rfl
    obtain ⟨final, hfinal, hm, hf, hlast⟩ := ih hconsistent (by
      rw [hmanifest, hvalues, lastHash_append]
      exact hrest)
    rw [heq, hplaced, foldl_cons, ← heq]
    refine ⟨final, hfinal, hm, hf, ?_⟩
    rw [hmanifest] at hlast
    rw [hlast, hvalues, append_assoc]
    rfl

/-! ### Truncating -/

/-- The files named below, at and above a number, in a layout in order. -/
theorem truncateAt_filesOf {init tail : Layout} {path : ℤ} {front back : List Stored} (entry : Entry)
    (hpath : entry.path = path) (hposition : entry.position = (fileOf front).length)
    (hordered : ((init ++ (path, front ++ back) :: tail).map Prod.fst).Pairwise (· < ·)) :
    truncateAt entry (filesOf (init ++ (path, front ++ back) :: tail)) = filesOf (init ++ [(path, front)]) := by
  rw [map_append, map_cons, pairwise_append, pairwise_cons] at hordered
  obtain ⟨-, ⟨htail, -⟩, hinit⟩ := hordered
  have hbelow : ∀ file ∈ filesOf init, file.1 < path := by
    intro file hfile
    obtain ⟨f, hf, heq⟩ := mem_filesOf hfile
    rw [heq]
    exact hinit f.1 (mem_map_of_mem hf) path mem_cons_self
  have habove : ∀ file ∈ filesOf tail, path < file.1 := by
    intro file hfile
    obtain ⟨f, hf, heq⟩ := mem_filesOf hfile
    rw [heq]
    exact htail f.1 (mem_map_of_mem hf)
  have hkeepInit : (filesOf init).filter (fun file => file.1 ≤ path) = filesOf init :=
    filter_eq_self.mpr fun file hfile => decide_eq_true (hbelow file hfile).le
  have hdropTail : (filesOf tail).filter (fun file => file.1 ≤ path) = [] :=
    filter_eq_nil_iff.mpr fun file hfile => by
      rw [decide_eq_true_eq]
      exact not_le.mpr (habove file hfile)
  have hmapInit : (filesOf init).map (fun file =>
    if file.1 = path then (file.1, file.2.take entry.position) else file) = filesOf init := by
    conv => rhs; rw [← List.map_id (filesOf init)]
    refine map_congr_left fun file hfile => ?_
    rw [if_neg (ne_of_lt (hbelow file hfile))]
    rfl
  have hsplit : filesOf (init ++ (path, front ++ back) :: tail)
      = filesOf init ++ ((path, fileOf (front ++ back)) :: filesOf tail) := by
    rw [filesOf_append]
    rfl
  have hkeep : ((path, fileOf (front ++ back)) :: filesOf tail).filter (fun file => file.1 ≤ path)
      = [(path, fileOf (front ++ back))] := by
    rw [filter_cons, if_pos (decide_eq_true (le_refl path)), hdropTail]
  rw [truncateAt, hpath, hsplit, filter_append, hkeepInit, hkeep, map_append, hmapInit, filesOf_append,
    map_singleton, if_pos rfl, fileOf_append, hposition, take_left]
  rfl

/-- The suffix from an offset on is cut off: its entry names the file that is truncated. -/
theorem Consistent.truncated (h : Consistent layout log) {cutoff : ℤ} (hbase : log.manifest.base ≤ cutoff)
    (hlt : cutoff < log.nextOffset) : ∃ entry layout', log.entries.get? cutoff = some entry ∧
      truncateAt entry log.segments = filesOf layout' ∧
      liveValues log.manifest.base layout'
        = (liveValues log.manifest.base layout).take (cutoff - log.manifest.base).toNat ∧
      (layout'.map Prod.fst).Pairwise (· < ·) ∧
      ∀ file ∈ layout', file.1 ≤ cutoff ∧ ∀ stored ∈ file.2, file.1 ≤ stored.value.offset := by
  have hlength : (liveValues log.manifest.base layout).length = (live log.manifest.base (rowsOf layout)).length :=
    length_map ..
  have hnext := h.next
  obtain ⟨k, rfl⟩ : ∃ k : ℕ, cutoff = log.manifest.base + k := ⟨(cutoff - log.manifest.base).toNat, by omega⟩
  have hk : k < (live log.manifest.base (rowsOf layout)).length := by omega
  have hentry := h.get?_entries hk
  have hmem : (live log.manifest.base (rowsOf layout))[k] ∈ rowsOf layout := (mem_filter.mp (getElem_mem hk)).1
  have hoffset : (live log.manifest.base (rowsOf layout))[k].2.2.value.offset = log.manifest.base + k := by
    have hk' : k < (liveValues log.manifest.base layout).length := by omega
    have := h.chained.offset_getElem hk'
    rwa [show (liveValues log.manifest.base layout)[k]
      = (live log.manifest.base (rowsOf layout))[k].2.2.value by simp [liveValues, valuesOf]] at this
  generalize (live log.manifest.base (rowsOf layout))[k] = row at hentry hmem hoffset
  obtain ⟨init, path, front, back, tail, rfl, hrow⟩ := mem_rowsOf hmem
  have hpath : (Row.entry row).path = path := by rw [hrow]; rfl
  have hposition : (Row.entry row).position = (fileOf front).length := by rw [hrow]; rfl
  have hordered := h.ordered
  have hfile := h.named (path, front ++ row.2.2 :: back) (mem_append_right _ mem_cons_self)
  have hpathle : path ≤ log.manifest.base + k := hoffset ▸ hfile.2 row.2.2 (mem_append_right _ mem_cons_self)
  refine ⟨Row.entry row, init ++ [(path, front)], hentry, ?_, ?_, ?_, ?_⟩
  · rw [h.files]
    exact truncateAt_filesOf _ hpath hposition hordered
  · -- the rows before the one cut off are as many as the offsets before it
    have hrows : rowsOf (init ++ (path, front ++ row.2.2 :: back) :: tail)
        = rowsOf (init ++ [(path, front)]) ++ row :: (rowsFrom path ((fileOf front).length + row.2.2.size) back
          ++ rowsOf tail) := by
      rw [rowsOf_append, rowsOf_append, rowsOf_singleton, append_assoc]
      show rowsOf init ++ (rowsFrom path 0 (front ++ row.2.2 :: back) ++ rowsOf tail) = _
      rw [rowsFrom_append, Nat.zero_add, rowsFrom, append_assoc, cons_append, ← hrow]
    have hkeep : log.manifest.base ≤ row.2.2.value.offset := by omega
    have hvalues : ∃ rest, liveValues log.manifest.base (init ++ (path, front ++ row.2.2 :: back) :: tail)
        = liveValues log.manifest.base (init ++ [(path, front)]) ++ row.2.2.value :: rest := by
      unfold liveValues
      rw [hrows, live_append]
      have hcons (rows : List Row) : live log.manifest.base (row :: rows) = row :: live log.manifest.base rows :=
        filter_cons_of_pos (decide_eq_true hkeep)
      rw [hcons, valuesOf, map_append, map_cons]
      exact ⟨_, rfl⟩
    obtain ⟨rest, hvalues⟩ := hvalues
    have hchained := h.chained
    rw [hvalues] at hchained ⊢
    have := hchained.offset_of_split
    rw [take_left' (by omega)]
  · rw [map_append, map_cons] at hordered
    rw [map_append, map_singleton]
    refine hordered.sublist ((Sublist.refl _).append ?_)
    exact singleton_sublist.mpr mem_cons_self
  · intro file hmemFile
    rcases mem_append.mp hmemFile with hinit | hlast
    · refine ⟨?_, (h.named file (mem_append_left _ hinit)).2⟩
      rw [map_append, map_cons, pairwise_append] at hordered
      exact le_trans (hordered.2.2 file.1 (mem_map_of_mem hinit) path mem_cons_self).le hpathle
    · obtain rfl := mem_singleton.mp hlast
      exact ⟨hpathle, fun stored hstored => hfile.2 stored (mem_append_left _ hstored)⟩

/-! ### Retaining -/

theorem live_filter {layout : Layout} {base : ℤ} {keep : ℤ × List Stored → Bool}
    (h : ∀ file ∈ layout, keep file = false → ∀ stored ∈ file.2, stored.value.offset < base) :
    live base (rowsOf (layout.filter keep)) = live base (rowsOf layout) := by
  induction layout with
  | nil => rfl
  | cons file layout ih =>
    have hrest := ih fun other hother => h other (mem_cons_of_mem _ hother)
    have hcons : rowsOf (file :: layout) = rowsFrom file.1 0 file.2 ++ rowsOf layout := rfl
    cases hkeep : keep file with
    | true =>
      rw [filter_cons_of_pos hkeep, hcons]
      show live base (rowsFrom file.1 0 file.2 ++ rowsOf (layout.filter keep)) = _
      rw [live_append, live_append, hrest]
    | false =>
      have hnone : live base (rowsFrom file.1 0 file.2) = [] := by
        refine filter_eq_nil_iff.mpr fun row hrow => ?_
        obtain ⟨front, back, hrecords, -⟩ := mem_rowsFrom hrow
        have := h file mem_cons_self hkeep row.2.2 (hrecords ▸ mem_append_right _ mem_cons_self)
        rw [decide_eq_true_eq]
        omega
      rw [filter_cons_of_neg (by rw [hkeep]; exact Bool.false_ne_true), hrest, hcons, live_append, hnone]
      rfl

/-- The files that are kept are those of a layout with the same records from the new base on. -/
theorem Consistent.retained (h : Consistent layout log) {base : ℤ} (hbase : log.manifest.base ≤ base) :
    ∃ layout', keepNeeded base log.entries log.segments = filesOf layout' ∧
      liveValues base layout' = (liveValues log.manifest.base layout).drop (base - log.manifest.base).toNat ∧
      layout'.Sublist layout := by
  have hdrop : liveValues base layout
      = (liveValues log.manifest.base layout).drop (base - log.manifest.base).toNat := by
    rw [← h.chained.filter_eq_drop hbase]
    unfold liveValues valuesOf live
    rw [filter_map, filter_filter]
    congr 1
    refine filter_congr fun row _ => ?_
    rw [Function.comp_apply, Bool.eq_iff_iff, Bool.and_eq_true, decide_eq_true_eq, decide_eq_true_eq]
    omega
  have hneeded : ∀ file ∈ layout, (log.entries.entries.any fun e =>
    decide (base ≤ e.1) && decide (e.2.path = file.1)) = false → ∀ stored ∈ file.2, stored.value.offset < base := by
    intro file hfile hnot stored hstored
    by_contra hge
    obtain ⟨row, hrow, hsame, hpath⟩ := mem_rowsOf_of_mem hfile hstored
    have hge : base ≤ row.2.2.value.offset := by rw [hsame]; omega
    have hlive : row ∈ live log.manifest.base (rowsOf layout) :=
      mem_filter.mpr ⟨hrow, decide_eq_true (le_trans hbase hge)⟩
    have hget : log.entries.get? row.2.2.value.offset = some (Row.entry row) := by
      rw [h.entries]
      exact get?_noted h.chained hlive
    have hany := any_eq_false.mp hnot _ (SortedMap.mem_entries.mpr hget)
    exact hany (by rw [decide_eq_true hge, Bool.true_and]; exact decide_eq_true hpath)
  rcases eq_nil_or_concat layout with rfl | ⟨init, last, rfl⟩
  · exact ⟨[], by rw [h.files]; rfl, hdrop, Sublist.refl _⟩
  · rw [concat_eq_append] at *
    refine ⟨init.filter (fun file => log.entries.entries.any fun e =>
      decide (base ≤ e.1) && decide (e.2.path = file.1)) ++ [last], ?_, ?_, ?_⟩
    · rw [h.files, keepNeeded, filesOf_append]
      show (List.dropLast (filesOf init ++ [(last.1, fileOf last.2)])).filter _
        ++ (List.getLast? (filesOf init ++ [(last.1, fileOf last.2)])).toList = _
      rw [dropLast_concat, getLast?_concat, filesOf_append]
      congr 1
      unfold filesOf
      rw [filter_map]
      rfl
    · rw [← hdrop]
      unfold liveValues
      rw [rowsOf_append, rowsOf_append, live_append, live_append, live_filter fun file hfile =>
        hneeded file (mem_append_left _ hfile)]
    · exact filter_sublist.append (Sublist.refl _)

end SystemDesign.MessageQueue.Partition
