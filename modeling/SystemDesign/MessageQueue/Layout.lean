import SystemDesign.MessageQueue.Log

/-!
The layout of a partition's files.

`Layout` lists the segment files with the records in them. `Consistent` says that the files hold such a layout, that
the records from the base on are linked to each other and to the base, and that the index is the one of these records.
Scanning a consistent log changes nothing (`scan_exec`), appending puts records behind the last one
(`Consistent.appended`), and truncating and deleting files leave consistent logs again (`Consistent.truncated`,
`Consistent.retained`).
-/

namespace SystemDesign.MessageQueue.Partition

open List hiding lt_of_le_of_lt not_le not_lt
open Locked

/-! ### Frames -/

theorem length_frame (stored : Stored) : (frame stored.payload).length = stored.size := by
  simp only [frame, magic, Stored.size, headerSize, length_append, Sha256.bigEndian_length, length_cons, length_nil]
  omega

theorem readFrame_frame (stored : Stored) (rest : Bytes) :
    readFrame (frame stored.payload ++ rest) = .frame stored.payload rest := by
  obtain ⟨hpos, hle⟩ := stored.bounded
  have hsize : stored.payload.length < 256 ^ 4 := lt_of_le_of_lt hle (by decide)
  have hcrc : Crc32.crc32 stored.payload < 256 ^ 4 := Crc32.crc32_lt _
  have hsplit : frame stored.payload ++ rest
      = (magic ++ (Sha256.bigEndian 4 stored.payload.length ++ Sha256.bigEndian 4 (Crc32.crc32 stored.payload)))
        ++ (stored.payload ++ rest) := by
    simp only [frame, append_assoc]
  have hheader : (magic ++ (Sha256.bigEndian 4 stored.payload.length
      ++ Sha256.bigEndian 4 (Crc32.crc32 stored.payload))).length = headerSize := by
    simp only [magic, headerSize, length_append, Sha256.bigEndian_length, length_cons, length_nil]
  have hdrop4 : (magic ++ (Sha256.bigEndian 4 stored.payload.length
      ++ Sha256.bigEndian 4 (Crc32.crc32 stored.payload))).drop 4
      = Sha256.bigEndian 4 stored.payload.length ++ Sha256.bigEndian 4 (Crc32.crc32 stored.payload) := rfl
  have hdrop8 : (magic ++ (Sha256.bigEndian 4 stored.payload.length
      ++ Sha256.bigEndian 4 (Crc32.crc32 stored.payload))).drop 8
      = Sha256.bigEndian 4 (Crc32.crc32 stored.payload) := rfl
  have htake4 : (magic ++ (Sha256.bigEndian 4 stored.payload.length
      ++ Sha256.bigEndian 4 (Crc32.crc32 stored.payload))).take 4 = magic := rfl
  rw [readFrame, hsplit, take_left' hheader, drop_left' hheader, hdrop4, hdrop8, htake4,
    take_left' (Sha256.bigEndian_length 4 _), ofBigEndian_bigEndian hsize, ofBigEndian_bigEndian hcrc,
    take_left, drop_left]
  have hnonempty : (magic ++ (Sha256.bigEndian 4 stored.payload.length
      ++ Sha256.bigEndian 4 (Crc32.crc32 stored.payload))).isEmpty = false := rfl
  simp only [hnonempty, hheader, Bool.false_eq_true, if_false, ne_eq, not_true_eq_false, false_or, hpos, hle, and_self]

/-! ### Chains -/

/-- Contiguous offsets, each value linked to the one before. -/
def Chained : ℤ → String → List Envelope → Prop
  | _, _, [] => True
  | offset, previous, value :: rest =>
    value.offset = offset ∧ value.previous = previous ∧ Chained (offset + 1) value.hash rest

/-- The hash of the last value. -/
def lastHash : String → List Envelope → String
  | previous, [] => previous
  | _, value :: rest => lastHash value.hash rest

variable {previous : String} {offset : ℤ}

theorem chained_append {front back : List Envelope} :
    Chained offset previous (front ++ back)
      ↔ Chained offset previous front ∧ Chained (offset + front.length) (lastHash previous front) back := by
  induction front generalizing offset previous with
  | nil => simp [Chained, lastHash]
  | cons value front ih =>
    have hshift : offset + ((front.length + 1 : ℕ) : ℤ) = offset + 1 + (front.length : ℤ) := by
      push_cast
      ring
    simp only [cons_append, Chained, lastHash, length_cons, ih, hshift, and_assoc]

theorem lastHash_append (previous : String) (front back : List Envelope) :
    lastHash previous (front ++ back) = lastHash (lastHash previous front) back := by
  induction front generalizing previous with
  | nil => rfl
  | cons value front ih => exact ih value.hash

theorem Chained.offset_of_split {front back : List Envelope} {value : Envelope}
    (h : Chained offset previous (front ++ value :: back)) : value.offset = offset + front.length :=
  (chained_append.mp h).2.1

theorem Chained.offset_ge {values : List Envelope} (h : Chained offset previous values) {value : Envelope}
    (hmem : value ∈ values) : offset ≤ value.offset ∧ value.offset < offset + values.length := by
  obtain ⟨front, back, rfl⟩ := append_of_mem hmem
  rw [h.offset_of_split, length_append, length_cons]
  omega

/-- Of contiguous offsets those from a number on are the ones behind so many. -/
theorem Chained.filter_eq_drop {values : List Envelope} (h : Chained offset previous values) {base : ℤ}
    (hle : offset ≤ base) : values.filter (fun value => base ≤ value.offset) = values.drop (base - offset).toNat := by
  induction values generalizing offset previous with
  | nil => simp
  | cons value values ih =>
    obtain ⟨hoffset, -, hrest⟩ := h
    by_cases hbase : base = offset
    · -- everything is kept
      have hzero : (base - offset).toNat = 0 := by omega
      rw [hzero, drop_zero, filter_eq_self]
      intro other hother
      rw [decide_eq_true_eq]
      rcases mem_cons.mp hother with rfl | hother
      · omega
      · have := (hrest.offset_ge hother).1
        omega
    · have hsucc : (base - offset).toNat = (base - (offset + 1)).toNat + 1 := by omega
      rw [hsucc, drop_succ_cons, filter_cons_of_neg (by rw [decide_eq_true_eq]; omega)]
      exact ih hrest (by omega)

/-! ### Rows -/

abbrev Row := ℤ × ℕ × Stored

abbrev Layout := List (ℤ × List Stored)

def fileOf (records : List Stored) : Bytes := records.flatMap fun stored => frame stored.payload

def filesOf (layout : Layout) : List (ℤ × Bytes) := layout.map fun file => (file.1, fileOf file.2)

/-- The records of a file with their positions. -/
def rowsFrom (path : ℤ) : ℕ → List Stored → List Row
  | _, [] => []
  | position, stored :: rest => (path, position, stored) :: rowsFrom path (position + stored.size) rest

def rowsOf (layout : Layout) : List Row := layout.flatMap fun file => rowsFrom file.1 0 file.2

def Row.value (row : Row) : Envelope := row.2.2.value

/-- The rows that are not expired. -/
def live (base : ℤ) (rows : List Row) : List Row := rows.filter fun row => base ≤ row.2.2.value.offset

def valuesOf (rows : List Row) : List Envelope := rows.map fun row => row.2.2.value

/-- The readable records. -/
def liveValues (base : ℤ) (layout : Layout) : List Envelope := valuesOf (live base (rowsOf layout))

def Row.entry (row : Row) : Entry := entryOf row.1 row.2.1 row.2.2.value row.2.2.payload.length

def noteRow (entries : SortedMap ℤ Entry) (row : Row) : SortedMap ℤ Entry :=
  entries.insert row.2.2.value.offset (Row.entry row)

def noted (rows : List Row) : SortedMap ℤ Entry := rows.foldl noteRow SortedMap.empty

theorem length_fileOf_cons (stored : Stored) (records : List Stored) :
    (fileOf (stored :: records)).length = stored.size + (fileOf records).length := by
  rw [fileOf, flatMap_cons, length_append, length_frame]
  rfl

theorem rowsFrom_append (path : ℤ) (position : ℕ) (front back : List Stored) :
    rowsFrom path position (front ++ back)
      = rowsFrom path position front ++ rowsFrom path (position + (fileOf front).length) back := by
  induction front generalizing position with
  | nil => rfl
  | cons stored front ih =>
    rw [cons_append, rowsFrom, rowsFrom, ih, length_fileOf_cons, cons_append, Nat.add_assoc]

theorem rowsOf_append (front back : Layout) : rowsOf (front ++ back) = rowsOf front ++ rowsOf back := flatMap_append

theorem rowsOf_singleton (path : ℤ) (records : List Stored) : rowsOf [(path, records)] = rowsFrom path 0 records := by
  simp [rowsOf]

theorem filesOf_append (front back : Layout) : filesOf (front ++ back) = filesOf front ++ filesOf back := map_append

theorem live_append (base : ℤ) (front back : List Row) : live base (front ++ back) = live base front ++ live base back :=
  filter_append ..

theorem mem_rowsFrom {path : ℤ} {position : ℕ} {records : List Stored} {row : Row}
    (h : row ∈ rowsFrom path position records) : ∃ front back, records = front ++ row.2.2 :: back ∧
      row = (path, position + (fileOf front).length, row.2.2) := by
  induction records generalizing position with
  | nil => exact absurd h not_mem_nil
  | cons stored records ih =>
    rcases mem_cons.mp h with rfl | h
    · exact ⟨[], records, rfl, rfl⟩
    · obtain ⟨front, back, rfl, hrow⟩ := ih h
      refine ⟨stored :: front, back, rfl, ?_⟩
      rw [length_fileOf_cons, ← Nat.add_assoc]
      exact hrow

/-- Where a row stands: its file, the records before it in the file, and the rows around it. -/
theorem mem_rowsOf {layout : Layout} {row : Row} (h : row ∈ rowsOf layout) :
    ∃ init path front back tail, layout = init ++ (path, front ++ row.2.2 :: back) :: tail ∧
      row = (path, (fileOf front).length, row.2.2) := by
  obtain ⟨file, hfile, hrow⟩ := mem_flatMap.mp h
  obtain ⟨init, tail, rfl⟩ := append_of_mem hfile
  obtain ⟨front, back, hrecords, heq⟩ := mem_rowsFrom hrow
  refine ⟨init, file.1, front, back, tail, by rw [← hrecords], ?_⟩
  rwa [Nat.zero_add] at heq

theorem noted_append (rows : List Row) (row : Row) : noted (rows ++ [row]) = noteRow (noted rows) row := by
  rw [noted, foldl_append]
  rfl

theorem get?_foldl_noteRow (rows : List Row) (entries : SortedMap ℤ Entry)
    (h : ∀ row ∈ rows, row.2.2.value.offset ≠ offset) :
    (rows.foldl noteRow entries).get? offset = entries.get? offset := by
  induction rows generalizing entries with
  | nil => rfl
  | cons row rows ih =>
    rw [foldl_cons, ih _ fun other hother => h other (mem_cons_of_mem _ hother), noteRow,
      SortedMap.get?_insert, if_neg fun heq => h row mem_cons_self heq.symm]

/-- The index finds every row of a chain. -/
theorem get?_noted {rows : List Row} {base : ℤ} (h : Chained base previous (valuesOf rows)) {row : Row}
    (hmem : row ∈ rows) : (noted rows).get? row.2.2.value.offset = some (Row.entry row) := by
  obtain ⟨front, back, rfl⟩ := append_of_mem hmem
  have hvalues : valuesOf (front ++ row :: back) = valuesOf front ++ row.2.2.value :: valuesOf back := by
    simp [valuesOf]
  rw [hvalues] at h
  have hlater : ∀ other ∈ back, other.2.2.value.offset ≠ row.2.2.value.offset := by
    intro other hother heq
    have hoffset := h.offset_of_split
    have hrest := (chained_append.mp h).2.2.2
    have hge := (hrest.offset_ge (mem_map_of_mem hother)).1
    omega
  rw [noted, foldl_append, foldl_cons, get?_foldl_noteRow back _ hlater, noteRow, SortedMap.get?_insert_self]

theorem mem_of_get?_noted {rows : List Row} {entry : Entry} (h : (noted rows).get? offset = some entry) :
    ∃ row ∈ rows, row.2.2.value.offset = offset ∧ entry = Row.entry row := by
  induction rows using List.reverseRecOn with
  | nil => simp [noted] at h
  | append_singleton rows row ih =>
    rw [noted_append, noteRow, SortedMap.get?_insert] at h
    split at h
    · rename_i heq
      exact ⟨row, mem_append_right _ mem_cons_self, heq.symm, (Option.some.inj h).symm⟩
    · obtain ⟨other, hother, hrest⟩ := ih h
      exact ⟨other, mem_append_left _ hother, hrest⟩

/-! ### Scanning -/

/-- What the scan makes of the rows that are not expired. -/
def advance (scan : Scan) (rows : List Row) : Scan :=
  rows.foldl (fun scan row => ⟨noteRow scan.entries row, scan.expected + 1, row.2.2.value.hash⟩) scan

theorem advance_append (scan : Scan) (front back : List Row) :
    advance scan (front ++ back) = advance (advance scan front) back := foldl_append

theorem advance_eq (scan : Scan) (rows : List Row) :
    advance scan rows = ⟨rows.foldl noteRow scan.entries, scan.expected + rows.length,
      lastHash scan.previous (valuesOf rows)⟩ := by
  induction rows generalizing scan with
  | nil => simp [advance, valuesOf, lastHash]
  | cons row rows ih =>
    have hstep : advance scan (row :: rows)
        = advance ⟨noteRow scan.entries row, scan.expected + 1, row.2.2.value.hash⟩ rows := rfl
    rw [hstep, ih]
    simp only [foldl_cons, length_cons, valuesOf, map_cons, lastHash, Nat.cast_add, Nat.cast_one,
      add_assoc, add_comm (1 : ℤ)]

theorem scanFile_eq (base path : ℤ) (active : Bool) {fuel : ℕ} {records : List Stored} (position : ℕ) (scan : Scan)
    (hfuel : (fileOf records).length < fuel)
    (h : Chained scan.expected scan.previous (valuesOf (live base (rowsFrom path position records)))) :
    scanFile base path active fuel (fileOf records) position scan
      = .ok (advance scan (live base (rowsFrom path position records)), position + (fileOf records).length) := by
  induction records generalizing fuel position scan with
  | nil =>
    cases fuel with
    | zero => exact absurd hfuel (Nat.not_lt_zero _)
    | succ fuel => rfl
  | cons stored records ih =>
    rw [length_fileOf_cons] at hfuel ⊢
    cases fuel with
    | zero => exact absurd hfuel (Nat.not_lt_zero _)
    | succ fuel =>
      have hpos : 0 < stored.size := by rw [Stored.size, headerSize]; omega
      have hfuel : (fileOf records).length < fuel := by omega
      have hread : readFrame (fileOf (stored :: records)) = .frame stored.payload (fileOf records) :=
        readFrame_frame stored _
      rw [scanFile, hread]
      dsimp only
      rw [scanFrame, stored.parsed]
      dsimp only
      have hstop : position + (stored.size + (fileOf records).length)
          = position + stored.size + (fileOf records).length := (Nat.add_assoc ..).symm
      rw [rowsFrom, hstop]
      rw [rowsFrom] at h
      by_cases hold : stored.value.offset < base
      · have hskip : live base ((path, position, stored) :: rowsFrom path (position + stored.size) records)
            = live base (rowsFrom path (position + stored.size) records) :=
          filter_cons_of_neg (by rw [decide_eq_true_eq]; exact not_le.mpr hold)
        rw [hskip] at h ⊢
        rw [if_pos hold]
        exact ih _ _ hfuel h
      · have hkeep : live base ((path, position, stored) :: rowsFrom path (position + stored.size) records)
            = (path, position, stored) :: live base (rowsFrom path (position + stored.size) records) :=
          filter_cons_of_pos (by rw [decide_eq_true_eq]; exact not_lt.mp hold)
        rw [hkeep] at h ⊢
        obtain ⟨hoffset, hprevious, hrest⟩ := h
        have hlinked : ¬ (stored.value.offset ≠ scan.expected ∨ stored.value.previous ≠ scan.previous) := by
          rintro (hne | hne)
          · exact hne hoffset
          · exact hne hprevious
        rw [if_neg hold, if_neg hlinked]
        exact ih _ ⟨_, scan.expected + 1, stored.value.hash⟩ hfuel hrest

theorem scanSegments_eq (base : ℤ) (layout : Layout) (scan : Scan)
    (h : Chained scan.expected scan.previous (valuesOf (live base (rowsOf layout)))) :
    scanSegments base (filesOf layout) scan = .ok (advance scan (live base (rowsOf layout)), filesOf layout) := by
  induction layout generalizing scan with
  | nil => rfl
  | cons file layout ih =>
    have hrows : rowsOf (file :: layout) = rowsFrom file.1 0 file.2 ++ rowsOf layout := rfl
    rw [hrows, live_append] at h ⊢
    have hvalues : valuesOf (live base (rowsFrom file.1 0 file.2) ++ live base (rowsOf layout))
        = valuesOf (live base (rowsFrom file.1 0 file.2)) ++ valuesOf (live base (rowsOf layout)) := map_append
    rw [hvalues, chained_append] at h
    have hfile := scanFile_eq base file.1 (filesOf layout).isEmpty 0 scan (Nat.lt_succ_self _) h.1
    have hlater := ih (advance scan (live base (rowsFrom file.1 0 file.2))) (by
      rw [advance_eq]
      have hlength : (valuesOf (live base (rowsFrom file.1 0 file.2))).length
          = (live base (rowsFrom file.1 0 file.2)).length := length_map ..
      rw [hlength] at h
      exact h.2)
    show (scanFile base file.1 (filesOf layout).isEmpty ((fileOf file.2).length + 1) (fileOf file.2) 0 scan >>= _) = _
    rw [hfile]
    show (scanSegments base (filesOf layout) _ >>= _) = _
    rw [hlater, advance_append, Nat.zero_add]
    show Except.ok (_, (file.1, (fileOf file.2).take (fileOf file.2).length) :: filesOf layout) = _
    rw [take_length]
    rfl

/-- Scanning files of a layout rebuilds the index and leaves the files. -/
theorem scan_exec (log : PartitionLog) {layout : Layout} (hfiles : log.segments = filesOf layout)
    (h : Chained log.manifest.base log.manifest.baseHash (liveValues log.manifest.base layout))
    (hcommitted : log.manifest.committed < log.manifest.base + (liveValues log.manifest.base layout).length) :
    scan.exec log = (.ok (),
      { log with
        entries := noted (live log.manifest.base (rowsOf layout))
        nextOffset := log.manifest.base + (liveValues log.manifest.base layout).length }) := by
  have hsegments := scanSegments_eq log.manifest.base layout
    ⟨SortedMap.empty, log.manifest.base, log.manifest.baseHash⟩ h
  rw [← hfiles, advance_eq] at hsegments
  have hlength : (live log.manifest.base (rowsOf layout)).length = (liveValues log.manifest.base layout).length :=
    (length_map ..).symm
  rw [hlength] at hsegments
  unfold scan
  rw [exec_bind_ok (exec_read _ _)]
  dsimp only [id]
  rw [hsegments, exec_bind_ok (exec_lift _ _), exec_bind_ok (exec_effect _ _)]
  dsimp only
  rw [exec_bind_ok (exec_require hcommitted _ _), exec_effect]
  rfl

end SystemDesign.MessageQueue.Partition
