import SystemDesign.KvStorage.Wal

/-!
Replaying a log that a crash has cut (`wal.py`).

`Written` is what stands in a log as one complete frame: an entry that was written, or bytes behind a right length
whose checksum fails. However a log of such frames is cut, reading it returns the entries of the frames that lie
entirely before the cut and leaves a log of these frames, so that what is appended next is read after them
(`wal_replay`).
-/

namespace SystemDesign.KvStorage.Wal

open List hiding not_lt

/-- The checksum at the end of the bytes is not the one of the bytes in front. -/
def ChecksumFails (entryData : List UInt8) : Prop :=
  4 ≤ entryData.length ∧ Crc32.crc32 (splitChecksum entryData).1 ≠ (splitChecksum entryData).2

inductive Written where
  | whole (entry : WALEntry) (frame : List UInt8) (serialized : serializeEntry entry = some frame)
  | corrupt (payload : List UInt8) (fits : payload.length < 256 ^ 4) (fails : ChecksumFails payload)

namespace Written

def frame : Written → List UInt8
  | .whole _ frame _ => frame
  | .corrupt payload _ _ => littleEndian 4 payload.length ++ payload

def entry? : Written → Option WALEntry
  | .whole entry _ _ => some entry
  | .corrupt _ _ _ => none

end Written

/-- The bytes of a log. -/
def bytesOf (log : List Written) : List UInt8 := log.flatMap Written.frame

def entriesOf (log : List Written) : List WALEntry := log.filterMap Written.entry?

/-- The frames that lie entirely before the cut. -/
def beforeCut : ℕ → List Written → List Written
  | _, [] => []
  | cut, w :: log => if w.frame.length ≤ cut then w :: beforeCut (cut - w.frame.length) log else []

/-- An entry as it is read: an empty value is not told from no value. -/
def readBack (entry : WALEntry) : WALEntry :=
  { entry with value := if (entry.value.getD []).length > 0 then some (entry.value.getD []) else none }

@[simp] theorem bytesOf_cons (w : Written) (log : List Written) : bytesOf (w :: log) = w.frame ++ bytesOf log :=
  flatMap_cons

theorem bytesOf_append (log later : List Written) : bytesOf (log ++ later) = bytesOf log ++ bytesOf later :=
  flatMap_append

theorem beforeCut_initial (cut : ℕ) (log : List Written) : beforeCut cut log <+: log := by
  induction log generalizing cut with
  | nil => exact prefix_rfl
  | cons w log ih =>
    rw [beforeCut]
    split
    · exact (prefix_cons_inj w).mpr (ih _)
    · exact nil_prefix

/-- As many frames as have their end before the cut. -/
theorem le_length_beforeCut {cut k : ℕ} {log : List Written} (hk : k ≤ log.length) :
    k ≤ (beforeCut cut log).length ↔ (bytesOf (log.take k)).length ≤ cut := by
  induction log generalizing cut k with
  | nil =>
    obtain rfl : k = 0 := Nat.le_zero.mp hk
    simp [beforeCut, bytesOf]
  | cons w log ih =>
    cases k with
    | zero => simp [bytesOf]
    | succ k =>
      rw [take_succ_cons, bytesOf_cons, length_append, beforeCut]
      have hk : k ≤ log.length := Nat.le_of_succ_le_succ hk
      split
      · rw [length_cons, Nat.succ_le_succ_iff, ih hk]
        omega
      · rw [length_nil]
        omega

/-! ### One frame -/

theorem byteToEntryType_entryTypeToByte (entryType : WALEntryType) :
    byteToEntryType (entryTypeToByte entryType) = some entryType := by
  cases entryType <;> rfl

theorem parseChecksummed_checksummedData {entry : WALEntry} (hsequence : entry.sequenceNumber < 256 ^ 8)
    (hkey : (utf8Bytes entry.key).length < 256 ^ 4) (hvalue : (entry.value.getD []).length < 256 ^ 4) :
    parseChecksummed (checksummedData entry) = .ok (some (readBack entry)) := by
  have htype : entryTypeToByte entry.entryType < 256 ^ 1 := by cases entry.entryType <;> decide
  have htime : entry.timestamp.toNat < 256 ^ 8 := entry.timestamp.toNat_lt
  have htimestamp : readNat 8 (littleEndian 8 entry.timestamp.toNat) = some (entry.timestamp.toNat, []) :=
    readNat_eq_some.mpr ⟨(append_nil _).symm, htime⟩
  unfold parseChecksummed checksummedData
  simp only [readNat_eq_some.mpr ⟨rfl, hsequence⟩, readNat_eq_some.mpr ⟨rfl, htype⟩,
    byteToEntryType_entryTypeToByte, readNat_eq_some.mpr ⟨rfl, hkey⟩, readBytes_eq_some.mpr ⟨rfl, rfl⟩,
    ofUtf8Bytes_eq_some.mpr rfl, readNat_eq_some.mpr ⟨rfl, hvalue⟩, htimestamp, UInt64.ofNat_toNat, readBack]

theorem splitChecksum_append (data : List UInt8) {n : ℕ} (h : n < 256 ^ 4) :
    splitChecksum (data ++ littleEndian 4 n) = (data, n) := by
  have hlength : (data ++ littleEndian 4 n).length - 4 = data.length := by
    rw [length_append, length_littleEndian, Nat.add_sub_cancel]
  rw [splitChecksum, hlength, take_left, drop_left, ofLittleEndian_littleEndian h]

/-- A frame is its payload behind the payload's length, and the payload reads back as the entry, if there is one. -/
theorem Written.frame_spec (w : Written) : ∃ payload, w.frame = littleEndian 4 payload.length ++ payload ∧
    payload.length < 256 ^ 4 ∧ deserializeEntry payload = .ok (w.entry?.map readBack) := by
  cases w with
  | whole entry frame serialized =>
    unfold serializeEntry at serialized
    split at serialized
    · rename_i hfits
      obtain ⟨hsequence, hkey, hvalue, hpayload⟩ := hfits
      cases serialized
      have hsplit : splitChecksum (payloadOf entry) = (checksummedData entry, _) :=
        splitChecksum_append _ (Crc32.crc32_lt _)
      have hlong : ¬ (payloadOf entry).length < 4 := by
        rw [payloadOf, length_append, length_littleEndian]
        omega
      refine ⟨payloadOf entry, rfl, hpayload, ?_⟩
      rw [deserializeEntry, if_neg hlong, hsplit, if_neg (fun hne => hne rfl)]
      exact parseChecksummed_checksummedData hsequence hkey hvalue
    · cases serialized
  | corrupt payload fits fails =>
    refine ⟨payload, rfl, fits, ?_⟩
    rw [deserializeEntry, if_neg (not_lt.mpr fails.1), if_pos fails.2]
    rfl

/-! ### A log -/

/-- A complete frame is read, and then what follows it. -/
theorem readFrames_frame (w : Written) {rest : List UInt8} {entries : List WALEntry} {completeEnd : ℕ}
    (h : readFrames rest = .ok (entries, completeEnd)) :
    readFrames (w.frame ++ rest) = .ok ((w.entry?.map readBack).toList ++ entries, w.frame.length + completeEnd) := by
  obtain ⟨payload, hframe, hfits, hread⟩ := w.frame_spec
  have hlength : readNat 4 (w.frame ++ rest) = some (payload.length, payload ++ rest) :=
    readNat_eq_some.mpr ⟨by rw [hframe, append_assoc], hfits⟩
  have hpayload : readBytes payload.length (payload ++ rest) = some (payload, rest) := readBytes_eq_some.mpr ⟨rfl, rfl⟩
  have hsize : w.frame.length = 4 + payload.length := by rw [hframe, length_append, length_littleEndian]
  rw [readFrames, hsize]
  split
  · rename_i hnone
    rw [hlength] at hnone
    cases hnone
  · rename_i hsome
    rw [hlength] at hsome
    cases hsome
    split
    · rename_i hnone
      rw [hpayload] at hnone
      cases hnone
    · rename_i hsome
      rw [hpayload] at hsome
      cases hsome
      rw [hread, h]
      rfl

theorem readFrames_torn (w : Written) {cut : ℕ} (hcut : cut < w.frame.length) :
    readFrames (w.frame.take cut) = .ok ([], 0) := by
  obtain ⟨payload, hframe, hfits, -⟩ := w.frame_spec
  rw [readFrames]
  split
  · rfl
  · rename_i length rest hsome
    split
    · rfl
    · -- the length read is the payload's, and the payload is not all there
      rename_i entryData rest' hentry
      obtain ⟨hdata, hlt⟩ := readNat_eq_some.mp hsome
      obtain ⟨rfl, hlength⟩ := readBytes_eq_some.mp hentry
      have hsize := congrArg List.length hdata
      rw [length_take, length_append, length_append, length_littleEndian, hlength] at hsize
      have htaken := congrArg (List.take 4) hdata
      rw [hframe, take_take, Nat.min_eq_left (by omega), take_left' (length_littleEndian _ _),
        take_left' (length_littleEndian _ _)] at htaken
      have hsame : payload.length = length := by
        rw [← ofLittleEndian_littleEndian hfits, htaken, ofLittleEndian_littleEndian hlt]
      rw [hframe, length_append, length_littleEndian] at hcut hsize
      omega

theorem readFrames_cut (cut : ℕ) (log : List Written) : readFrames ((bytesOf log).take cut)
    = .ok ((entriesOf (beforeCut cut log)).map readBack, (bytesOf (beforeCut cut log)).length) := by
  induction log generalizing cut with
  | nil =>
    rw [show bytesOf [] = [] from rfl, take_nil, readFrames]
    rfl
  | cons w log ih =>
    rw [bytesOf_cons, beforeCut]
    split
    · rename_i hle
      rw [take_append, take_of_length_le hle, readFrames_frame w (ih _), bytesOf_cons, length_append]
      cases hentry : w.entry? with
      | none => simp [entriesOf, hentry]
      | some entry => simp [entriesOf, hentry]
    · rename_i hgt
      rw [take_append_of_le_length (by omega), readFrames_torn w (by omega)]
      rfl

theorem length_beforeCut_le (cut : ℕ) (log : List Written) :
    (bytesOf (beforeCut cut log)).length ≤ min cut (bytesOf log).length ∧
      (bytesOf log).take (bytesOf (beforeCut cut log)).length = bytesOf (beforeCut cut log) := by
  obtain ⟨rest, hrest⟩ := beforeCut_initial cut log
  have hle : (bytesOf (log.take (beforeCut cut log).length)).length ≤ cut :=
    (le_length_beforeCut (beforeCut_initial cut log).length_le).mp (Nat.le_refl _)
  rw [← prefix_iff_eq_take.mp (beforeCut_initial cut log)] at hle
  have hbytes : bytesOf log = bytesOf (beforeCut cut log) ++ bytesOf rest := by rw [← bytesOf_append, hrest]
  constructor
  · rw [hbytes, length_append]
    omega
  · rw [hbytes, take_left]

/-- Reading a cut log leaves the frames before the cut. -/
theorem readAllEntries_cut (cut : ℕ) (log : List Written) : readAllEntries (some ((bytesOf log).take cut))
    = .ok ((entriesOf (beforeCut cut log)).map readBack, some (bytesOf (beforeCut cut log))) := by
  obtain ⟨hle, htake⟩ := length_beforeCut_le cut log
  have hfile : (if (bytesOf (beforeCut cut log)).length < ((bytesOf log).take cut).length then
      ((bytesOf log).take cut).take (bytesOf (beforeCut cut log)).length else (bytesOf log).take cut)
      = bytesOf (beforeCut cut log) := by
    have hshort : ((bytesOf log).take cut).take (bytesOf (beforeCut cut log)).length = bytesOf (beforeCut cut log) := by
      rw [take_take, Nat.min_eq_left (by omega), htake]
    split
    · exact hshort
    · rename_i hnot
      rw [take_of_length_le (by omega)] at hshort
      exact hshort
  rw [readAllEntries, readFrames_cut]
  show Except.ok (_, some _) = _
  rw [hfile]

theorem beforeCut_length (log : List Written) : beforeCut (bytesOf log).length log = log := by
  have hlength : log.length ≤ (beforeCut (bytesOf log).length log).length :=
    (le_length_beforeCut (Nat.le_refl log.length)).mpr (by rw [take_length])
  exact (beforeCut_initial _ log).eq_of_length (Nat.le_antisymm (beforeCut_initial _ log).length_le hlength)

theorem readAllEntries_log (log : List Written) :
    readAllEntries (some (bytesOf log)) = .ok ((entriesOf log).map readBack, some (bytesOf log)) := by
  have h := readAllEntries_cut (bytesOf log).length log
  rwa [take_length, beforeCut_length] at h

/-! ### Rounds of crashes -/

/-- In each round frames are appended, a crash cuts the file, and it is replayed. The file at the end. -/
def rounds : List (List Written × ℕ) → List UInt8 → Except WalError (List UInt8)
  | [], file => .ok file
  | (later, cut) :: rest, file => do
    let (_, file) ← readAllEntries (some ((file ++ bytesOf later).take cut))
    rounds rest (file.getD [])

/-- The frames that are there after the rounds. -/
def survivors : List (List Written × ℕ) → List Written → List Written
  | [], log => log
  | (later, cut) :: rest, log => survivors rest (beforeCut cut (log ++ later))

theorem rounds_eq (history : List (List Written × ℕ)) (log : List Written) :
    rounds history (bytesOf log) = .ok (bytesOf (survivors history log)) := by
  induction history generalizing log with
  | nil => rfl
  | cons round history ih =>
    obtain ⟨later, cut⟩ := round
    rw [rounds, ← bytesOf_append, readAllEntries_cut]
    exact ih _

/-! ### The engine's start -/

section

variable {τ : Type} [LinearOrder τ] (time : UInt64 → τ)

theorem replayEntry_readBack (memtable : MemTable τ) (entry : WALEntry) :
    replayEntry time memtable (readBack entry) = replayEntry time memtable entry := by
  have hvalue : (readBack entry).value.getD [] = entry.value.getD [] := by
    unfold readBack
    dsimp only
    split
    · rfl
    · rename_i hnot
      rw [length_eq_zero_iff.mp (Nat.eq_zero_of_not_pos hnot)]
      rfl
  unfold replayEntry
  rw [hvalue]
  rfl

theorem replayInto_readBack (entries : List WALEntry) (memtable : MemTable τ) :
    replayInto time (entries.map readBack) memtable = replayInto time entries memtable := by
  rw [replayInto, foldl_map]
  simp only [replayEntry_readBack]
  rfl

end

end SystemDesign.KvStorage.Wal
