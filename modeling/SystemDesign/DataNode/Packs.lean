import SystemDesign.DataNode.Node

/-!
What a pack file holds: whole records, and at most the beginning of one more.

`scan_encode` reads back the rows of the whole records and drops the torn one.
-/

namespace SystemDesign.DataNode

open List

/-! ### Numbers -/

theorem fromBigEndian_bigEndian {k n : ℕ} (h : n < 256 ^ k) :
    fromBigEndian (Sha256.bigEndian k n) = n := ofBigEndian_bigEndian h

/-! ### Records -/

inductive Record where
  | put (key : ChunkKey) (data : Chunk) (created : UInt64)
  | delete (key : ChunkKey) (created : UInt64)

namespace Record

def key : Record → ChunkKey
  | put key _ _ => key
  | delete key _ => key

def data : Record → Chunk
  | put _ data _ => data
  | delete _ _ => []

def created : Record → UInt64
  | put _ _ created => created
  | delete _ created => created

def magic : Record → List UInt8
  | put _ _ _ => putMagic
  | delete _ _ => deleteMagic

def head (r : Record) : List UInt8 := header r.magic r.data.length r.key r.created

def bytes (r : Record) : List UInt8 := r.head ++ r.data ++ Sha256.bigEndian 4 (Crc32.crc32 (r.head ++ r.data))

/-- A record the node writes: `U` are the chunks that are put. -/
structure Ok (U : Set Chunk) (r : Record) : Prop where
  key : r.key.length = 32
  created : validTime r.created = true
  data : r.data.length ≤ small
  chunk : ∀ k d c, r = put k d c → d ∈ U ∧ Sha256.digest d = k

end Record

variable {U : Set Chunk}

theorem putMagic_ne : putMagic ≠ deleteMagic := by decide

theorem magic_length (r : Record) : r.magic.length = 4 := by
  cases r with
  | put => rfl
  | delete => rfl

theorem magic_cases (r : Record) : r.magic = putMagic ∨ r.magic = deleteMagic := by
  cases r with
  | put => exact .inl rfl
  | delete => exact .inr rfl

variable {r : Record}

theorem Record.Ok.head_length (h : r.Ok U) : r.head.length = headerSize := by
  simp [Record.head, header, magic_length, Sha256.bigEndian_length, h.key, headerSize]

theorem Record.Ok.bytes_length (h : r.Ok U) : r.bytes.length = headerSize + r.data.length + footerSize := by
  rw [Record.bytes, length_append, length_append, h.head_length, Sha256.bigEndian_length]
  rfl

theorem Record.Ok.fields (h : r.Ok U) :
    r.head.take 4 = r.magic ∧ fromBigEndian ((r.head.drop 4).take 4) = r.data.length ∧ (r.head.drop 8).take 32 = r.key ∧
      UInt64.ofNat (fromBigEndian (r.head.drop 40)) = r.created := by
  have hm := magic_length r
  have hs := Sha256.bigEndian_length 4 r.data.length
  have hk := h.key
  have hassoc : r.head = r.magic ++ (Sha256.bigEndian 4 r.data.length ++ (r.key ++
      Sha256.bigEndian 8 r.created.toNat)) := by
    simp [Record.head, header]
  have hdrop4 : r.head.drop 4 = Sha256.bigEndian 4 r.data.length ++ (r.key ++ Sha256.bigEndian 8 r.created.toNat) := by
    rw [hassoc, drop_left' hm]
  have hdrop8 : r.head.drop 8 = r.key ++ Sha256.bigEndian 8 r.created.toNat := by
    rw [show (8 : ℕ) = 4 + 4 from rfl, ← drop_drop, hdrop4, drop_left' hs]
  have hdrop40 : r.head.drop 40 = Sha256.bigEndian 8 r.created.toNat := by
    rw [show (40 : ℕ) = 8 + 32 from rfl, ← drop_drop, hdrop8, drop_left' hk]
  refine ⟨?_, ?_, ?_, ?_⟩
  · rw [hassoc, take_left' hm]
  · rw [hdrop4, take_left' hs, fromBigEndian_bigEndian]
    have := h.data
    unfold small at this
    omega
  · rw [hdrop8, take_left' hk]
  · rw [hdrop40, fromBigEndian_bigEndian]
    · exact UInt64.ofNat_toNat
    · exact r.created.toNat_lt

/-- The header of a record the node wrote passes the checks. -/
theorem Record.Ok.passes (h : r.Ok U) : ¬ ((r.magic ≠ putMagic ∧ r.magic ≠ deleteMagic) ∨ r.data.length > small ∨
      (r.magic = deleteMagic ∧ r.data.length ≠ 0) ∨ validTime r.created = false) := by
  rintro (⟨hput, hdelete⟩ | hsize | ⟨hmagic, hsize⟩ | htime)
  · obtain hm | hm := magic_cases r
    · exact hput hm
    · exact hdelete hm
  · exact absurd h.data (Nat.not_le.mpr hsize)
  · cases r with
    | put => exact absurd hmagic putMagic_ne
    | delete => exact hsize rfl
  · rw [h.created] at htime
    cases htime

/-! ### Reading a file back -/

/-- What a record at a place makes of the rows. -/
def Record.index (start : ℕ) (index : Dict ChunkKey ChunkRow) : Record → Dict ChunkKey ChunkRow
  | .put key data created => index.set key ⟨.pack, start + headerSize, data.length, created⟩
  | .delete key _ => index.erase key

def encode (records : List Record) : List UInt8 := records.flatMap Record.bytes

def rows : ℕ → List Record → Dict ChunkKey ChunkRow → Dict ChunkKey ChunkRow
  | _, [], index => index
  | start, r :: records, index => rows (start + r.bytes.length) records (r.index start index)

theorem encode_append (rs rs' : List Record) : encode (rs ++ rs') = encode rs ++ encode rs' := flatMap_append

theorem rows_append (start : ℕ) (rs : List Record) (r : Record) (index : Dict ChunkKey ChunkRow) :
    rows start (rs ++ [r]) index = r.index (start + (encode rs).length) (rows start rs index) := by
  induction rs generalizing start index with
  | nil => rfl
  | cons r' rs ih =>
    simp only [cons_append, rows]
    rw [ih, encode, encode, flatMap_cons, length_append, Nat.add_assoc]

/-- The beginning of a record that was cut off. -/
def Torn (U : Set Chunk) (torn : List UInt8) : Prop :=
  ∃ r : Record, r.Ok U ∧ torn <+: r.bytes ∧ torn.length < r.bytes.length

theorem scan_torn {torn : List UInt8} (h : Torn U torn) (fuel start : ℕ)
    (index : Dict ChunkKey ChunkRow) : scan (fuel + 1) start torn index = .ok (index, start) := by
  obtain ⟨r, hr, ⟨rest, hrest⟩, hlt⟩ := h
  have hlen := hr.bytes_length
  unfold scan
  dsimp only
  by_cases hshort : (torn.take headerSize).length < headerSize
  · rw [if_pos hshort]
  · rw [if_neg hshort]
    have hlong : headerSize ≤ torn.length := by
      rw [length_take] at hshort
      omega
    have hhead : torn.take headerSize = r.head := by
      have htake : r.bytes.take headerSize = r.head := by
        rw [Record.bytes, append_assoc, take_left' hr.head_length]
      rw [← htake, ← hrest, take_append_of_le_length hlong]
    obtain ⟨hmagic, hsize, hkey, hcreated⟩ := hr.fields
    rw [hhead, hmagic, hsize, hcreated, if_neg hr.passes, if_pos]
    simp only [length_take, length_drop, footerSize] at hlen ⊢
    omega

theorem scan_record (hr : r.Ok U) (fuel start : ℕ) (rest : List UInt8) (index : Dict ChunkKey ChunkRow) :
    scan (fuel + 1) start (r.bytes ++ rest) index = scan fuel (start + r.bytes.length) rest (r.index start index) := by
  have hassoc : r.bytes ++ rest = r.head ++ (r.data ++
      (Sha256.bigEndian 4 (Crc32.crc32 (r.head ++ r.data)) ++ rest)) := by
    simp [Record.bytes]
  have hhead : (r.bytes ++ rest).take headerSize = r.head := by
    rw [hassoc, take_left' hr.head_length]
  have hdrop : (r.bytes ++ rest).drop headerSize = r.data ++
      (Sha256.bigEndian 4 (Crc32.crc32 (r.head ++ r.data)) ++ rest) := by
    rw [hassoc, drop_left' hr.head_length]
  have hdata : ((r.bytes ++ rest).drop headerSize).take r.data.length = r.data := by
    rw [hdrop, take_left' rfl]
  have hfooter : ((r.bytes ++ rest).drop (headerSize + r.data.length)).take footerSize =
      Sha256.bigEndian 4 (Crc32.crc32 (r.head ++ r.data)) := by
    rw [← drop_drop, hdrop, drop_left' rfl, take_left' (show _ = footerSize from Sha256.bigEndian_length 4 _)]
  have hafter : (r.bytes ++ rest).drop (headerSize + r.data.length + footerSize) = rest := by
    rw [← hr.bytes_length, drop_left' rfl]
  obtain ⟨hmagic, hsize, hkey, hcreated⟩ := hr.fields
  have hcrc : fromBigEndian (Sha256.bigEndian 4 (Crc32.crc32 (r.head ++ r.data))) =
      Crc32.crc32 (r.head ++ r.data) := fromBigEndian_bigEndian (Crc32.crc32_lt _)
  conv_lhs => unfold scan
  dsimp only
  rw [hhead, if_neg (by rw [hr.head_length]; exact Nat.lt_irrefl _), hmagic, hsize, hkey, hcreated,
    if_neg hr.passes, hdata, hfooter, if_neg, hafter, hcrc, if_neg (fun hc => hc rfl), hr.bytes_length]
  · cases r with
    | put key data created =>
      exact (if_neg putMagic_ne).trans (if_pos (hr.chunk key data created rfl).2)
    | delete key created => exact if_pos rfl
  · rw [Sha256.bigEndian_length]
    rintro (hc | hc)
    · exact hc rfl
    · exact hc rfl

/-- Reading what was written: the rows of the whole records, and their length. -/
theorem scan_encode {records : List Record} (hrecords : ∀ r ∈ records, r.Ok U) {torn : List UInt8}
    (htorn : Torn U torn) {fuel : ℕ} (hfuel : records.length < fuel) (start : ℕ) (index : Dict ChunkKey ChunkRow) :
    scan fuel start (encode records ++ torn) index =
      .ok (rows start records index, start + (encode records).length) := by
  induction records generalizing fuel start index with
  | nil =>
    obtain ⟨fuel, rfl⟩ := Nat.exists_eq_succ_of_ne_zero (Nat.ne_of_gt hfuel)
    exact scan_torn htorn fuel start index
  | cons r records ih =>
    obtain ⟨fuel, rfl⟩ := Nat.exists_eq_succ_of_ne_zero (Nat.ne_of_gt (Nat.zero_lt_of_lt hfuel))
    have hr := hrecords r mem_cons_self
    rw [encode, flatMap_cons, append_assoc, Nat.succ_eq_add_one, scan_record hr,
      ← encode, ih (fun r' hr' => hrecords r' (mem_cons_of_mem _ hr'))
        (by simpa using hfuel), length_append, Nat.add_assoc]
    rfl

theorem length_le_encode {records : List Record} (hrecords : ∀ r ∈ records, r.Ok U) :
    records.length ≤ (encode records).length := by
  induction records with
  | nil => exact Nat.le_refl 0
  | cons r records ih =>
    have hr := (hrecords r mem_cons_self).bytes_length
    have hrest := ih fun r' hr' => hrecords r' (mem_cons_of_mem _ hr')
    rw [encode, flatMap_cons, length_append, ← encode, length_cons]
    unfold headerSize at hr
    omega

end SystemDesign.DataNode
