import SystemDesign.DataNode.Packs

/-!
What a node's files stand for: a map from digests to chunks.

`Holds` says what a disk keeps over a crash, `Serves` what it answers while the node is up:
then no record is torn and the index is the one recovery would build, but for the times of
large files.
-/

namespace SystemDesign.DataNode

open List

abbrev Contents := ChunkKey → Option Chunk

def Record.apply (m : Contents) : Record → Contents
  | .put key data _ => Function.update m key (some data)
  | .delete key _ => Function.update m key none

/-- The last record of a chunk decides. -/
def survivors (records : List Record) : Contents := records.foldl Record.apply fun _ => none

theorem survivors_append (rs : List Record) (r : Record) : survivors (rs ++ [r]) = r.apply (survivors rs) := by
  simp [survivors]

variable {U : Set Chunk}

/-! ### Rows -/

/-- A row that leads to the data of a record. -/
structure RowOk (U : Set Chunk) (bytes : List UInt8) (key : ChunkKey) (row : ChunkRow) (data : Chunk) :
    Prop where
  kind : row.kind = .pack
  size : row.size = data.length
  bound : row.offset + row.size ≤ bytes.length
  slice : (bytes.drop row.offset).take row.size = data
  created : validTime row.created = true
  chunk : data ∈ U
  digest : Sha256.digest data = key
  length : data.length ≤ small

variable {data : Chunk}

theorem RowOk.append {bytes : List UInt8} {key : ChunkKey} {row : ChunkRow} (h : RowOk U bytes key row data)
    (more : List UInt8) : RowOk U (bytes ++ more) key row data := by
  obtain ⟨kind, size, bound, slice, created, chunk, digest, length⟩ := h
  refine ⟨kind, size, ?_, ?_, created, chunk, digest, length⟩
  · rw [length_append]
    omega
  · rw [drop_append_of_le_length (by omega), take_append_of_le_length, slice]
    rw [length_drop]
    omega

structure RowsOk (U : Set Chunk) (bytes : List UInt8) (index : Dict ChunkKey ChunkRow) (m : Contents) :
    Prop where
  none : ∀ k, index.get? k = none ↔ m k = none
  some : ∀ k row, index.get? k = some row → ∃ data, m k = some data ∧ RowOk U bytes k row data

theorem Record.Ok.rowOk {r : Record} (h : r.Ok U) {key : ChunkKey} {created : UInt64} (hr : r = .put key data created)
    (bytes : List UInt8) :
    RowOk U (bytes ++ r.bytes) key ⟨.pack, bytes.length + headerSize, data.length, created⟩ data := by
  have hlen := h.bytes_length
  have hdata : r.data = data := by
    rw [hr]
    rfl
  obtain ⟨hchunk, hdigest⟩ := h.chunk key data created hr
  refine ⟨rfl, rfl, ?_, ?_, ?_, hchunk, hdigest, hdata ▸ h.data⟩
  · rw [length_append, hlen, hdata]
    dsimp only
    omega
  · dsimp only
    rw [← drop_drop, drop_left' rfl, Record.bytes, append_assoc, drop_left' h.head_length, ← hdata, take_left' rfl]
  · have := h.created
    rw [hr] at this
    exact this

variable {m : Contents}

theorem RowsOk.snoc {bytes : List UInt8} {index : Dict ChunkKey ChunkRow} (h : RowsOk U bytes index m) {r : Record}
    (hr : r.Ok U) : RowsOk U (bytes ++ r.bytes) (r.index bytes.length index) (r.apply m) := by
  cases hcase : r with
  | put key data created =>
    constructor
    · intro k
      simp only [Record.index, Record.apply]
      by_cases hk : k = key
      · subst hk
        simp
      · rw [Dict.get?_set_of_ne _ hk, Function.update_of_ne hk]
        exact h.none k
    · intro k row hrow
      simp only [Record.index, Record.apply] at hrow ⊢
      by_cases hk : k = key
      · subst hk
        rw [Dict.get?_set_self] at hrow
        cases hrow
        exact ⟨data, Function.update_self _ _ _, hcase ▸ hr.rowOk hcase bytes⟩
      · rw [Dict.get?_set_of_ne _ hk] at hrow
        rw [Function.update_of_ne hk]
        obtain ⟨d, hd, hok⟩ := h.some k row hrow
        exact ⟨d, hd, hok.append _⟩
  | delete key created =>
    constructor
    · intro k
      simp only [Record.index, Record.apply]
      rw [Dict.get?_erase]
      by_cases hk : k = key
      · subst hk
        simp
      · rw [if_neg hk, Function.update_of_ne hk]
        exact h.none k
    · intro k row hrow
      simp only [Record.index, Record.apply] at hrow ⊢
      rw [Dict.get?_erase] at hrow
      by_cases hk : k = key
      · rw [if_pos hk] at hrow
        cases hrow
      · rw [if_neg hk] at hrow
        rw [Function.update_of_ne hk]
        obtain ⟨d, hd, hok⟩ := h.some k row hrow
        exact ⟨d, hd, hok.append _⟩

variable {records : List Record}

theorem rowsOk (h : ∀ r ∈ records, r.Ok U) : RowsOk U (encode records) (rows 0 records .empty) (survivors records) := by
  induction records using List.reverseRecOn with
  | nil => exact ⟨fun _ => ⟨fun _ => rfl, fun _ => rfl⟩, fun _ _ hrow => nomatch hrow⟩
  | append_singleton rs r ih =>
    have hrs := ih fun r' hr' => h r' (mem_append_left _ hr')
    have hr := h r (mem_append_right _ (mem_singleton_self r))
    rw [rows_append, survivors_append, encode_append, Nat.zero_add]
    have hone : encode [r] = r.bytes := by simp [encode]
    rw [hone]
    exact hrs.snoc hr

/-! ### Disks -/

structure LargeOk (U : Set Chunk) (key : ChunkKey) (f : LargeFile) : Prop where
  chunk : f.data ∈ U
  digest : Sha256.digest f.data = key
  long : small < f.data.length
  length : f.data.length ≤ chunkLimit

/-- The files of a node whose generation is `name`. -/
structure Stored (U : Set Chunk) (d : NodeDisk) (name : String) (records : List Record)
    (torn : List UInt8) : Prop where
  current : d.current = some name
  named : validName name = true
  pack : d.packs.get? name = some (encode records ++ torn)
  torn : Torn U torn
  records : ∀ r ∈ records, r.Ok U
  large : ∀ k f, d.large.get? k = some f → LargeOk U k f

def contentsOf (d : NodeDisk) (records : List Record) : Contents := fun k =>
  match d.large.get? k with
  | some f => some f.data
  | none => survivors records k

/-- The index is what recovery builds. -/
structure IndexOk (d : NodeDisk) (records : List Record) : Prop where
  large : ∀ k f, d.large.get? k = some f → ∃ created, d.index.get? k = some ⟨.large, 0, f.data.length, created⟩
  pack : ∀ k, d.large.get? k = none → d.index.get? k = (rows 0 records .empty).get? k

/-- A directory in which no node has come up yet. -/
structure Blank (d : NodeDisk) : Prop where
  current : d.current = none
  packs : ∀ name bytes, d.packs.get? name = some bytes → bytes = []
  large : ∀ k, d.large.get? k = none

def Holds (U : Set Chunk) (d : NodeDisk) (m : Contents) : Prop :=
  (Blank d ∧ m = fun _ => none) ∨ ∃ name records torn, Stored U d name records torn ∧ m = contentsOf d records

def Serves (U : Set Chunk) (d : NodeDisk) (name : String) (m : Contents) : Prop :=
  ∃ records, Stored U d name records [] ∧ IndexOk d records ∧ m = contentsOf d records

variable {d : NodeDisk} {name : String}

theorem Serves.holds (h : Serves U d name m) : Holds U d m := by
  obtain ⟨records, hstored, -, hm⟩ := h
  exact .inr ⟨name, records, [], hstored, hm⟩

theorem torn_nil (U : Set Chunk) : Torn U [] := by
  have hok : (Record.delete (List.replicate 32 0) 0).Ok U :=
    ⟨length_replicate, rfl, Nat.zero_le _, fun _ _ _ h => nomatch h⟩
  refine ⟨.delete (List.replicate 32 0) 0, hok, nil_prefix, ?_⟩
  rw [hok.bytes_length]
  exact Nat.succ_pos _

variable {torn : List UInt8}

theorem Stored.congr {s : NodeDisk} (h : Stored U d name records torn) (hcurrent : s.current = d.current)
    (hpack : s.packs.get? name = d.packs.get? name) (hlarge : s.large = d.large) : Stored U s name records torn :=
  ⟨hcurrent.trans h.current, h.named, hpack.trans h.pack, h.torn, h.records, hlarge ▸ h.large⟩

theorem Stored.rowsOk {d : NodeDisk} {name : String} {records : List Record} {torn : List UInt8}
    (h : Stored U d name records torn) :
    RowsOk U (encode records) (rows 0 records .empty) (survivors records) :=
  DataNode.rowsOk h.records

variable {k : ChunkKey}

/-- What survives in the file is a small chunk. -/
theorem Stored.survivor (h : Stored U d name records torn) (hs : survivors records k = some data) :
    data ∈ U ∧ Sha256.digest data = k ∧ data.length ≤ small := by
  cases hrow : (rows 0 records .empty).get? k with
  | none =>
    rw [(h.rowsOk.none k).mp hrow] at hs
    cases hs
  | some row =>
    obtain ⟨data', hdata', hok⟩ := h.rowsOk.some k row hrow
    rw [hs] at hdata'
    cases hdata'
    exact ⟨hok.chunk, hok.digest, hok.length⟩

theorem Stored.contents (h : Stored U d name records torn) (hm : contentsOf d records k = some data) :
    data ∈ U ∧ Sha256.digest data = k := by
  unfold contentsOf at hm
  cases hf : d.large.get? k with
  | some f =>
    rw [hf] at hm
    cases hm
    exact ⟨(h.large k f hf).chunk, (h.large k f hf).digest⟩
  | none =>
    rw [hf] at hm
    obtain ⟨hchunk, hdigest, -⟩ := h.survivor hm
    exact ⟨hchunk, hdigest⟩

/-- A large chunk is not in the file too. -/
theorem Stored.no_survivor (hU : Set.InjOn Sha256.digest U) (h : Stored U d name records torn) {f : LargeFile}
    (hf : d.large.get? k = some f) : survivors records k = none := by
  cases hs : survivors records k with
  | none => rfl
  | some data =>
    obtain ⟨hchunk, hdigest, hsmall⟩ := h.survivor hs
    have hlarge := h.large k f hf
    have heq := hU hchunk hlarge.chunk (hdigest.trans hlarge.digest.symm)
    have hlong := hlarge.long
    rw [← heq] at hlong
    omega

theorem Serves.get {d : NodeDisk} {name : String} (h : Serves U d name m) (hk : k.length = 32) :
    DataNode.get d name k = match m k with
      | some data => .ok data
      | none => .error (.error 404 "chunk missing") := by
  obtain ⟨records, hstored, hindex, rfl⟩ := h
  have hcheck : checksum k = .ok () := if_pos hk
  unfold DataNode.get contentsOf
  rw [hcheck]
  change getIndexed d name k = _
  unfold getIndexed
  cases hf : d.large.get? k with
  | some f =>
    obtain ⟨created, hrow⟩ := hindex.large k f hf
    have hlarge := hstored.large k f hf
    have hread : readRow d name k ⟨.large, 0, f.data.length, created⟩ = .ok f.data := by
      unfold readRow
      dsimp only
      rw [hf]
      dsimp only
      rw [take_of_length_le (Nat.le_succ_of_le hlarge.length)]
    rw [hrow]
    dsimp only
    rw [if_neg (Nat.not_lt.mpr hlarge.length), hread]
    exact if_neg fun hc => hc.elim (fun h => h rfl) (fun h => h hlarge.digest)
  | none =>
    rw [hindex.pack k hf]
    cases hrow : (rows 0 records .empty).get? k with
    | none =>
      dsimp only
      rw [(hstored.rowsOk.none k).mp hrow]
    | some row =>
      obtain ⟨data, hdata, hok⟩ := hstored.rowsOk.some k row hrow
      have hread : readRow d name k row = .ok data := by
        unfold readRow
        rw [hok.kind]
        dsimp only
        rw [hstored.pack, append_nil]
        dsimp only
        rw [hok.slice]
      have hsize : ¬ row.size > chunkLimit := by
        have := hok.length
        rw [hok.size]
        unfold small chunkLimit at *
        omega
      dsimp only
      rw [if_neg hsize, hread, hdata]
      exact if_neg fun hc => hc.elim (fun h => h hok.size.symm) (fun h => h hok.digest)

end SystemDesign.DataNode
