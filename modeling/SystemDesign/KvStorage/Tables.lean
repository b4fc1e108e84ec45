import SystemDesign.Lib.Dict
import SystemDesign.Lib.Newest

/-!
The memtable and the sorted tables of the storage engine (`memtable.py`, `sstable.py`).

A table is what its file holds when it is read back: the layout of the file, its index and its Bloom filter have
no part in which entry a reader finds.
-/

namespace SystemDesign.KvStorage

open Dict

inductive Error where
  | valueError (message : String)
deriving DecidableEq

/-- An entry of the memtable or of a table. -/
structure Entry (τ : Type) where
  key : String
  value : Option (List UInt8)
  timestamp : τ
  isTombstone : Bool
deriving DecidableEq

variable {τ : Type}

/-- The entries of a table are in the order of their keys, and no key is there twice. -/
def Sorted (entries : List (Entry τ)) : Prop := entries.Pairwise fun a b => a.key < b.key

/-- The entry of a key. -/
def lookup (key : String) (entries : List (Entry τ)) : Option (Entry τ) := entries.find? fun entry => entry.key = key

theorem lookup_cons (key : String) (entry : Entry τ) (entries : List (Entry τ)) :
    lookup key (entry :: entries) = if entry.key = key then some entry else lookup key entries := by
  unfold lookup
  rw [List.find?_cons]
  by_cases h : entry.key = key <;> simp [h]

variable {entries : List (Entry τ)}

theorem lookup_eq_none {key : String} : lookup key entries = none ↔ ∀ entry ∈ entries, entry.key ≠ key := by
  simp [lookup]

theorem lookup_eq_some {key : String} {entry : Entry τ} (h : lookup key entries = some entry) :
    entry ∈ entries ∧ entry.key = key :=
  ⟨List.mem_of_find?_eq_some h, by simpa using List.find?_some h⟩

theorem Sorted.lookup_eq (h : Sorted entries) {entry : Entry τ} (hmem : entry ∈ entries) :
    lookup entry.key entries = some entry := by
  induction entries with
  | nil => cases hmem
  | cons first entries ih =>
    obtain ⟨hfirst, hrest⟩ := List.pairwise_cons.mp h
    rw [lookup_cons]
    obtain rfl | hmem := List.mem_cons.mp hmem
    · rw [if_pos rfl]
    · rw [if_neg (hfirst entry hmem).ne, ih hrest hmem]

/-! ### The memtable -/

/-- `_entries` of a memtable, each under its key, and `_size_bytes`. -/
structure MemTable (τ : Type) where
  sizeThreshold : ℤ
  entries : Dict String (Entry τ)
  size : ℤ
  keyed : ∀ key entry, entries.get? key = some entry → entry.key = key

/-- `_entry_size`. -/
def entrySize (entry : Entry τ) : ℤ :=
  entry.key.utf8ByteSize + (entry.value.elim 0 fun value => (value.length : ℤ)) + 64

namespace MemTable

variable {m : MemTable τ} {entry : Entry τ} {key : String}

theorem keyed_set (m : MemTable τ) (entry : Entry τ) (key : String) (other : Entry τ)
    (h : (m.entries.set entry.key entry).get? key = some other) : other.key = key := by
  obtain ⟨rfl, rfl⟩ | ⟨-, h⟩ := get?_set_cases h
  · rfl
  · exact m.keyed key other h

/-- `put` and `delete`: the entry is taken unless a newer one is there. -/
def write [LinearOrder τ] (entry : Entry τ) (m : MemTable τ) : MemTable τ :=
  match m.entries.get? entry.key with
  | some existing =>
    if entry.timestamp < existing.timestamp then m
    else ⟨m.sizeThreshold, m.entries.set entry.key entry, m.size - entrySize existing + entrySize entry,
      m.keyed_set entry⟩
  | none => ⟨m.sizeThreshold, m.entries.set entry.key entry, m.size + entrySize entry, m.keyed_set entry⟩

def put [LinearOrder τ] (key : String) (value : List UInt8) (timestamp : τ) (m : MemTable τ) : MemTable τ :=
  m.write ⟨key, some value, timestamp, false⟩

def delete [LinearOrder τ] (key : String) (timestamp : τ) (m : MemTable τ) : MemTable τ :=
  m.write ⟨key, none, timestamp, true⟩

def isFull (m : MemTable τ) : Bool := m.sizeThreshold ≤ m.size

def entriesSorted (m : MemTable τ) : List (Entry τ) := m.entries.sorted.values

/-- A memtable without entries: a new one, and what `clear` leaves. -/
def empty (sizeThreshold : ℤ) : MemTable τ := ⟨sizeThreshold, .empty, 0, nofun⟩

def clear (m : MemTable τ) : MemTable τ := empty m.sizeThreshold

theorem mem_entriesSorted : entry ∈ m.entriesSorted ↔ m.entries.get? entry.key = some entry := by
  unfold entriesSorted
  rw [mem_values]
  constructor
  · rintro ⟨key, hget⟩
    rw [sorted_equiv] at hget
    rwa [m.keyed key entry hget]
  · intro hget
    exact ⟨entry.key, (sorted_equiv _ _).trans hget⟩

theorem sorted_entriesSorted (m : MemTable τ) : Sorted m.entriesSorted := by
  have htotal : Std.Total fun a b : String × Entry τ => a.1 ≤ b.1 := ⟨fun a b => le_total a.1 b.1⟩
  have htrans : IsTrans (String × Entry τ) fun a b => a.1 ≤ b.1 := ⟨fun _ _ _ h h' => le_trans h h'⟩
  have hle : m.entries.sorted.entries.Pairwise fun a b => a.1 ≤ b.1 :=
    List.pairwise_insertionSort (fun a b : String × Entry τ => a.1 ≤ b.1) m.entries.entries
  have hlt := hle.and (List.pairwise_map.mp m.entries.sorted.nodup)
  have hkey : ∀ e ∈ m.entries.sorted.entries, e.2.key = e.1 := by
    intro e he
    have hget : m.entries.sorted.get? e.1 = some e.2 := mem_entries.mp he
    rw [sorted_equiv] at hget
    exact m.keyed _ _ hget
  unfold Sorted entriesSorted Dict.values
  rw [List.pairwise_map]
  refine hlt.imp_of_mem fun {a b} ha hb h => ?_
  rw [hkey a ha, hkey b hb]
  exact lt_of_le_of_ne h.1 h.2

theorem lookup_entriesSorted (m : MemTable τ) (key : String) : lookup key m.entriesSorted = m.entries.get? key := by
  cases hget : m.entries.get? key with
  | some entry =>
    obtain rfl := m.keyed key entry hget
    exact m.sorted_entriesSorted.lookup_eq (mem_entriesSorted.mpr hget)
  | none =>
    rw [lookup_eq_none]
    rintro entry hentry rfl
    rw [mem_entriesSorted, hget] at hentry
    cases hentry

theorem get?_write [LinearOrder τ] (entry : Entry τ) (m : MemTable τ) : (m.write entry).entries.get? key =
    if key = entry.key then newerOf Entry.timestamp (some entry) (m.entries.get? key) else m.entries.get? key := by
  unfold write
  split
  · rename_i existing hget
    split
    · rename_i hlt
      split
      · rename_i hkey
        rw [hkey, hget, newerOf_some, if_pos hlt]
      · rfl
    · rename_i hlt
      split
      · rename_i hkey
        rw [hkey, hget, newerOf_some, if_neg hlt, get?_set_self]
      · rename_i hkey
        exact get?_set_of_ne _ hkey _
  · rename_i hget
    split
    · rename_i hkey
      rw [hkey, hget, get?_set_self]
      rfl
    · rename_i hkey
      exact get?_set_of_ne _ hkey _

end MemTable

/-! ### Sorted tables -/

/-- A sorted table: its level, the time of its creation and its entries. -/
structure SSTable (τ : Type) where
  level : ℕ
  createdAt : τ
  entries : List (Entry τ)
  sorted : Sorted entries
  nonempty : entries ≠ []

def SSTable.get (t : SSTable τ) (key : String) : Option (Entry τ) := lookup key t.entries

/-- `create_from_memtable` and `_create_sstable_from_entries`; `message` is what they raise without entries. -/
def SSTable.create (message : String) (level : ℕ) (now : τ) (entries : List (Entry τ)) (sorted : Sorted entries) :
    Except Error (SSTable τ) :=
  if nonempty : entries ≠ [] then .ok ⟨level, now, entries, sorted, nonempty⟩ else .error (.valueError message)

end SystemDesign.KvStorage
