import SystemDesign.KvStorage.Merge
import SystemDesign.Lib.Transaction

/-!
The storage engine (`engine.py`, `compaction.py`): writes, flushes, compactions and reads.

The engine keeps tombstones for ever. Each new table takes one reading of the clock. The log of writes is cleared
by a flush; a restart reads it back into the memtable, and loads the tables by the times of their creation. Runs have
no crash within a flush; what is said of every state holds after one, too.
-/

namespace SystemDesign.KvStorage

variable {τ : Type} [LinearOrder τ]

/-! ### Compaction -/

/-- The tables of a level, in the order of the list. -/
def atLevel (level : ℕ) (sstables : List (SSTable τ)) : List (SSTable τ) := sstables.filter fun t => t.level = level

/-- The other tables. -/
def offLevel (level : ℕ) (sstables : List (SSTable τ)) : List (SSTable τ) := sstables.filter fun t => t.level ≠ level

/-- The first level with enough tables. -/
def fullLevel (threshold : ℤ) (sstables : List (SSTable τ)) : Option ℕ :=
  ((sstables.map SSTable.level).dedup.insertionSort (· ≤ ·)).find? fun level =>
    threshold ≤ (atLevel level sstables).length

/-- `compact`; the grace period of the engine is infinite, so no tombstone is expired. -/
def compact (now : τ) (sstables : List (SSTable τ)) (level : ℕ) : Except Error (SSTable τ) :=
  SSTable.create "Cannot create SSTable from empty entries after compaction" (level + 1) now
    (kWayMerge (fun _ => false) sstables) (kWayMerge_merged _ _).sorted

/-- The merged table goes in front of the first table that is older. -/
def insertCompacted (compacted : SSTable τ) : List (SSTable τ) → List (SSTable τ)
  | [] => [compacted]
  | t :: rest =>
    if t.createdAt < compacted.createdAt then compacted :: t :: rest else t :: insertCompacted compacted rest

/-- `_replace_compacted_sstables`. -/
def replaceCompacted (compacted : SSTable τ) (sstables : List (SSTable τ)) : List (SSTable τ) :=
  insertCompacted compacted (offLevel (compacted.level - 1) sstables)

/-- `maybe_compact`, and the tables with what it produced. -/
def maybeCompact (threshold : ℤ) (now : τ) (sstables : List (SSTable τ)) : Except Error (List (SSTable τ)) :=
  match fullLevel threshold sstables with
  | none => .ok sstables
  | some level => do
    let compacted ← compact now (atLevel level sstables) level
    return replaceCompacted compacted sstables

/-! ### The engine -/

structure StorageEngine (τ : Type) where
  memtable : MemTable τ
  sstables : List (SSTable τ)
  compactionThreshold : ℤ

namespace StorageEngine

/-- An engine that starts without files. -/
def new (memtableSize compactionThreshold : ℤ) : StorageEngine τ := ⟨.empty memtableSize, [], compactionThreshold⟩

/-- What `put` and `delete` do to the memtable once their checks have passed. -/
def write (entry : Entry τ) (s : StorageEngine τ) : StorageEngine τ := { s with memtable := s.memtable.write entry }

/-- `_flush_memtable`; the times are those of the new table and of a merged one. -/
def flush (created compacted : τ) (s : StorageEngine τ) : Except Error (StorageEngine τ) :=
  if s.memtable.entries.entries = [] then .ok s
  else do
    let table ← SSTable.create "Cannot create SSTable from empty MemTable" 0 created s.memtable.entriesSorted
      s.memtable.sorted_entriesSorted
    let sstables ← maybeCompact s.compactionThreshold compacted (table :: s.sstables)
    return { s with memtable := s.memtable.clear, sstables := sstables }

end StorageEngine

/-! ### Readers -/

structure StorageResult (τ : Type) where
  key : String
  value : Option (List UInt8)
  timestamp : τ
  isTombstone : Bool
  found : Bool
deriving DecidableEq

/-- `_validate_key`. -/
def validateKey (key : String) : Except Error Unit :=
  require (key.utf8ByteSize ≤ 256)
    (.valueError ("Key exceeds maximum size: " ++ toString key.utf8ByteSize ++ " bytes (max 256 bytes)"))

/-- `get`: of the memtable and the tables in their order, a later entry only counts when it is newer. -/
def StorageEngine.get (s : StorageEngine τ) (key : String) : Except Error (Option (StorageResult τ)) := do
  validateKey key
  let best := s.sstables.foldl (fun best t => newerOf Entry.timestamp best (t.get key)) (s.memtable.entries.get? key)
  return best.map fun best => ⟨best.key, best.value, best.timestamp, best.isTombstone, true⟩

/-- One entry of `scan`: it takes the place of one that is not newer. -/
def scanEntry (entries : Dict String (Entry τ)) (entry : Entry τ) : Dict String (Entry τ) :=
  match entries.get? entry.key with
  | some previous => if previous.timestamp ≤ entry.timestamp then entries.set entry.key entry else entries
  | none => entries.set entry.key entry

def StorageEngine.scan (s : StorageEngine τ) : Dict String (StorageResult τ) :=
  let entries := s.sstables.reverse.foldl (fun entries t => t.entries.foldl scanEntry entries) .empty
  let entries := s.memtable.entriesSorted.foldl scanEntry entries
  entries.mapVal fun entry => ⟨entry.key, entry.value, entry.timestamp, entry.isTombstone, !entry.isTombstone⟩

/-! ### Runs -/

inductive Event (τ : Type) where
  | write (entry : Entry τ)
  | flush (created compacted : τ)
  | restart

/-- What an event writes. -/
def Event.written : Event τ → List (Entry τ)
  | .write entry => [entry]
  | .flush _ _ => []
  | .restart => []

/-- A step of the engine. A restart loads the tables in the order of their creation, newest first, and finds in the
log what was in the memtable. -/
inductive Step : StorageEngine τ → Event τ → StorageEngine τ → Prop
  | write (s : StorageEngine τ) (entry : Entry τ) : Step s (.write entry) (s.write entry)
  | flush {s s' : StorageEngine τ} {created compacted : τ} (h : s.flush created compacted = .ok s') :
      Step s (.flush created compacted) s'
  | restart (s : StorageEngine τ) {sstables : List (SSTable τ)} (hloaded : sstables.Perm s.sstables)
      (hsorted : sstables.Pairwise fun a b => b.createdAt ≤ a.createdAt) :
      Step s .restart { s with sstables := sstables }

/-- A run from an engine without files whose steps all meet a condition, with what was written in it. -/
inductive Run (condition : StorageEngine τ → Event τ → Prop) : StorageEngine τ → List (Entry τ) → Prop
  | start (memtableSize compactionThreshold : ℤ) : Run condition (.new memtableSize compactionThreshold) []
  | step {s s' : StorageEngine τ} {log : List (Entry τ)} {event : Event τ} (h : Run condition s log)
      (hstep : Step s event s') (hmet : condition s event) : Run condition s' (log ++ event.written)

end SystemDesign.KvStorage
