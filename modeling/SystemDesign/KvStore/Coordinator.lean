import SystemDesign.Lib.Transitions
import SystemDesign.KvStore.Replica

/-!
The coordinator (`replication/service.py`) and the cluster around it, for one key.

A write reads the local record, raises its own counter above every one it sees,
prunes other nodes' entries, stores the version locally and only then fans it
out; it returns once enough targets acknowledged. A read collects the records
of enough targets and reconciles them.

`Step` lets everything happen in any order: requests in flight are executed
late, twice or never, replies are lost, replicas merge whatever else arrives
(hints, repair), coordinators stop between any two steps and start again. The
engine is a durable register per key: a restart keeps the records and forgets
the calls in progress.
-/

namespace SystemDesign.KvStore

/-! ### Issuing a clock -/

/-- `VectorClock.increment`. -/
def VectorClock.increment (c : VectorClock) (nodeId : String) : VectorClock :=
  let newEntries := c.entries.set nodeId ((c.entries.get? nodeId).getD 0 + 1)
  if newEntries.entries.length > c.maxEntries then
    match newEntries.keys.argmin (fun k => (newEntries.get? k).getD 0) with
    | some minNode => { c with entries := newEntries.erase minNode }
    | none => { c with entries := newEntries }
  else { c with entries := newEntries }

/-- The pruning loop; one round for every entry above the limit. -/
def prune (nodeId : String) : ℕ → Dict String ℕ → Py (Dict String ℕ)
  | 0, entries => .ok entries
  | rounds + 1, entries =>
      match (entries.keys.filter (· ≠ nodeId)).argmin (fun k => (entries.get? k).getD 0) with
      | some victim => prune nodeId rounds (entries.erase victim)
      | none => .error (.valueError "min() iterable argument is empty")

/-- The largest own counter of the local record. -/
def highestCounter (nodeId : String) (old : List Version) : ℕ := (old.map fun v => v.clock.counter nodeId).foldr max 0

/-- The clock of `_write_admitted`. -/
def issueClock (nodeId : String) (maxClockEntries : ℕ) (old : List Version)
    (clientClock : Dict String ℕ) : Py VectorClock := do
  let entries := clientClock.set nodeId (max ((clientClock.get? nodeId).getD 0) (highestCounter nodeId old))
  let entries ← prune nodeId (entries.entries.length - maxClockEntries) entries
  return VectorClock.increment ⟨entries, maxClockEntries⟩ nodeId

/-! ### Quorums and placement -/

inductive ConsistencyLevel where
  | one
  | quorum
  | all

structure QuorumConfig where
  n : ℕ
  w : ℕ
  r : ℕ

/-- `QuorumConfig.from_consistency_level`. -/
def QuorumConfig.fromConsistencyLevel (level : ConsistencyLevel) (n : ℕ) : QuorumConfig :=
  match level with
  | .one => ⟨n, 1, 1⟩
  | .quorum => ⟨n, n / 2 + 1, n / 2 + 1⟩
  | .all => ⟨n, n, n⟩

/-- `QuorumManager.get_quorum_config`. -/
def QuorumConfig.get (config : QuorumConfig) (consistency : Option ConsistencyLevel) :
    QuorumConfig :=
  match consistency with
  | some level => fromConsistencyLevel level config.n
  | none => config

/-- One round of the loop of `_targets` over the primaries. -/
def substitute (order : List String) (alive : String → Bool)
    (acc : List String × Dict String String) (primary : String × ℕ) :
    List String × Dict String String :=
  if alive primary.1 then acc
  else match order.find? fun candidate => candidate ∉ acc.1 && alive candidate with
    | some candidate => (acc.1.set primary.2 candidate, acc.2.set candidate primary.1)
    | none => acc

/-- `ReplicaCoordinator._targets`, given the ring's order for the key. -/
def targets (order : List String) (alive : String → Bool) (n : ℕ) : List String × Dict String String :=
  (order.take n).zipIdx.foldl (substitute order alive) (order.take n, .empty)

/-! ### The cluster -/

/-- What does not change during a run: the configuration, the ring's order for the key (distinct
nodes, so one task for each target) and which nodes are considered alive. -/
structure Setup where
  floats : Floats
  quorum : QuorumConfig
  order : List String
  distinct : order.Nodup
  alive : String → Bool
  maxClockEntries : ℕ

def Setup.targets (setup : Setup) : List String := (KvStore.targets setup.order setup.alive setup.quorum.n).1

/-- A write whose version is in the coordinator's own record. -/
structure Write where
  coordinator : String
  version : Version
  required : ℕ
  applied : List String
  acked : List String
  returned : Bool

/-- A read in progress: what had returned before it started, and the answers so far. -/
structure Read where
  required : ℕ
  before : List Write
  answers : List (String × List Version)

structure Cluster where
  records : String → Option String
  pending : String → Option (Version × ℕ)
  writes : List Write
  reads : List Read

def Cluster.empty : Cluster := ⟨fun _ => none, fun _ => none, [], []⟩

/-- The versions as they reach a replica: over the network, through a record. -/
def arriving (floats : Floats) (source node : String) (versions : List Version) : Py (List Version) :=
  if node = source then .ok versions else decode floats (encode floats versions)

inductive Step (setup : Setup) : Cluster → Cluster → Prop
  /-- `_write_admitted` up to the version; the write lock admits one at a time. -/
  | begin {s : Cluster} {node : String} {old : List Version} {clock : VectorClock}
      (clientClock : Dict String ℕ) (value : Option (List UInt8)) (timestamp : Number)
      (consistency : Option ConsistencyLevel)
      (hfree : s.pending node = none)
      (hclient : ∀ k n, clientClock.get? k = some n → 0 < n)
      (hread : readStored setup.floats (s.records node) = .ok old)
      (hclock : issueClock node setup.maxClockEntries old clientClock = .ok clock) :
      Step setup s { s with
        pending := Function.update s.pending node (some (⟨value, clock, timestamp⟩, (setup.quorum.get consistency).w)) }
  /-- The local merge; the version is now issued, even if the engine reports a failed flush. -/
  | persist {s : Cluster} {node : String} {version : Version} {required : ℕ}
      {stored : Option String} (hpending : s.pending node = some (version, required))
      (hmerge : merge setup.floats (s.records node) [version] = .ok stored) :
      Step setup s { s with
        records := Function.update s.records node stored
        pending := Function.update s.pending node none
        writes := s.writes ++ [⟨node, version, required, [], [], false⟩] }
  /-- The local merge raised, or the coordinator stopped before it. -/
  | abandon {s : Cluster} (node : String) :
      Step setup s { s with pending := Function.update s.pending node none }
  /-- A replica executes a merge request of a write, now or again. -/
  | apply {s : Cluster} {i : ℕ} {write : Write} {node : String} {versions : List Version}
      {stored : Option String} (hwrite : s.writes[i]? = some write)
      (harrive : arriving setup.floats write.coordinator node [write.version] = .ok versions)
      (hmerge : merge setup.floats (s.records node) versions = .ok stored) :
      Step setup s { s with
        records := Function.update s.records node stored
        writes := s.writes.set i { write with applied := node :: write.applied } }
  /-- The coordinator collects the reply of one target's task. -/
  | ack {s : Cluster} {i : ℕ} {write : Write} {node : String}
      (hwrite : s.writes[i]? = some write) (happlied : node ∈ write.applied)
      (htarget : node ∈ setup.targets) (hnew : node ∉ write.acked) :
      Step setup s { s with
        writes := s.writes.set i { write with acked := node :: write.acked } }
  /-- `_collect` returns. -/
  | succeed {s : Cluster} {i : ℕ} {write : Write} (hwrite : s.writes[i]? = some write)
      (hquorum : write.required ≤ write.acked.length) :
      Step setup s { s with writes := s.writes.set i { write with returned := true } }
  /-- Any other merge: a hint handed off, a repair, a duplicate. -/
  | merge {s : Cluster} {node : String} {versions : List Version} {stored : Option String}
      (hpositive : AllPositive versions)
      (hmerge : merge setup.floats (s.records node) versions = .ok stored) :
      Step setup s { s with records := Function.update s.records node stored }
  | beginGet {s : Cluster} (consistency : Option ConsistencyLevel) :
      Step setup s { s with
        reads := s.reads ++ [⟨(setup.quorum.get consistency).r, s.writes.filter (·.returned), []⟩] }
  /-- A target answers a read with the record it holds now. -/
  | answer {s : Cluster} {j : ℕ} {read : Read} {node : String} {held versions : List Version}
      (reader : String) (hread : s.reads[j]? = some read) (htarget : node ∈ setup.targets)
      (hnew : node ∉ read.answers.map Prod.fst)
      (hheld : readStored setup.floats (s.records node) = .ok held)
      (harrive : arriving setup.floats reader node held = .ok versions) :
      Step setup s { s with
        reads := s.reads.set j { read with answers := (node, versions) :: read.answers } }

def cluster (setup : Setup) : Transitions Cluster where
  start s := s = .empty
  step := Step setup

/-! ### What a read returns -/

structure GetResult where
  found : Bool
  value : Option (List UInt8) := none
  clock : Option VectorClock := none
  hasConflict : Bool := false
  conflictingValues : List (Option (List UInt8) × VectorClock) := []

/-- The end of `_get_admitted`, on the versions of the collected answers. -/
def getResult (floats : Floats) (responses : List (List Version)) : GetResult :=
  match reconcile floats responses.flatten with
  | [] => { found := false }
  | [version] =>
      { found := version.value.isSome, value := version.value, clock := some version.clock }
  | versions =>
      { found := true, hasConflict := true
        conflictingValues := versions.map fun v => (v.value, v.clock) }

/-- The values and clocks a client gets. -/
def GetResult.siblings (result : GetResult) : List (Option (List UInt8) × VectorClock) :=
  if result.hasConflict then result.conflictingValues
  else match result.clock with
    | some clock => [(result.value, clock)]
    | none => []

end SystemDesign.KvStore
