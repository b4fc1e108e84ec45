import SystemDesign.ConsistentHash.Ring
import SystemDesign.Lib.DictEntries
import SystemDesign.Lib.Transaction

/-!
Histories of topology calls on the published state.

A published state holds its positions beside its entries, and every lookup searches the positions it
holds. Whatever calls led to it, a ring is the one built from scratch for its weights.
-/

namespace SystemDesign.ConsistentHash

/-- `_RingState`, with all that it publishes. -/
structure Published where
  entries : List Entry
  positions : List ℤ
  nodes : List String

namespace Published

/-- `_RingState.from_ordered`. -/
def fromOrdered (entries : List Entry) (nodes : List String) : Published := ⟨entries, entries.map Entry.position, nodes⟩

/-- `_RingState.build`. -/
def build (entries : List Entry) (nodes : List String) : Published := fromOrdered (entries.mergeSort Entry.le) nodes

/-! ### Lookup -/

/-- `_start` at a position. -/
def start (p : Published) (position : ℤ) : Except RingError ℕ :=
  if p.entries.isEmpty then .error (.runtimeError "Hash ring is empty - no nodes available.")
  else .ok (bisectRight p.positions position % p.entries.length)

/-- `get_node`. -/
def getNode (p : Published) (hash : String → ℤ) (key : String) : Except RingError String := do
  let start ← p.start (hash key)
  match p.entries[start]? with
  | some entry => .ok entry.node
  | none => .error .indexError

/-- The loop of `get_nodes` over the offsets that are left. -/
def collect (entries : List Entry) (start target : ℕ) : List ℕ → List String → Except RingError (List String)
  | [], result => .ok result
  | offset :: offsets, result =>
    match entries[(start + offset) % entries.length]? with
    | none => .error .indexError
    | some entry =>
      if entry.node ∈ result then collect entries start target offsets result
      else if (result ++ [entry.node]).length = target then .ok (result ++ [entry.node])
      else collect entries start target offsets (result ++ [entry.node])

/-- `get_nodes`. -/
def getNodes (p : Published) (hash : String → ℤ) (key : String) (count : ℤ) : Except RingError (List String) := do
  if count < 0 then throw (.valueError "count must be a non-negative integer")
  if count = 0 then return []
  let start ← p.start (hash key)
  let target := min count.toNat p.nodes.length
  collect p.entries start target (List.range p.entries.length) []

/-- Lookups read the entries, the positions and the number of nodes. -/
theorem lookup_congr {p p' : Published} (hentries : p'.entries = p.entries) (hpositions : p'.positions = p.positions)
    (hnodes : p'.nodes.length = p.nodes.length) (hash : String → ℤ) (key : String) :
    p'.getNode hash key = p.getNode hash key ∧ ∀ count, p'.getNodes hash key count = p.getNodes hash key count := by
  have hstart : ∀ position, p'.start position = p.start position := fun position => by
    rw [start, start, hentries, hpositions]
  refine ⟨?_, fun count => ?_⟩
  · rw [getNode, getNode, hstart, hentries]
  · rw [getNodes, getNodes, hstart, hentries, hnodes]

end Published

/-! ### Calls -/

inductive Call where
  | addNode (node : String) (numVirtualNodes : ℤ)
  | removeNode (node : String)
  | setVirtualNodes (node : String) (count : ℤ)

section Calls

variable (hash : String → ℤ) (maxVirtualNodes : ℕ)

/-- `add_node`, with its default count filled in. -/
def publishAdd (p : Published) (node : String) (numVirtualNodes : ℤ) : Except RingError (Published × List ℤ) := do
  validateNode node
  let count ← positiveCount numVirtualNodes
  if node ∈ p.nodes then throw (.valueError ("Node '" ++ node ++ "' already exists on the ring."))
  ensureCapacity maxVirtualNodes (p.entries.length + count)
  let added := virtualEntries hash node 0 count
  return (.fromOrdered ((p.entries ++ added.mergeSort Entry.le).mergeSort Entry.le) (p.nodes ++ [node]),
    added.map Entry.position)

/-- `remove_node`. -/
def publishRemove (p : Published) (node : String) : Except RingError (Published × List ℤ) := do
  validateNode node
  if node ∉ p.nodes then throw (missing node)
  let removed := (p.entries.filter fun e => e.node = node).mergeSort fun a b => decide (a.index ≤ b.index)
  let retained := p.entries.filter fun e => e.node ≠ node
  return (.fromOrdered retained (p.nodes.filter fun name => name ≠ node), removed.map Entry.position)

/-- `set_virtual_nodes`. -/
def publishSet (p : Published) (node : String) (value : ℤ) : Except RingError (Published × List ℤ) := do
  validateNode node
  let count ← positiveCount value
  if node ∉ p.nodes then throw (missing node)
  let oldCount := p.entries.countP fun e => e.node = node
  ensureCapacity maxVirtualNodes (p.entries.length - oldCount + count)
  if oldCount = count then return (p, [])
  if oldCount < count then
    let added := virtualEntries hash node oldCount count
    return (.fromOrdered ((p.entries ++ added.mergeSort Entry.le).mergeSort Entry.le) p.nodes, [])
  return (.fromOrdered (p.entries.filter fun e => e.node ≠ node || e.index < count) p.nodes, [])

/-- One call: the state it publishes and the positions it returns. -/
def perform (p : Published) : Call → Except RingError (Published × List ℤ)
  | .addNode node numVirtualNodes => publishAdd hash maxVirtualNodes p node numVirtualNodes
  | .removeNode node => publishRemove p node
  | .setVirtualNodes node count => publishSet hash maxVirtualNodes p node count

/-- What a call that returns makes of the weights. -/
def Call.weigh (w : Dict String ℕ) : Call → Dict String ℕ
  | .addNode node numVirtualNodes => w.set node numVirtualNodes.toNat
  | .removeNode node => w.erase node
  | .setVirtualNodes node count => w.set node count.toNat

/-- The weights of a new ring. -/
def newWeights (count : ℕ) (names : List String) : Dict String ℕ := names.foldl (fun w name => w.set name count) .empty

/-- The published states, with the weights that the calls so far have asked for. -/
inductive History : Published → Dict String ℕ → Prop where
  | new {count : ℕ} {names : List String} {s : RingState} : 0 < count → init hash maxVirtualNodes count names = .ok s →
      History (.fromOrdered s.entries s.nodes) (newWeights count names)
  | call {p p' : Published} {w : Dict String ℕ} {c : Call} {out : List ℤ} : History p w →
      perform hash maxVirtualNodes p c = .ok (p', out) → History p' (c.weigh w)

/-- The virtual nodes of the weights, node by node. -/
def scratch (w : Dict String ℕ) : List Entry := w.entries.flatMap fun e => virtualEntries hash e.1 0 e.2

end Calls

/-! ### One order for the entries -/

theorem Entry.le_antisymm {a b : Entry} (hab : a.le b = true) (hba : b.le a = true) : a = b := by
  simp only [Entry.le, decide_eq_true_eq] at hab hba
  have hkey : a.key = b.key := hab.antisymm hba
  obtain ⟨_, _, _⟩ := a
  obtain ⟨_, _, _⟩ := b
  simpa [Entry.key, Prod.ext_iff] using hkey

theorem sorted_eq {l l' : List Entry} (h : l.Perm l') (hl : l.Pairwise fun a b => a.le b = true)
    (hl' : l'.Pairwise fun a b => a.le b = true) : l = l' :=
  h.eq_of_pairwise (fun _ _ _ _ => Entry.le_antisymm) hl hl'

theorem sorted_mergeSort (l : List Entry) : (l.mergeSort Entry.le).Pairwise fun a b => a.le b = true :=
  List.pairwise_mergeSort Entry.le_trans Entry.le_total l

end SystemDesign.ConsistentHash
