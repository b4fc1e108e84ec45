import Mathlib.Data.Prod.Lex
import Mathlib.Data.String.Basic
import SystemDesign.Lib.Bisect

/-!
The hash ring (`ring.py`): virtual entries in ring order, the topology writers and
strict-clockwise lookup.

A published state is never modified, so a snapshot is a `RingState`. The hash is any
function from keys to integers; positions may collide and need not be bounded. The
writer lock and its check against reentry are left out: a writer is one step.
-/

namespace SystemDesign.ConsistentHash

inductive RingError where
  | valueError (message : String)
  | keyError (message : String)
  | runtimeError (message : String)
  | indexError

/-- One virtual node: `(position, node, index)`. -/
structure Entry where
  position : ℤ
  node : String
  index : ℕ

namespace Entry

/-- Tuples are ordered lexicographically. -/
def key (e : Entry) : ℤ ×ₗ String ×ₗ ℕ := toLex (e.position, toLex (e.node, e.index))

def le (a b : Entry) : Bool := decide (a.key ≤ b.key)

theorem le_trans (a b c : Entry) (hab : a.le b = true) (hbc : b.le c = true) : a.le c = true := by
  simp only [le, decide_eq_true_eq] at hab hbc ⊢
  exact hab.trans hbc

theorem le_total (a b : Entry) : (a.le b || b.le a) = true := by
  simp only [le, Bool.or_eq_true, decide_eq_true_eq]
  exact (le_or_gt a.key b.key).imp_right le_of_lt

theorem position_le {a b : Entry} (h : a.le b = true) : a.position ≤ b.position := by
  simp only [le, decide_eq_true_eq, key, Prod.Lex.toLex_le_toLex] at h
  rcases h with h | ⟨h, -⟩
  · exact le_of_lt h
  · exact le_of_eq h

end Entry

/-- `_RingState`: entries in ring order, with equal positions ordered by node name and
virtual index. -/
structure RingState where
  entries : List Entry
  nodes : List String
  ordered : entries.Pairwise fun a b => a.le b = true

namespace RingState

def positions (s : RingState) : List ℤ := s.entries.map Entry.position

@[simp] theorem length_positions (s : RingState) : s.positions.length = s.entries.length :=
  List.length_map _

theorem positions_sorted (s : RingState) : s.positions.Pairwise (· ≤ ·) :=
  List.pairwise_map.mpr (s.ordered.imp Entry.position_le)

/-- `_RingState.build`. -/
def build (entries : List Entry) (nodes : List String) : RingState where
  entries := entries.mergeSort Entry.le
  nodes := nodes
  ordered := List.pairwise_mergeSort Entry.le_trans Entry.le_total entries

end RingState

/-! ### Topology writers -/

section Writers

variable (hash : String → ℤ)

/-- `_entries`: virtual nodes `start`, ..., `stop - 1` of a node. -/
def virtualEntries (node : String) (start stop : ℕ) : List Entry :=
  (List.range' start (stop - start)).map fun index => ⟨hash (node ++ "#" ++ toString index), node, index⟩

def positiveCount (value : ℤ) : Except RingError ℕ :=
  if value ≤ 0 then .error (.valueError "virtual node count must be a positive integer")
  else .ok value.toNat

def validateNode (node : String) : Except RingError Unit :=
  if node = "" then .error (.valueError "node must be a non-empty string") else .ok ()

def ensureCapacity (maxVirtualNodes count : ℕ) : Except RingError Unit :=
  if maxVirtualNodes < count then
    .error (.valueError "maximum virtual node capacity exceeded")
  else .ok ()

/-- `ConsistentHashRing.__init__` with its settings already checked. -/
def init (maxVirtualNodes count : ℕ) (names : List String) : Except RingError RingState := do
  ensureCapacity maxVirtualNodes (names.length * count)
  names.forM validateNode
  if ¬ names.Nodup then throw (.valueError "duplicate node names")
  return .build (names.flatMap fun node => virtualEntries hash node 0 count) names

def missing (node : String) : RingError := .keyError ("Node '" ++ node ++ "' does not exist on the ring.")

end Writers

/-! ### Lookup -/

/-- `_start` at a position. -/
def RingState.start (s : RingState) (position : ℤ) : Except RingError ℕ :=
  if s.entries.isEmpty then
    .error (.runtimeError "Hash ring is empty - no nodes available.")
  else .ok (bisectRight s.positions position % s.entries.length)

/-- The owner of a position; `none` is an empty ring. -/
def RingState.ownerAt (s : RingState) (position : ℤ) : Option String :=
  (s.entries[bisectRight s.positions position % s.entries.length]?).map Entry.node

/-- `get_node`. -/
def RingState.getNode (s : RingState) (hash : String → ℤ) (key : String) :
    Except RingError String := do
  let start ← s.start (hash key)
  match s.entries[start]? with
  | some entry => .ok entry.node
  | none => .error .indexError

namespace RingState

variable (s : RingState)

theorem ownerAt_of_empty (h : s.entries = []) (p : ℤ) : s.ownerAt p = none := by
  simp [ownerAt, h]

/-- `get_node` returns the owner of the key's position and raises only on an empty ring. -/
theorem getNode_eq (hash : String → ℤ) (key : String) : s.getNode hash key = match s.ownerAt (hash key) with
      | some node => .ok node
      | none => .error (.runtimeError "Hash ring is empty - no nodes available.") := by
  by_cases h : s.entries = []
  · rw [ownerAt_of_empty s h]
    simp [getNode, start, h, bind, Except.bind]
  · have hpos : 0 < s.entries.length := List.length_pos_iff.mpr h
    have hlt := Nat.mod_lt (bisectRight s.positions (hash key)) hpos
    simp [getNode, start, ownerAt, h, bind, Except.bind, hlt]

theorem getNode_toOption (hash : String → ℤ) (key : String) : (s.getNode hash key).toOption = s.ownerAt (hash key) := by
  rw [getNode_eq]
  cases s.ownerAt (hash key) <;> rfl

theorem ownerAt_congr {p q : ℤ} (h : ∀ z ∈ s.positions, z ≤ p ↔ z ≤ q) : s.ownerAt p = s.ownerAt q := by
  rw [ownerAt, ownerAt, bisectRight_congr h]

theorem ownerAt_wrap {p q : ℤ} (hp : ∀ z ∈ s.positions, p < z)
    (hq : ∀ z ∈ s.positions, z ≤ q) : s.ownerAt p = s.ownerAt q := by
  rw [ownerAt, ownerAt, bisectRight_eq_zero hp, bisectRight_eq_length hq, length_positions, Nat.mod_self, Nat.zero_mod]

end RingState

end SystemDesign.ConsistentHash
