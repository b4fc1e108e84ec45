import SystemDesign.Lib.Py
import SystemDesign.Lib.Heapq
import SystemDesign.Lib.Smallest
import SystemDesign.Lib.Transaction

/-!
Prefix-tree snapshots (`trie.py`).

A pair of a query and its count is ordered as its rank is. Of `str.lower` only the characters are represented whose lower
case is an English letter: any other one is refused as it is.
-/

namespace SystemDesign.Autocomplete

open Heapq Smallest

abbrev Text := List Char

/-! ### Queries -/

/-- `str.lower`, where it gives an English letter: those, and the Kelvin sign. -/
def lowerChar (c : Char) : Char := if c.isUpper then c.toLower else if c.toNat = 8490 then 'k' else c

def isLetter (c : Char) : Bool := 'a' ≤ c && c ≤ 'z'

/-- `str.split()` -/
def words (value : Text) : List Text := (value.splitOnP isSpace).filter (· ≠ [])

/-- `[a-z]+(?: [a-z]+)*` -/
def isPhrase (value : Text) : Bool := (value.splitOn ' ').all fun word => word ≠ [] && word.all isLetter

/-- The pattern of `normalize`, with one more space at the end of a prefix. -/
def fitsPattern (value : Text) (empty : Bool) : Bool :=
  isPhrase value || (empty && value.getLast? == some ' ' && isPhrase value.dropLast)

/-- `normalize` -/
def normalize (value : Text) (empty : Bool) : Py Text := do
  require (value.length ≤ 200) (.valueError "query must be a bounded string")
  let trailing := empty && value.getLast?.any isSpace
  let value := [' '].intercalate (words (value.map lowerChar))
  let value := if value ≠ [] ∧ trailing then value ++ [' '] else value
  if value = [] then
    if empty then return [] else throw (.valueError "query is empty")
  require (value.length ≤ 50 ∧ fitsPattern value empty)
    (.valueError "only English letters/spaces up to 50 characters supported")
  return value

/-- `Match` -/
structure Match where
  query : Text
  count : ℕ
  deriving DecidableEq

/-- `_rank` -/
def Match.rank (item : Match) : ℕᵒᵈ ×ₗ List Char := toLex (OrderDual.toDual item.count, item.query)

theorem Match.rank_injective : Function.Injective Match.rank := by
  rintro ⟨query, count⟩ ⟨query', count'⟩ h
  simp only [Match.rank, toLex_inj, Prod.mk.injEq, OrderDual.toDual_inj] at h
  rw [h.1, h.2]

/-- Pairs are compared by rank. -/
instance : LinearOrder Match := LinearOrder.lift' Match.rank Match.rank_injective

def topLimit : ℕ := 5

/-- `ranked` -/
def ranked (items : List Match) : List Match := smallest topLimit items

/-! ### Nodes -/

mutual

/-- A node: of the builder with nothing cached, of the published tree with its top. -/
inductive Tree (τ : Type) where
  | node (children : Forest τ) (terminal : Option Match) (top : τ)

/-- The children by their characters, in the order of insertion. -/
inductive Forest (τ : Type) where
  | nil
  | cons (char : Char) (child : Tree τ) (rest : Forest τ)

end

variable {τ : Type}

def Tree.children : Tree τ → Forest τ
  | .node children _ _ => children

def Tree.terminal : Tree τ → Option Match
  | .node _ terminal _ => terminal

def Tree.top : Tree τ → τ
  | .node _ _ top => top

/-- `children.get(char)` -/
def Forest.get? (char : Char) : Forest τ → Option (Tree τ)
  | .nil => none
  | .cons char' child rest => if char' = char then some child else rest.get? char

/-- `children[char] = child` -/
def Forest.set (char : Char) (child : Tree τ) : Forest τ → Forest τ
  | .nil => .cons char child .nil
  | .cons char' child' rest => if char' = char then .cons char' child rest else .cons char' child' (rest.set char child)

/-- `children.values()` -/
def Forest.nodes : Forest τ → List (Tree τ)
  | .nil => []
  | .cons _ child rest => child :: rest.nodes

/-- `_BuilderNode` -/
abbrev BuilderNode := Tree Unit

/-- `Node` -/
abbrev Node := Tree (List Match)

def emptyBuilder : BuilderNode := .node .nil none ()

/-- The walk of `Trie.__init__` for one query. -/
def insertAt (item : Match) : Text → BuilderNode → Py BuilderNode
  | [], .node children terminal _ => do
    require (terminal = none) (.valueError "duplicate snapshot query")
    return .node children (some item) ()
  | char :: rest, .node children terminal _ => do
    let child ← insertAt item rest ((children.get? char).getD emptyBuilder)
    return .node (children.set char child) terminal ()

mutual

/-- `_freeze` -/
def freeze : BuilderNode → Node
  | .node children terminal _ =>
    let children := freezeAll children
    .node children terminal (ranked (terminal.toList ++ tops children))

def freezeAll : Forest Unit → Forest (List Match)
  | .nil => .nil
  | .cons char child rest => .cons char (freeze child) (freezeAll rest)

/-- The cached items of the children. -/
def tops : Forest (List Match) → List Match
  | .nil => []
  | .cons _ (.node _ _ top) rest => top ++ tops rest

end

/-- `Trie.__init__` -/
def build (frequencies : List Match) : Py Node := do
  let root ← frequencies.foldlM (fun root item => do
    let query ← normalize item.query false
    require (query = item.query ∧ 0 < item.count) (.valueError "invalid snapshot frequency")
    insertAt item item.query root) emptyBuilder
  return freeze root

/-! ### Searching -/

/-- `_available_bound`; a bound is a pair of that rank. -/
def availableBound (node : Node) (blocked : Text → Bool) : Option Match :=
  match node.top.find? fun item => !blocked item.query with
  | some item => some item
  | none => if node.top.length = topLimit then node.top.getLast? else none

/-- `(bound, next(sequence), node)`: the node is found by its number. -/
structure Pending where
  heap : List (Match ×ₗ ℕ)
  nodes : List Node

/-- `heapq.heappush(pending, (bound, next(sequence), node))` -/
def Pending.push (p : Pending) (bound : Match) (node : Node) : Pending :=
  ⟨heappush p.heap (toLex (bound, p.nodes.length)), p.nodes ++ [node]⟩

/-- A child is pushed unless nothing of it can be among the best. -/
def pushChild (blocked : Text → Bool) (cutoff : Option Match) (p : Pending) (child : Node) : Pending :=
  match availableBound child blocked with
  | none => p
  | some bound => if cutoff.all (bound < ·) then p.push bound child else p

/-- `candidates[item[0]] = item[1]` -/
def record (candidates : Dict Text ℕ) (item : Match) : Dict Text ℕ := candidates.set item.query item.count

def itemsOf (candidates : Dict Text ℕ) : List Match := candidates.entries.map fun entry => ⟨entry.1, entry.2⟩

/-- `candidates`: the best so far and the allowed items of a node. -/
def candidatesOf (best : List Match) (blocked : Text → Bool) (node : Node) : List Match :=
  itemsOf ((best ++ (node.top ++ node.terminal.toList).filter fun item => !blocked item.query).foldl record Dict.empty)

/-- `best[-1]` when the list is full. -/
def full (best : List Match) : Option Match := if best.length = topLimit then best.getLast? else none

/-- `while pending`; without fuel and with pending nodes there is no result. -/
def refill (blocked : Text → Bool) : ℕ → Pending → List Match → Option (List Match)
  | 0, p, best => if p.heap = [] then some best else none
  | fuel + 1, p, best =>
    match heappop p.heap with
    | none => some best
    | some (key, heap) =>
      if (full best).any (· ≤ (ofLex key).1) then some best
      else
        match p.nodes[(ofLex key).2]? with
        | none => none
        | some node =>
          let best := ranked (candidatesOf best blocked node)
          refill blocked fuel (node.children.nodes.foldl (pushChild blocked (full best)) { p with heap }) best

mutual

/-- The number of nodes. -/
def Tree.size : Tree τ → ℕ
  | .node children _ _ => children.size + 1

def Forest.size : Forest τ → ℕ
  | .nil => 0
  | .cons _ child rest => child.size + rest.size

end

/-- `_filtered_top`, with as many rounds as there are nodes. -/
def filteredTop (node : Node) (blocked : Text → Bool) : Option (List Match) :=
  refill blocked node.size (pushChild blocked none ⟨[], []⟩ node) []

/-- The node of a prefix. -/
def walk : Text → Tree τ → Option (Tree τ)
  | [], node => some node
  | char :: rest, .node children _ _ =>
    match children.get? char with
    | none => none
    | some child => walk rest child

/-- `suggest`; `none` would be a search that does not end. -/
def suggest (root : Node) (pfx : Text) (blocked : Text → Bool) : Py (Option (List Match)) := do
  let pfx ← normalize pfx true
  if pfx = [] then return some []
  match walk pfx root with
  | none => return some []
  | some node =>
    if ¬ node.top.any fun item => blocked item.query then return some node.top
    else return filteredTop node blocked

end SystemDesign.Autocomplete
