import SystemDesign.Lib.Heapq
import SystemDesign.Lib.Walks
import SystemDesign.Maps.Telemetry

/-!
Routes over the road graph (`route` of `navigation.py`, with `outgoing` of `store.py`).

Edges are as `catalog.py` admitted them, and edge times are exact. A missing node row, the geometry of a route and its
instructions are not represented: the catalog admits an edge between known nodes only.
-/

namespace SystemDesign.Maps.Routing

open Heapq

inductive Error
  | invalidOptions
  | searchBudget
  | unreachable
  | keyError

/-- A row of `edges`. -/
structure Edge where
  id : String
  source : String
  target : String
  length : ℚ
  speeds : Dict String ℚ
  toll : Bool
  length_pos : 0 < length
  speeds_pos : ∀ mode speed, speeds.get? mode = some speed → 0 < speed

/-- The tables that a route reads, and the clock. -/
structure Roads where
  edges : List Edge
  traffic : Dict String Traffic
  now : ℚ
  ids_nodup : (edges.map Edge.id).Nodup
  traffic_pos : ∀ id state speed, traffic.get? id = some state → state.speed = some speed → 0 < speed

/-- A call of `route`, with its nodes resolved. -/
structure Call where
  roads : Roads
  source : String
  target : String
  mode : String
  avoidTolls : Bool
  alternatives : ℤ
  maxNodes : ℤ

def Call.Valid (call : Call) : Prop :=
  call.mode ∈ allModes ∧ (1 ≤ call.alternatives ∧ call.alternatives ≤ 3) ∧ 1 ≤ call.maxNodes ∧ call.maxNodes ≤ 100000

instance (call : Call) : Decidable call.Valid := inferInstanceAs (Decidable (_ ∧ (_ ∧ _) ∧ _ ∧ _))

structure Route where
  nodes : List String
  edges : List Edge
  distance : ℚ
  eta : ℚ

def Route.names (route : Route) : List String := route.edges.map Edge.id

structure Response where
  routes : List Route
  nodesVisited : ℤ

variable (call : Call)

/-! ### Edges -/

def Call.outgoing (node : String) : List Edge :=
  (call.roads.edges.filter fun edge => edge.source = node).mergeSort fun a b => decide (a.id ≤ b.id)

/-- The live row of `traffic` about an edge, which only drivers look at. -/
def Call.state (edge : Edge) : Option Traffic :=
  if call.mode = "driving" then (call.roads.traffic.get? edge.id).filter fun state => decide (call.roads.now < state.expires)
  else none

/-- The speed on an edge that a search may use. -/
def Call.speed (banned : List String) (edge : Edge) : Option ℚ :=
  if edge.id ∈ banned then none
  else match edge.speeds.get? call.mode with
    | none => none
    | some usual =>
      if call.avoidTolls ∧ edge.toll then none
      else match call.state edge with
        | none => some usual
        | some state => if state.closed then none else some (state.speed.getD usual)

def Call.time (banned : List String) (edge : Edge) : Option ℚ := (call.speed banned edge).map (edge.length / ·)

/-! ### The search -/

structure Search where
  frontier : List (ℚ ×ₗ String)
  costs : Dict String ℚ
  parents : Dict String (String × Edge)
  /-- The latest first. -/
  visited : List String

def Search.start (source : String) : Search := ⟨[toLex (0, source)], Dict.empty.set source 0, Dict.empty, []⟩

def Search.improve (s : Search) (node : String) (edge : Edge) (value : ℚ) : Search :=
  { s with
    costs := s.costs.set edge.target value
    parents := s.parents.set edge.target (node, edge)
    frontier := heappush s.frontier (toLex (value, edge.target)) }

def relax (duration : Edge → Option ℚ) (node : String) (cost : ℚ) (s : Search) (edge : Edge) : Search :=
  match duration edge with
  | none => s
  | some d =>
    if ∀ known ∈ s.costs.get? edge.target, cost + d < known then s.improve node edge (cost + d) else s

/-- The nodes and the edges from the source to a node. -/
def trace (parents : Dict String (String × Edge)) (source : String) : ℕ → String → Except Error (List String × List Edge)
  | 0, _ => .error .keyError
  | fuel + 1, node =>
    if node = source then .ok ([node], [])
    else match parents.get? node with
      | none => .error .keyError
      | some (previous, edge) => do
        let path ← trace parents source fuel previous
        .ok (path.1 ++ [node], path.2 ++ [edge])

def explore (duration : Edge → Option ℚ) : ℕ → Search → ℤ → Except Error (Option Route × ℤ)
  | 0, _, total => .ok (none, total)
  | fuel + 1, s, total =>
    match heappop s.frontier with
    | none => .ok (none, total)
    | some (entry, frontier) =>
      let cost := (ofLex entry).1
      let node := (ofLex entry).2
      if node ∈ s.visited then explore duration fuel { s with frontier } total
      else if call.maxNodes < total + 1 then .error .searchBudget
      else if node = call.target then do
        let path ← trace s.parents call.source (s.visited.length + 1) node
        .ok (some ⟨path.1, path.2, (path.2.map Edge.length).sum, cost⟩, total + 1)
      else explore duration fuel ((call.outgoing node).foldl (relax duration node cost)
        { s with frontier, visited := node :: s.visited }) (total + 1)

def shortest (banned : List String) (total : ℤ) : Except Error (Option Route × ℤ) :=
  explore call (call.time banned) (call.roads.edges.length + 1) (Search.start call.source) total

/-! ### Alternatives -/

/-- The searches that avoid one edge each. -/
def detours : List Edge → Dict (List String) Route → ℤ → Except Error (Dict (List String) Route × ℤ)
  | [], found, total => .ok (found, total)
  | edge :: edges, found, total => do
    let answer ← shortest call [edge.id] total
    match answer.1 with
    | none => detours edges found answer.2
    | some candidate => detours edges (found.set candidate.names candidate) answer.2

/-- The best path, the candidates by their edges, and the number of visits. -/
def candidates : Except Error (Route × Dict (List String) Route × ℤ) := do
  let answer ← shortest call [] 0
  match answer.1 with
  | none => .error .unreachable
  | some best =>
    let found ← detours call (if 1 < call.alternatives then best.edges.take 64 else []) (Dict.empty.set best.names best)
      answer.2
    .ok (best, found)

def Route.rank (route : Route) : ℚ ×ₗ List String := toLex (route.eta, route.names)

def route : Except Error Response := do
  require call.Valid .invalidOptions
  let found ← candidates call
  .ok ⟨(found.2.1.values.mergeSort fun a b => decide (a.rank ≤ b.rank)).take call.alternatives.toNat, found.2.2⟩

end SystemDesign.Maps.Routing
