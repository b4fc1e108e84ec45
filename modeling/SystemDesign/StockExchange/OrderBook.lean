import SystemDesign.Lib.Heapq
import SystemDesign.StockExchange.Contracts

/-!
Price levels, FIFO links and the order-id index (`order_book.py`).

A side keeps a map from price to level, a heap of signed prices that is cleaned
lazily, and a map from order id to list node. Levels are keyed by the price
itself; the source keys them by its decimal text. Nothing observes the order of
`levels`, `nodes` or the symbol map, so they are `SortedMap`s: the one place
that walks the levels sorts them by price first.
-/

namespace SystemDesign.StockExchange

inductive Status where
  | OPEN
  | PARTIAL
  | FILLED
  | CANCELED
deriving DecidableEq

def Status.text : Status → String
  | .OPEN => "OPEN"
  | .PARTIAL => "PARTIAL"
  | .FILLED => "FILLED"
  | .CANCELED => "CANCELED"

structure Order where
  requestId : String
  orderId : String
  symbol : String
  side : Side
  price : ℤ
  quantity : ℤ
  owner : String
  seq : ℤ
  timestamp : ℤ
  day : String
  remaining : ℤ
  filled : ℤ
  status : Status
  reason : String
deriving DecidableEq

/-- `order["status"] in ("OPEN", "PARTIAL")`. -/
def Order.active (o : Order) : Bool := o.status = .OPEN || o.status = .PARTIAL

structure Level where
  head : Option String
  tail : Option String
  quantity : ℤ

structure Node where
  previous : Option String
  next : Option String
  price : ℤ
  quantity : ℤ

structure BookSide where
  levels : SortedMap ℤ Level
  heap : List ℤ
  nodes : SortedMap String Node

structure Book where
  buy : BookSide
  sell : BookSide

/-- `-1 if side == "BUY" else 1`: heap entries of the buy side are negated. -/
def Side.sign : Side → ℤ
  | .BUY => -1
  | .SELL => 1

def Book.get (b : Book) : Side → BookSide
  | .BUY => b.buy
  | .SELL => b.sell

def Book.set (b : Book) : Side → BookSide → Book
  | .BUY, v => { b with buy := v }
  | .SELL, v => { b with sell := v }

/-! ### One side of one book -/

namespace BookSide

def empty : BookSide := ⟨.empty, [], .empty⟩

/-- Write the `next` field of a neighbour, if there is one. -/
def linkNext (nodes : SortedMap String Node) (id next : Option String) : Py (SortedMap String Node) :=
  match id with
  | none => .ok nodes
  | some id => do
      let node ← nodes.getItem id
      return nodes.insert id { node with next }

/-- Write the `previous` field of a neighbour, if there is one. -/
def linkPrevious (nodes : SortedMap String Node) (id previous : Option String) : Py (SortedMap String Node) :=
  match id with
  | none => .ok nodes
  | some id => do
      let node ← nodes.getItem id
      return nodes.insert id { node with previous }

/-- The level of a price, made with a heap entry when it is new. -/
def openLevel (s : BookSide) (sd : Side) (price : ℤ) : BookSide :=
  if s.levels.contains price then s else
    { s with levels := s.levels.insert price ⟨none, none, 0⟩,
             heap := Heapq.heappush s.heap (price * sd.sign) }

/-- `add` once the side is found. -/
def add (s : BookSide) (sd : Side) (id : String) (price remaining : ℤ) : Py BookSide := do
  if s.nodes.contains id then throw (.valueError "order already indexed")
  let s := s.openLevel sd price
  let level ← s.levels.getItem price
  let previous := level.tail
  let nodes := s.nodes.insert id ⟨previous, none, price, remaining⟩
  let head := if previous = none then some id else level.head
  let nodes ← linkNext nodes previous (some id)
  return { s with
    nodes, levels := s.levels.insert price ⟨head, some id, level.quantity + remaining⟩ }

/-- The heap rebuilt from the levels once stale entries outnumber them. -/
def compact (s : BookSide) (sd : Side) : BookSide :=
  if s.heap.length > 2 * s.levels.entries.length + 8 then
    { s with heap := Heapq.heapify (s.levels.keys.map (· * sd.sign)) }
  else s

/-- `remove` once the side is found; an id that is not indexed changes nothing. -/
def remove (s : BookSide) (sd : Side) (id : String) : Py BookSide :=
  match s.nodes.get? id with
  | none => .ok s
  | some node => do
      let nodes := s.nodes.erase id
      let level ← s.levels.getItem node.price
      let head := if node.previous = none then node.next else level.head
      let nodes ← linkNext nodes node.previous node.next
      let tail := if node.next = none then node.previous else level.tail
      let nodes ← linkPrevious nodes node.next node.previous
      let level : Level := ⟨head, tail, level.quantity - node.quantity⟩
      let levels := if level.head = none then s.levels.erase node.price
        else s.levels.insert node.price level
      return compact { s with nodes, levels } sd

/-- `consume`: take `quantity` from an indexed order. -/
def consume (s : BookSide) (sd : Side) (id : String) (quantity : ℤ) : Py BookSide := do
  let node ← s.nodes.getItem id
  if quantity = node.quantity then s.remove sd id
  else if 0 < quantity ∧ quantity < node.quantity then
    let level ← s.levels.getItem node.price
    let nodes := s.nodes.insert id { node with quantity := node.quantity - quantity }
    let levels := s.levels.insert node.price { level with quantity := level.quantity - quantity }
    return { s with nodes, levels }
  else throw (.valueError "invalid indexed execution quantity")

/-- The loop of `best`: pop stale prices until a live level is on top. -/
def bestLoop (sd : Side) (levels : SortedMap ℤ Level) : ℕ → List ℤ → List ℤ × Option String
  | 0, heap => (heap, none)
  | n + 1, heap =>
      match heap with
      | [] => ([], none)
      | top :: rest =>
          match levels.get? (top * sd.sign) with
          | some level => (top :: rest, level.head)
          | none =>
              match Heapq.heappop (top :: rest) with
              | none => (top :: rest, none)
              | some popped => bestLoop sd levels n popped.2

/-- `best` on the maker side `sd`: the side with a cleaned heap, and the head of the best level. -/
def best (s : BookSide) (sd : Side) : BookSide × Option String :=
  let r := bestLoop sd s.levels s.heap.length s.heap
  ({ s with heap := r.1 }, r.2)

/-- Quantity by price. -/
def quantities (s : BookSide) : SortedMap ℤ ℤ := s.levels.mapVal (·.quantity)

end BookSide

/-! ### The index over all symbols -/

abbrev BookIndex := SortedMap String Book

namespace BookIndex

def empty (symbols : List String) : BookIndex :=
  SortedMap.ofList (symbols.map fun symbol => (symbol, ⟨BookSide.empty, BookSide.empty⟩))

/-- Run an operation on `value[symbol][side]`. -/
def onSide (index : BookIndex) (symbol : String) (sd : Side) (f : BookSide → Py BookSide) :
    Py BookIndex := do
  let book ← index.getItem symbol
  let s ← f (book.get sd)
  return index.insert symbol (book.set sd s)

def add (index : BookIndex) (order : Order) : Py BookIndex :=
  onSide index order.symbol order.side fun s => s.add order.side order.orderId order.price order.remaining

def remove (index : BookIndex) (order : Order) : Py BookIndex :=
  onSide index order.symbol order.side fun s => s.remove order.side order.orderId

def consume (index : BookIndex) (order : Order) (quantity : ℤ) : Py BookIndex :=
  onSide index order.symbol order.side fun s => s.consume order.side order.orderId quantity

/-- The maker on top of the side opposite to the taker. -/
def best (index : BookIndex) (symbol : String) (takerSide : Side) : Py (BookIndex × Option String) := do
  let book ← index.getItem symbol
  let r := (book.get takerSide.opposite).best takerSide.opposite
  return (index.insert symbol (book.set takerSide.opposite r.1), r.2)

end BookIndex

/-- Price levels of both sides of one symbol. -/
structure Levels where
  bids : SortedMap ℤ ℤ
  asks : SortedMap ℤ ℤ

def BookIndex.levels (index : BookIndex) (symbol : String) : Py Levels := do
  let book ← index.getItem symbol
  return ⟨book.buy.quantities, book.sell.quantities⟩

end SystemDesign.StockExchange
