import SystemDesign.StockExchange.Matching

/-!
Independent conservation, reservation and order-book index checks (`audit.py`).

`audit` collects error texts; `matches` holds when there are none. A missing key
outside the guarded parts raises, a missing key or failed check inside them is
one error text. The first check of the source, that every number is an `int`,
is a matter of types here. The `visited`, `indexed` and `active` sets are lists
read through membership, and the per-order and per-owner accumulators of the
reconciliation are sums over the trades.
-/

namespace SystemDesign.StockExchange

structure Report where
  errors : List String
  cashSupply : ℤ
  shareSupply : List (String × ℤ)

/-- `"matches": not errors`. -/
def Report.matches (r : Report) : Bool := r.errors.isEmpty

def Balance.total (b : Balance) : ℤ := b.available + b.held

/-! ### Supplies and reservations -/

/-- Shares of one symbol over all accounts. -/
def shareSupply (s : State) (symbol : String) : Py ℤ := do
  let held ← s.accounts.values.mapM fun a => a.positions.getItem symbol
  return (held.map Balance.total).sum

def openingShares (s : State) (symbol : String) : ℤ := s.settings.accounts.sum fun v => (v.positions.get? symbol).getD 0

def openOrders (s : State) (owner : String) : List Order := s.orders.values.filter fun o => o.owner = owner && o.active

/-- Cash reserved by the open buy orders of an owner. -/
def reservedCash (s : State) (owner : String) : ℤ :=
  (((openOrders s owner).filter fun o => o.side = .BUY).map fun o => o.remaining * o.price).sum

/-- Shares reserved by the open sell orders of an owner in one symbol. -/
def reservedShares (s : State) (owner symbol : String) : ℤ :=
  (((openOrders s owner).filter fun o => o.side = .SELL && o.symbol = symbol).map fun o => o.remaining).sum

def reservationErrors (s : State) (owner : String) (account : Account) : List String :=
  (if account.cash.held ≠ reservedCash s owner then ["cash reservation mismatch: " ++ owner]
    else []) ++
  (account.positions.entries.flatMap fun p =>
    if min p.2.available p.2.held < 0 ∨ p.2.held ≠ reservedShares s owner p.1 then
      ["share reservation mismatch: " ++ owner] else []) ++
  (if min account.cash.available account.cash.held < 0 then ["negative cash: " ++ owner] else [])

/-! ### The order-book index -/

/-- The active order of an id: `active[id]`. -/
def activeOrder (s : State) (id : String) : Option Order := (s.orders.get? id).filter Order.active

/-- Where the walk along one level stands. -/
structure Walk where
  visited : List String
  previous : Option String
  quantity : ℤ
  lastSeq : ℤ

/-- The walk along one level's links. A node is visited once, so the fuel is the number of
orders. -/
def walkLevel (s : State) (value : BookSide) (symbol : String) (sd : Side) (price : ℤ) :
    ℕ → Option String → Walk → Py Walk
  | _, none, w => .ok w
  | 0, some _, _ => .error .outOfFuel
  | fuel + 1, some cursor, w => do
      if cursor ∈ w.visited then throw (.valueError "cycle or inactive node")
      match activeOrder s cursor with
      | none => throw (.valueError "cycle or inactive node")
      | some order =>
          let node ← value.nodes.getItem cursor
          if node.previous ≠ w.previous ∨ order.symbol ≠ symbol ∨ order.side ≠ sd ∨
              order.price ≠ price ∨ node.price ≠ price ∨ node.quantity ≠ order.remaining ∨
              order.seq ≤ w.lastSeq then
            throw (.valueError "book link/priority mismatch")
          walkLevel s value symbol sd price fuel node.next
            ⟨cursor :: w.visited, some cursor, w.quantity + node.quantity, order.seq⟩

def auditLevel (s : State) (value : BookSide) (symbol : String) (sd : Side)
    (visited : List String) (entry : ℤ × Level) : Py (List String) := do
  let w ← walkLevel s value symbol sd entry.1 (s.orders.entries.length) entry.2.head ⟨visited, none, 0, 0⟩
  if w.previous ≠ entry.2.tail ∨ w.quantity ≠ entry.2.quantity ∨ w.quantity ≤ 0 then
    throw (.valueError "book level quantity mismatch")
  return w.visited

/-- Heap order and a heap entry for every level. -/
def heapMatches (value : BookSide) (sd : Side) : Bool :=
  ((List.range value.heap.length).all fun i => i = 0 || value.heap.getD ((i - 1) / 2) 0 ≤ value.heap.getD i 0) &&
    value.levels.keys.all fun price => price * sd.sign ∈ value.heap

def auditSide (s : State) (symbol : String) (value : BookSide) (sd : Side) : Py (List String) := do
  if ¬ heapMatches value sd then throw (.valueError "book best-price heap mismatch")
  let visited ← value.levels.entries.foldlM (auditLevel s value symbol sd) []
  if ¬ ((∀ id ∈ visited, id ∈ value.nodes.keys) ∧ ∀ id ∈ value.nodes.keys, id ∈ visited) then
    throw (.valueError "unreachable book node")
  return visited

def auditBook (s : State) (entry : String × Book) : Py (List String) := do
  let buy ← auditSide s entry.1 entry.2.buy .BUY
  let sell ← auditSide s entry.1 entry.2.sell .SELL
  return buy ++ sell

def auditIndex (s : State) : Py Unit := do
  let indexed ← s.bookIndex.entries.mapM (auditBook s)
  if ¬ ((∀ id ∈ indexed.flatten, (activeOrder s id).isSome) ∧
      ∀ p ∈ s.orders.entries, p.2.active → p.1 ∈ indexed.flatten) then
    throw (.valueError "missing active order")

/-! ### Executions against orders and accounts -/

def checkTrade (s : State) (t : Trade) : Py Unit := do
  let bid ← s.orders.getItem t.buyOrder
  let ask ← s.orders.getItem t.sellOrder
  if t.buyer = t.seller ∨ bid.owner ≠ t.buyer ∨ ask.owner ≠ t.seller ∨ bid.side ≠ .BUY ∨
      ask.side ≠ .SELL ∨ bid.symbol ≠ t.symbol ∨ ask.symbol ≠ t.symbol ∨
      ¬ (ask.price ≤ t.price ∧ t.price ≤ bid.price) then
    throw (.valueError "trade parties/limits mismatch")
  let _ ← s.accounts.getItem t.buyer
  let _ ← s.accounts.getItem t.seller
  if t.symbol ∉ s.settings.symbols then throw (.keyError t.symbol)

/-- Units executed on an order. -/
def filledOf (trades : List Trade) (id : String) : ℤ :=
  (trades.map fun t => (if t.buyOrder = id then t.quantity else 0) + (if t.sellOrder = id then t.quantity else 0)).sum

def cashFlow (trades : List Trade) (owner : String) : ℤ :=
  (trades.map fun t => (if t.seller = owner then t.quantity * t.price else 0) -
    (if t.buyer = owner then t.quantity * t.price else 0)).sum

def shareFlow (trades : List Trade) (owner symbol : String) : ℤ :=
  (trades.map fun t => if t.symbol = symbol then
    (if t.buyer = owner then t.quantity else 0) - (if t.seller = owner then t.quantity else 0)
    else 0).sum

def checkFlows (s : State) (entry : String × Account) : Py Unit := do
  let opening ← s.settings.accounts.getItem entry.1
  if entry.2.cash.total ≠ opening.cash + cashFlow s.trades entry.1 then
    throw (.valueError "owner cash flow mismatch")
  if ¬ ∀ p ∈ entry.2.positions.entries,
      p.2.total = (opening.positions.get? p.1).getD 0 + shareFlow s.trades entry.1 p.1 then
    throw (.valueError "owner share flow mismatch")

def auditExecutions (s : State) : Py Unit := do
  s.trades.forM (checkTrade s)
  s.accounts.entries.forM (checkFlows s)
  if ¬ ∀ p ∈ s.orders.entries, p.2.filled = filledOf s.trades p.1 then
    throw (.valueError "execution quantity mismatch")

/-! ### The report -/

/-- The error text of a guarded part. -/
def guarded (part : Py Unit) (message : String) : List String :=
  match part with
  | .ok _ => []
  | .error _ => [message]

def sequenceMatches (s : State) : Bool :=
  s.executionSeq = s.trades.length &&
    s.trades.map Trade.executionSeq = (List.range s.trades.length).map fun i : ℕ => (i : ℤ) + 1

def fillErrors (o : Order) : List String :=
  if o.filled + o.remaining ≠ o.quantity ∨ min o.filled o.remaining < 0 then
    ["order fill/remaining mismatch"] else []

def audit (s : State) : Py Report := do
  let cash := s.accounts.sum fun a => a.cash.total
  let shares ← s.settings.symbols.mapM fun symbol => do return (symbol, ← shareSupply s symbol)
  return {
    errors :=
      (if cash ≠ s.settings.accounts.sum Opening.cash then ["cash supply mismatch"] else []) ++
      (shares.flatMap fun p => if p.2 ≠ openingShares s p.1 then
        ["share supply mismatch: " ++ p.1] else []) ++
      (s.accounts.entries.flatMap fun p => reservationErrors s p.1 p.2) ++
      (if sequenceMatches s then [] else ["outbound execution sequence mismatch"]) ++
      guarded (auditIndex s) "order-book index mismatch" ++
      guarded (auditExecutions s) "execution/account reconciliation mismatch" ++
      s.orders.values.flatMap fillErrors
    cashSupply := cash
    shareSupply := shares }

end SystemDesign.StockExchange
