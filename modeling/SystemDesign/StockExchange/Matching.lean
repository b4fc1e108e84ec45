import SystemDesign.StockExchange.OrderBook

/-!
Sequenced matching (`matching.py`, `policies.py`).

`reduceCommand` is the reducer every replica folds over the command log. The
state before genesis is `none`, the empty dictionary of the source. The map of
orders keeps insertion order because the day-expiry loop walks it; it is the
only dictionary of the state whose order the reducer observes.

The source updates the taker in place through an alias; here every update
writes the order back to `orders`.
-/

namespace SystemDesign.StockExchange

structure Balance where
  available : ℤ
  held : ℤ

structure Account where
  cash : Balance
  positions : SortedMap String Balance

structure Trade where
  id : String
  executionSeq : ℤ
  seq : ℤ
  symbol : String
  price : ℤ
  quantity : ℤ
  timestamp : ℤ
  buyOrder : String
  sellOrder : String
  buyer : String
  seller : String

/-- The recorded outcome of one command; `reason` or `status` is absent as in the source. -/
structure Result where
  seq : ℤ
  requestId : String
  orderId : String
  accepted : Bool
  reason : Option String
  status : Option Status

structure State where
  accounts : SortedMap String Account
  orders : Dict String Order
  trades : List Trade
  results : SortedMap String Result
  daily : SortedMap String ℤ
  settings : Settings
  bookIndex : BookIndex
  executionSeq : ℤ
  lastSeq : ℤ
  lastTimestamp : ℤ

/-! ### Policies -/

/-- `UTCSession.permits`. -/
def sessionPermits (stamp : ℤ) (session : Session) : Bool :=
  (Calendar.weekday stamp.toNat : ℤ) ∈ session.weekdays &&
    session.startMinute ≤ (Calendar.minuteOfDay stamp.toNat : ℤ) &&
    (Calendar.minuteOfDay stamp.toNat : ℤ) < session.endMinute

/-- `SubmittedVolumeRisk.permits`. -/
def riskPermits (used quantity maximum : ℤ) : Bool := used + quantity ≤ maximum

/-! ### Reservations -/

/-- Update one account in place. -/
def updateAccount (accounts : SortedMap String Account) (owner : String)
    (f : Account → Py Account) : Py (SortedMap String Account) := do
  let account ← accounts.getItem owner
  let account ← f account
  return accounts.insert owner account

/-- Move `amount` between the two halves of the cash balance. -/
def Account.addCash (a : Account) (available held : ℤ) : Account :=
  { a with cash := ⟨a.cash.available + available, a.cash.held + held⟩ }

/-- Change the position in one symbol. -/
def Account.addShares (a : Account) (symbol : String) (available held : ℤ) : Py Account := do
  let p ← a.positions.getItem symbol
  return { a with
    positions := a.positions.insert symbol ⟨p.available + available, p.held + held⟩ }

/-- Give back what an order still reserves. -/
def releaseFunds (order : Order) (account : Account) : Py Account :=
  match order.side with
  | .BUY =>
      let amount := order.remaining * order.price
      .ok (account.addCash amount (-amount))
  | .SELL => account.addShares order.symbol order.remaining (-order.remaining)

def release (s : State) (order : Order) (reason : String) : Py State := do
  let bookIndex ← s.bookIndex.remove order
  let accounts ← updateAccount s.accounts order.owner (releaseFunds order)
  return { s with
    bookIndex, accounts,
    orders := s.orders.set order.orderId { order with status := .CANCELED, reason } }

/-- One round of the day-expiry loop. -/
def expireOne (day : String) (s : State) (id : String) : Py State := do
  let old ← s.orders.getItem id
  if old.active ∧ old.day ≠ day then release s old "DAY_EXPIRED" else return s

/-- `for old in state["orders"].values()`: release every order of another day. -/
def expire (day : String) (s : State) : Py State := s.orders.keys.foldlM (expireOne day) s

/-! ### Matching -/

/-- Account for `count` more units executed on an order. -/
def Order.execute (o : Order) (count : ℤ) : Order :=
  { o with
    remaining := o.remaining - count
    filled := o.filled + count
    status := if o.remaining - count = 0 then .FILLED else .PARTIAL }

/-- The maker's price does not cross the taker's limit. -/
def Order.beyond (order maker : Order) : Bool :=
  match order.side with
  | .BUY => maker.price > order.price
  | .SELL => maker.price < order.price

def buyOf (order maker : Order) : Order := if order.side = .BUY then order else maker

def sellOf (order maker : Order) : Order := if order.side = .BUY then maker else order

/-- Settle `count` units of `symbol` between the two accounts at the execution price. -/
def settle (accounts : SortedMap String Account) (bid ask : Order) (symbol : String)
    (price count : ℤ) : Py (SortedMap String Account) := do
  let accounts ← updateAccount accounts bid.owner fun a =>
    .ok (a.addCash ((bid.price - price) * count) (-(bid.price * count)))
  let accounts ← updateAccount accounts ask.owner fun a => (a.addCash (price * count) 0).addShares symbol 0 (-count)
  updateAccount accounts bid.owner fun a => a.addShares symbol count 0

def tradeId (seq : ℤ) (tradeIndex : ℕ) : String := "trade_" ++ toString seq ++ "_" ++ toString tradeIndex

/-- The trade record of one execution. -/
def tradeOf (seq stamp executionSeq : ℤ) (tradeIndex : ℕ) (order maker : Order) : Trade where
  id := tradeId seq tradeIndex
  executionSeq := executionSeq
  seq := seq
  symbol := order.symbol
  price := maker.price
  quantity := min order.remaining maker.remaining
  timestamp := stamp
  buyOrder := (buyOf order maker).orderId
  sellOrder := (sellOf order maker).orderId
  buyer := (buyOf order maker).owner
  seller := (sellOf order maker).owner

/-- Execute the taker against one maker. -/
def fill (s : State) (order maker : Order) (seq stamp : ℤ) (tradeIndex : ℕ) : Py State := do
  let count := min order.remaining maker.remaining
  let accounts ← settle s.accounts (buyOf order maker) (sellOf order maker) order.symbol maker.price count
  let bookIndex ← s.bookIndex.consume maker count
  return { s with
    accounts, bookIndex
    executionSeq := s.executionSeq + 1
    trades := s.trades ++ [tradeOf seq stamp (s.executionSeq + 1) tradeIndex order maker]
    orders := (s.orders.set order.orderId (order.execute count)).set maker.orderId (maker.execute count) }

/-- The matching loop: `tradeIndex` trades of this command are done. -/
def matchLoop (seq stamp : ℤ) (id : String) : ℕ → State → ℕ → Py State
  | 0, _, _ => .error .outOfFuel
  | fuel + 1, s, tradeIndex => do
      let order ← s.orders.getItem id
      if order.remaining = 0 then return s
      let (bookIndex, makerId) ← s.bookIndex.best order.symbol order.side
      let s := { s with bookIndex }
      match makerId with
      | none => return s
      | some makerId =>
          let maker ← s.orders.getItem makerId
          if order.beyond maker then return s
          else if maker.owner = order.owner then release s order "SELF_TRADE_PREVENTION"
          else
            let s ← fill s order maker seq stamp (tradeIndex + 1)
            matchLoop seq stamp id fuel s (tradeIndex + 1)

/-! ### Commands -/

/-- Record the outcome of a command. -/
def record (s : State) (r : Result) : State := { s with results := s.results.insert (toString r.seq) r }

def reject (s : State) (seq : ℤ) (requestId orderId reason : String) : State :=
  record s ⟨seq, requestId, orderId, false, some reason, none⟩

def accept (s : State) (seq : ℤ) (requestId orderId : String) (status : Status) : State :=
  record s ⟨seq, requestId, orderId, true, none, some status⟩

def cancelOrder (s : State) (owner : String) (seq : ℤ) (requestId orderId : String) :
    Py State :=
  match s.orders.get? orderId with
  | none => .ok (reject s seq requestId orderId "OWNED_ORDER_NOT_FOUND")
  | some old =>
      if old.owner ≠ owner then .ok (reject s seq requestId orderId "OWNED_ORDER_NOT_FOUND")
      else if old.active then do
        let s ← release s old "USER_CANCEL"
        return accept s seq requestId orderId .CANCELED
      else if old.status ≠ .CANCELED then
        .ok (reject s seq requestId orderId "ORDER_ALREADY_FILLED")
      else .ok (accept s seq requestId orderId old.status)

def dailyKey (owner symbol day : String) : String := owner ++ ":" ++ symbol ++ ":" ++ day

/-- The order record of an accepted body. -/
def NewOrder.toOrder (b : NewOrder) (owner : String) (seq stamp : ℤ) (day : String) : Order where
  requestId := b.requestId
  orderId := b.orderId
  symbol := b.symbol
  side := b.side
  price := b.price
  quantity := b.quantity
  owner := owner
  seq := seq
  timestamp := stamp
  day := day
  remaining := b.quantity
  filled := 0
  status := .OPEN
  reason := ""

/-- Funds an order reserves are taken from what is available. -/
def availableFor (b : NewOrder) (account : Account) : Py ℤ :=
  match b.side with
  | .BUY => .ok account.cash.available
  | .SELL => do
      let p ← account.positions.getItem b.symbol
      return p.available

def reserveOf (b : NewOrder) : ℤ :=
  match b.side with
  | .BUY => b.quantity * b.price
  | .SELL => b.quantity

def reserveFunds (b : NewOrder) (account : Account) : Py Account :=
  match b.side with
  | .BUY => .ok (account.addCash (-reserveOf b) (reserveOf b))
  | .SELL => account.addShares b.symbol (-reserveOf b) (reserveOf b)

def insufficient (b : NewOrder) : String :=
  match b.side with
  | .BUY => "INSUFFICIENT_CASH"
  | .SELL => "INSUFFICIENT_SHARES"

/-- The reservation of an admitted order and its record, before any matching. -/
def enterOrder (s : State) (b : NewOrder) (owner : String) (seq stamp : ℤ) (day : String) :
    Py State := do
  let accounts ← updateAccount s.accounts owner (reserveFunds b)
  let key := dailyKey owner b.symbol day
  return { s with
    accounts
    daily := s.daily.insert key ((s.daily.get? key).getD 0 + b.quantity)
    orders := s.orders.set b.orderId (b.toOrder owner seq stamp day) }

/-- Match an entered order and rest what is left of it. -/
def executeOrder (s : State) (id : String) (seq stamp : ℤ) : Py (State × Order) := do
  let s ← matchLoop seq stamp id (s.orders.entries.length + 1) s 0
  let order ← s.orders.getItem id
  if order.active then
    let bookIndex ← s.bookIndex.add order
    return ({ s with bookIndex }, order)
  else return (s, order)

def placeOrder (s : State) (b : NewOrder) (owner : String) (seq stamp : ℤ) (day : String) :
    Py State :=
  let rejected := fun reason => reject s seq b.requestId b.orderId reason
  if s.orders.contains b.orderId then .ok (rejected "ORDER_ID_EXISTS")
  else if b.symbol ∉ s.settings.symbols then .ok (rejected "UNKNOWN_SYMBOL")
  else if ¬ sessionPermits stamp s.settings.session then .ok (rejected "SESSION_CLOSED")
  else if ¬ riskPermits ((s.daily.get? (dailyKey owner b.symbol day)).getD 0) b.quantity s.settings.dailyLimit then
    .ok (rejected "DAILY_SUBMITTED_VOLUME_LIMIT")
  else do
    let account ← s.accounts.getItem owner
    let available ← availableFor b account
    if available < reserveOf b then return rejected (insufficient b)
    let s ← enterOrder s b owner seq stamp day
    let (s, order) ← executeOrder s b.orderId seq stamp
    return accept s seq b.requestId b.orderId order.status

/-- The envelope of a command after genesis. -/
structure Command where
  seq : ℤ
  timestamp : ℤ
  owner : String
  kind : Json
  body : Json

def readCommand (command : Json) : Py Command := do
  let seq ← integer (← item command "seq") 2 1001
  let timestamp ← integer (← item command "timestamp") 1 maxTimestamp
  let owner ← identifier (← item command "owner")
  return ⟨seq, timestamp, owner, ← item command "kind", ← item command "body"⟩

/-- What a validated command does to the state whose clock it has advanced. -/
def runBody (s : State) (owner : String) (seq stamp : ℤ) (body : Body) : Py State := do
  let day := Calendar.isoDate stamp.toNat
  let s ← expire day s
  match body with
  | .cancel requestId orderId => cancelOrder s owner seq requestId orderId
  | .new b => placeOrder s b owner seq stamp day

def applyCommand (s : State) (c : Command) : Py State := do
  if c.seq ≠ s.lastSeq + 1 ∨ c.timestamp < s.lastTimestamp then
    throw (.valueError "command sequence or timestamp regressed/gapped")
  if ¬ s.accounts.contains c.owner then throw (.valueError "unknown command owner")
  let body ← validate c.body c.kind
  runBody { s with lastSeq := c.seq, lastTimestamp := c.timestamp } c.owner c.seq c.timestamp body

def openAccount (symbols : List String) (opening : Opening) : Account where
  cash := ⟨opening.cash, 0⟩
  positions := SortedMap.ofList (symbols.map fun symbol => (symbol, ⟨(opening.positions.get? symbol).getD 0, 0⟩))

def genesis (settings : Settings) : State where
  accounts := settings.accounts.mapVal (openAccount settings.symbols)
  orders := .empty
  trades := []
  results := .empty
  daily := .empty
  settings := settings
  bookIndex := BookIndex.empty settings.symbols
  executionSeq := 0
  lastSeq := 1
  lastTimestamp := 0

/-- `reduce_command`: pure sequenced matching. -/
def reduceCommand (state : Option State) (command : Json) : Py State :=
  match command with
  | .obj _ =>
      if (command.get? "kind").any (isText · "genesis") then do
        let _ ← fields command ["kind", "settings"]
        if state.isSome then throw (.valueError "duplicate genesis")
        let data ← settings (← item command "settings")
        return genesis data
      else do
        let _ ← fields command ["seq", "timestamp", "owner", "kind", "body"]
        match state with
        | none => throw (.valueError "genesis required")
        | some s =>
            let c ← readCommand command
            applyCommand s c
  | _ => .error (.valueError "command object required")

end SystemDesign.StockExchange
