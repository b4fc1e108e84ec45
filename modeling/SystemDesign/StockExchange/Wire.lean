import SystemDesign.Lib.Codec
import SystemDesign.StockExchange.Matching

/-!
The state as JSON.

Every record of the state has a codec with the keys of the source. Only the map
of orders keeps its iteration order in the model, so writing a state with sorted
keys and reading it back gives the state with its orders sorted by id
(`State.load_dump`); everything else comes back as it was.
-/

namespace SystemDesign.StockExchange

/-! ### Enumerations -/

def sideCodec : Codec Side where
  write sd := .str sd.text
  read
    | .str "BUY" => some .BUY
    | .str "SELL" => some .SELL
    | _ => none
  wf _ := trivial
  read_write sd := by cases sd <;> rfl

def statusCodec : Codec Status where
  write st := .str st.text
  read
    | .str "OPEN" => some .OPEN
    | .str "PARTIAL" => some .PARTIAL
    | .str "FILLED" => some .FILLED
    | .str "CANCELED" => some .CANCELED
    | _ => none
  wf _ := trivial
  read_write st := by cases st <;> rfl

/-! ### Orders, trades and results -/

/-- The fields of an order that its body has. -/
def Order.bodyFields (o : Order) : List (String × Json) :=
  [("request_id", .str o.requestId), ("order_id", .str o.orderId), ("symbol", .str o.symbol),
    ("side", .str o.side.text), ("price", .int o.price), ("quantity", .int o.quantity)]

def Order.jsonFields (o : Order) : List (String × Json) :=
  o.bodyFields ++ [("owner", .str o.owner), ("seq", .int o.seq),
    ("timestamp", .int o.timestamp), ("day", .str o.day), ("remaining", .int o.remaining),
    ("filled", .int o.filled), ("status", .str o.status.text), ("reason", .str o.reason)]

def orderCodec : Codec Order := .record Order.jsonFields
  (fun j => do
    return {
      requestId := ← j.field "request_id" .str
      orderId := ← j.field "order_id" .str
      symbol := ← j.field "symbol" .str
      side := ← j.field "side" sideCodec
      price := ← j.field "price" .int
      quantity := ← j.field "quantity" .int
      owner := ← j.field "owner" .str
      seq := ← j.field "seq" .int
      timestamp := ← j.field "timestamp" .int
      day := ← j.field "day" .str
      remaining := ← j.field "remaining" .int
      filled := ← j.field "filled" .int
      status := ← j.field "status" statusCodec
      reason := ← j.field "reason" .str })
  (fun o => by simp [Order.jsonFields, Order.bodyFields])
  (fun o => by simp [Order.jsonFields, Order.bodyFields, Json.FieldsWF, Json.WF])
  (fun o j h => by
    rw [h .str "request_id" o.requestId rfl, h .str "order_id" o.orderId rfl,
      h .str "symbol" o.symbol rfl, h sideCodec "side" o.side rfl, h .int "price" o.price rfl,
      h .int "quantity" o.quantity rfl, h .str "owner" o.owner rfl, h .int "seq" o.seq rfl,
      h .int "timestamp" o.timestamp rfl, h .str "day" o.day rfl,
      h .int "remaining" o.remaining rfl, h .int "filled" o.filled rfl,
      h statusCodec "status" o.status rfl, h .str "reason" o.reason rfl]
    rfl)

def Trade.jsonFields (t : Trade) : List (String × Json) :=
  [("id", .str t.id), ("execution_seq", .int t.executionSeq), ("seq", .int t.seq),
    ("symbol", .str t.symbol), ("price", .int t.price), ("quantity", .int t.quantity),
    ("timestamp", .int t.timestamp), ("buy_order", .str t.buyOrder),
    ("sell_order", .str t.sellOrder), ("buyer", .str t.buyer), ("seller", .str t.seller)]

def tradeCodec : Codec Trade := .record Trade.jsonFields
  (fun j => do
    return {
      id := ← j.field "id" .str
      executionSeq := ← j.field "execution_seq" .int
      seq := ← j.field "seq" .int
      symbol := ← j.field "symbol" .str
      price := ← j.field "price" .int
      quantity := ← j.field "quantity" .int
      timestamp := ← j.field "timestamp" .int
      buyOrder := ← j.field "buy_order" .str
      sellOrder := ← j.field "sell_order" .str
      buyer := ← j.field "buyer" .str
      seller := ← j.field "seller" .str })
  (fun t => by simp [Trade.jsonFields])
  (fun t => by simp [Trade.jsonFields, Json.FieldsWF, Json.WF])
  (fun t j h => by
    rw [h .str "id" t.id rfl, h .int "execution_seq" t.executionSeq rfl, h .int "seq" t.seq rfl,
      h .str "symbol" t.symbol rfl, h .int "price" t.price rfl, h .int "quantity" t.quantity rfl,
      h .int "timestamp" t.timestamp rfl, h .str "buy_order" t.buyOrder rfl,
      h .str "sell_order" t.sellOrder rfl, h .str "buyer" t.buyer rfl, h .str "seller" t.seller rfl]
    rfl)

/-- The keys `reason` and `status` are written only where the source sets them. -/
def Result.jsonFields (r : Result) : List (String × Json) :=
  [("seq", .int r.seq), ("request_id", .str r.requestId), ("order_id", .str r.orderId),
    ("accepted", .bool r.accepted)] ++
  (r.reason.map fun reason => ("reason", Json.str reason)).toList ++
  (r.status.map fun status => ("status", Json.str status.text)).toList

theorem Result.keys_nodup (r : Result) : (r.jsonFields.map Prod.fst).Nodup := by
  obtain ⟨_, _, _, _, reason, status⟩ := r
  cases reason <;> cases status <;> simp [Result.jsonFields]

def resultCodec : Codec Result where
  write r := .obj r.jsonFields
  read j := do
    return {
      seq := ← j.field "seq" .int
      requestId := ← j.field "request_id" .str
      orderId := ← j.field "order_id" .str
      accepted := ← j.field "accepted" .bool
      reason := ← j.optionalField "reason" .str
      status := ← j.optionalField "status" statusCodec }
  wf r := by
    refine ⟨r.keys_nodup, ?_⟩
    obtain ⟨_, _, _, _, reason, status⟩ := r
    cases reason <;> cases status <;> simp [Result.jsonFields, Json.FieldsWF, Json.WF]
  read_write r := by
    have hn := r.keys_nodup
    have hreason : r.jsonFields.lookup "reason" = r.reason.map Codec.str.write := by
      obtain ⟨_, _, _, _, reason, status⟩ := r
      cases reason <;> cases status <;> rfl
    have hstatus : r.jsonFields.lookup "status" = r.status.map statusCodec.write := by
      obtain ⟨_, _, _, _, reason, status⟩ := r
      cases reason <;> cases status <;> rfl
    rw [Json.field_obj (a := r.seq) hn rfl, Json.field_obj (a := r.requestId) hn rfl,
      Json.field_obj (a := r.orderId) hn rfl, Json.field_obj (a := r.accepted) hn rfl,
      Json.optionalField_obj (a := r.reason) hn hreason,
      Json.optionalField_obj (a := r.status) hn hstatus]
    rfl

/-! ### Accounts and settings -/

def balanceCodec : Codec Balance := .record
  (fun b => [("available", .int b.available), ("held", .int b.held)])
  (fun j => do
    return { available := ← j.field "available" .int, held := ← j.field "held" .int })
  (fun b => by simp)
  (fun b => by simp [Json.FieldsWF, Json.WF])
  (fun b j h => by
    rw [h .int "available" b.available rfl, h .int "held" b.held rfl]
    rfl)

def accountCodec : Codec Account := .record
  (fun a => [("cash", balanceCodec.write a.cash), ("positions", balanceCodec.map.write a.positions)])
  (fun j => do
    return {
      cash := ← j.field "cash" balanceCodec
      positions := ← j.field "positions" balanceCodec.map })
  (fun a => by simp)
  (fun a => ⟨balanceCodec.wf _, balanceCodec.map.wf _, trivial⟩)
  (fun a j h => by
    rw [h balanceCodec "cash" a.cash rfl, h balanceCodec.map "positions" a.positions rfl]
    rfl)

def openingCodec : Codec Opening := .record
  (fun o => [("cash", .int o.cash), ("positions", Codec.int.map.write o.positions)])
  (fun j => do
    return { cash := ← j.field "cash" .int, positions := ← j.field "positions" Codec.int.map })
  (fun o => by simp)
  (fun o => ⟨trivial, Codec.int.map.wf _, trivial⟩)
  (fun o j h => by
    rw [h .int "cash" o.cash rfl, h Codec.int.map "positions" o.positions rfl]
    rfl)

def sessionCodec : Codec Session := .record
  (fun s => [("weekdays", Codec.int.list.write s.weekdays), ("start_minute", .int s.startMinute),
    ("end_minute", .int s.endMinute)])
  (fun j => do
    return {
      weekdays := ← j.field "weekdays" Codec.int.list
      startMinute := ← j.field "start_minute" .int
      endMinute := ← j.field "end_minute" .int })
  (fun s => by simp)
  (fun s => ⟨Codec.int.list.wf _, trivial, trivial, trivial⟩)
  (fun s j h => by
    rw [h Codec.int.list "weekdays" s.weekdays rfl, h .int "start_minute" s.startMinute rfl,
      h .int "end_minute" s.endMinute rfl]
    rfl)

def settingsCodec : Codec Settings := .record
  (fun s => [("symbols", Codec.str.list.write s.symbols),
    ("accounts", openingCodec.map.write s.accounts), ("session", sessionCodec.write s.session),
    ("daily_limit", .int s.dailyLimit)])
  (fun j => do
    return {
      symbols := ← j.field "symbols" Codec.str.list
      accounts := ← j.field "accounts" openingCodec.map
      session := ← j.field "session" sessionCodec
      dailyLimit := ← j.field "daily_limit" .int })
  (fun s => by simp)
  (fun s => ⟨Codec.str.list.wf _, openingCodec.map.wf _, sessionCodec.wf _, trivial, trivial⟩)
  (fun s j h => by
    rw [h Codec.str.list "symbols" s.symbols rfl, h openingCodec.map "accounts" s.accounts rfl,
      h sessionCodec "session" s.session rfl, h .int "daily_limit" s.dailyLimit rfl]
    rfl)

/-! ### The order book -/

def levelCodec : Codec Level := .record
  (fun l => [("head", Codec.optionalStr.write l.head), ("tail", Codec.optionalStr.write l.tail),
    ("quantity", .int l.quantity)])
  (fun j => do
    return {
      head := ← j.field "head" .optionalStr
      tail := ← j.field "tail" .optionalStr
      quantity := ← j.field "quantity" .int })
  (fun l => by simp)
  (fun l => ⟨Codec.optionalStr.wf _, Codec.optionalStr.wf _, trivial, trivial⟩)
  (fun l j h => by
    rw [h .optionalStr "head" l.head rfl, h .optionalStr "tail" l.tail rfl, h .int "quantity" l.quantity rfl]
    rfl)

/-- A node keeps its price as the decimal text that keys the level. -/
def nodeCodec : Codec Node := .record
  (fun n => [("previous", Codec.optionalStr.write n.previous),
    ("next", Codec.optionalStr.write n.next), ("price", Codec.intText.write n.price),
    ("quantity", .int n.quantity)])
  (fun j => do
    return {
      previous := ← j.field "previous" .optionalStr
      next := ← j.field "next" .optionalStr
      price := ← j.field "price" .intText
      quantity := ← j.field "quantity" .int })
  (fun n => by simp)
  (fun n => ⟨Codec.optionalStr.wf _, Codec.optionalStr.wf _, Codec.intText.wf _, trivial, trivial⟩)
  (fun n j h => by
    rw [h .optionalStr "previous" n.previous rfl, h .optionalStr "next" n.next rfl,
      h .intText "price" n.price rfl, h .int "quantity" n.quantity rfl]
    rfl)

def bookSideCodec : Codec BookSide := .record
  (fun s => [("levels", levelCodec.intMap.write s.levels), ("heap", Codec.int.list.write s.heap),
    ("nodes", nodeCodec.map.write s.nodes)])
  (fun j => do
    return {
      levels := ← j.field "levels" levelCodec.intMap
      heap := ← j.field "heap" Codec.int.list
      nodes := ← j.field "nodes" nodeCodec.map })
  (fun s => by simp)
  (fun s => ⟨levelCodec.intMap.wf _, Codec.int.list.wf _, nodeCodec.map.wf _, trivial⟩)
  (fun s j h => by
    rw [h levelCodec.intMap "levels" s.levels rfl, h Codec.int.list "heap" s.heap rfl,
      h nodeCodec.map "nodes" s.nodes rfl]
    rfl)

def bookCodec : Codec Book := .record
  (fun b => [("BUY", bookSideCodec.write b.buy), ("SELL", bookSideCodec.write b.sell)])
  (fun j => do
    return { buy := ← j.field "BUY" bookSideCodec, sell := ← j.field "SELL" bookSideCodec })
  (fun b => by simp)
  (fun b => ⟨bookSideCodec.wf _, bookSideCodec.wf _, trivial⟩)
  (fun b j h => by
    rw [h bookSideCodec "BUY" b.buy rfl, h bookSideCodec "SELL" b.sell rfl]
    rfl)

/-! ### The state -/

/-- The orders of a state, in their iteration order. -/
def ordersJson (orders : Dict String Order) : Json := .obj (orderCodec.writeFields orders.entries)

/-- A dictionary read from JSON keeps the order of the text. -/
def readOrders (j : Json) : Option (Dict String Order) :=
  match j with
  | .obj fs => (orderCodec.readFields fs).bind fun es =>
      if h : (es.map Prod.fst).Nodup then some ⟨es, h⟩ else none
  | _ => none

/-- They are read in the order of their ids. -/
theorem readOrders_ordersJson (orders : Dict String Order) : readOrders (ordersJson orders).sortKeys = some orders.sorted := by
  simp only [ordersJson, Json.sortKeys, readOrders]
  rw [Codec.readFields_sortKeys]
  exact dif_pos orders.sorted.nodup

namespace State

def jsonFields (s : State) : List (String × Json) :=
  [("accounts", accountCodec.map.write s.accounts), ("orders", ordersJson s.orders),
    ("trades", tradeCodec.list.write s.trades), ("results", resultCodec.map.write s.results),
    ("daily", Codec.int.map.write s.daily), ("settings", settingsCodec.write s.settings),
    ("book_index", bookCodec.map.write s.bookIndex), ("execution_seq", .int s.executionSeq),
    ("last_seq", .int s.lastSeq), ("last_timestamp", .int s.lastTimestamp)]

/-- The dictionary the source keeps for the state. -/
def toJson (s : State) : Json := .obj s.jsonFields

/-- The state a dictionary read from JSON holds. -/
def ofJson (j : Json) : Option State := do
  return {
    accounts := ← j.field "accounts" accountCodec.map
    orders := ← (j.get? "orders").bind readOrders
    trades := ← j.field "trades" tradeCodec.list
    results := ← j.field "results" resultCodec.map
    daily := ← j.field "daily" Codec.int.map
    settings := ← j.field "settings" settingsCodec
    bookIndex := ← j.field "book_index" bookCodec.map
    executionSeq := ← j.field "execution_seq" .int
    lastSeq := ← j.field "last_seq" .int
    lastTimestamp := ← j.field "last_timestamp" .int }

/-- The text the state is stored as. -/
def dump (s : State) : String := s.toJson.encode

/-- The state a stored text is read as. -/
def load (text : String) : Option State := (Json.loads text).bind ofJson

/-- What is stored comes back, the orders in the order of their ids. -/
theorem load_dump (s : State) : load s.dump = some { s with orders := s.orders.sorted } := by
  have hkeys : (s.jsonFields.map Prod.fst).Nodup := by simp [jsonFields]
  have hwf : s.toJson.WF :=
    ⟨hkeys, accountCodec.map.wf _, orderCodec.writeFields_wf s.orders.nodup, tradeCodec.list.wf _, resultCodec.map.wf _,
      Codec.int.map.wf _, settingsCodec.wf _, bookCodec.map.wf _, trivial, trivial, trivial, trivial⟩
  have hfield {β : Type} (c : Codec β) (k : String) (b : β) (h : s.jsonFields.lookup k = some (c.write b)) :
      s.toJson.sortKeys.field k c = some b := Json.field_obj hkeys h
  have horders : (s.toJson.sortKeys.get? "orders").bind readOrders = some s.orders.sorted := by
    rw [toJson, Json.get?_sortKeys hkeys, show s.jsonFields.lookup "orders" = some (ordersJson s.orders) from rfl,
      Option.map_some, Option.bind_some, readOrders_ordersJson]
  rw [load, dump, Json.loads_encode hwf, Option.bind_some, ofJson, hfield accountCodec.map "accounts" _ rfl, horders,
    hfield tradeCodec.list "trades" _ rfl, hfield resultCodec.map "results" _ rfl, hfield Codec.int.map "daily" _ rfl,
    hfield settingsCodec "settings" _ rfl, hfield bookCodec.map "book_index" _ rfl, hfield .int "execution_seq" _ rfl,
    hfield .int "last_seq" _ rfl, hfield .int "last_timestamp" _ rfl]
  rfl

end State

end SystemDesign.StockExchange
