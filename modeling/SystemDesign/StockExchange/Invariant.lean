import SystemDesign.StockExchange.ContractsSpec
import SystemDesign.StockExchange.IndexSpec
import SystemDesign.StockExchange.Ledger

/-!
The invariant of the matching state.

`Inv taker last s` holds of every state the reducer passes through: orders are
well formed and numbered up to `last`, trades refer to them and are numbered
without gaps, accounts are what opening balances, trades and open orders leave,
and the index holds the open orders. Inside the matching loop the order being
matched is open but not yet in the book; `taker` names it.
-/

namespace SystemDesign.StockExchange

open Dict hiding set

/-! ### Orders -/

/-- An order without what matching changes; the identity of an order. -/
def Order.terms (o : Order) : Order := { o with remaining := 0, filled := 0, status := .OPEN, reason := "" }

section
variable {o o' : Order} (h : o'.terms = o.terms)
include h

theorem Order.orderId_of_terms : o'.orderId = o.orderId := by
  have := congrArg Order.orderId h; exact this

theorem Order.symbol_of_terms : o'.symbol = o.symbol := by
  have := congrArg Order.symbol h; exact this

theorem Order.side_of_terms : o'.side = o.side := by
  have := congrArg Order.side h; exact this

theorem Order.price_of_terms : o'.price = o.price := by
  have := congrArg Order.price h; exact this

theorem Order.owner_of_terms : o'.owner = o.owner := by
  have := congrArg Order.owner h; exact this

theorem Order.seq_of_terms : o'.seq = o.seq := by
  have := congrArg Order.seq h; exact this

end

def Order.StatusOk (o : Order) : Prop :=
  match o.status with
  | .OPEN => o.filled = 0 ∧ 0 < o.remaining
  | .PARTIAL => 0 < o.filled ∧ 0 < o.remaining
  | .FILLED => o.remaining = 0
  | .CANCELED => 0 < o.remaining

structure Order.Valid (settings : Settings) (last : ℤ) (o : Order) : Prop where
  requestId : isIdentifier o.requestId = true
  orderId : isIdentifier o.orderId = true
  symbol : o.symbol ∈ settings.symbols
  owner : ∃ opening, settings.accounts.get? o.owner = some opening
  price : 1 ≤ o.price ∧ o.price ≤ 100000000
  quantity : 1 ≤ o.quantity ∧ o.quantity ≤ 1000000
  seq : 2 ≤ o.seq ∧ o.seq ≤ last
  timestamp : 1 ≤ o.timestamp ∧ o.timestamp ≤ maxTimestamp
  total : o.filled + o.remaining = o.quantity
  filled : 0 ≤ o.filled
  remaining : 0 ≤ o.remaining
  status : o.StatusOk

structure OrdersOk (settings : Settings) (last : ℤ) (orders : Dict String Order) : Prop where
  key : ∀ id o, orders.get? id = some o → o.orderId = id
  valid : ∀ id o, orders.get? id = some o → o.Valid settings last
  seqs : ∀ id id' o o', orders.get? id = some o → orders.get? id' = some o' → o.seq = o'.seq → id = id'
  count : (orders.entries.length : ℤ) + 1 ≤ last

variable {o : Order}

theorem Order.active_iff : o.active = true ↔ o.status = .OPEN ∨ o.status = .PARTIAL := by
  simp [Order.active]

theorem Order.StatusOk.remaining_pos (h : o.StatusOk) (ha : o.active = true) : 0 < o.remaining := by
  rcases Order.active_iff.mp ha with hs | hs <;> simp only [Order.StatusOk, hs] at h
  · exact h.2
  · exact h.2

theorem Order.Valid.mono {settings : Settings} {last last' : ℤ} (h : o.Valid settings last) (hle : last ≤ last') :
    o.Valid settings last' :=
  { h with seq := ⟨h.seq.1, h.seq.2.trans hle⟩ }

/-- An order that changed only in what matching changes keeps its other properties. -/
theorem Order.Valid.of_terms {settings : Settings} {last : ℤ} {o' : Order} (h : o.Valid settings last)
    (ht : o'.terms = o.terms) (htotal : o'.filled + o'.remaining = o.quantity) (hf : 0 ≤ o'.filled)
    (hr : 0 ≤ o'.remaining) (hs : o'.StatusOk) : o'.Valid settings last := by
  obtain ⟨⟩ := o
  obtain ⟨⟩ := o'
  simp only [Order.terms, Order.mk.injEq] at ht
  obtain ⟨rfl, rfl, rfl, rfl, rfl, rfl, rfl, rfl, rfl, rfl, -⟩ := ht
  exact ⟨h.requestId, h.orderId, h.symbol, h.owner, h.price, h.quantity, h.seq, h.timestamp, htotal, hf, hr, hs⟩

namespace OrdersOk

variable {settings : Settings} {last last' : ℤ} {orders : Dict String Order}

theorem mono (h : OrdersOk settings last orders) (hle : last ≤ last') : OrdersOk settings last' orders :=
  ⟨h.key, fun id o ho => (h.valid id o ho).mono hle, h.seqs, h.count.trans hle⟩

theorem set (h : OrdersOk settings last orders) {o o' : Order}
    (ho : orders.get? o.orderId = some o) (ht : o'.terms = o.terms)
    (hv : o'.Valid settings last) : OrdersOk settings last (orders.set o.orderId o') := by
  have hid : o'.orderId = o.orderId := Order.orderId_of_terms ht
  have hseq : o'.seq = o.seq := Order.seq_of_terms ht
  -- what a lookup finds afterwards was there before, with the same number
  have hold : ∀ id x, (orders.set o.orderId o').get? id = some x → ∃ y, orders.get? id = some y ∧ y.seq = x.seq := by
    intro id x hx
    rw [get?_set] at hx
    split_ifs at hx with he
    · obtain rfl := Option.some.inj hx
      exact ⟨o, he ▸ ho, hseq.symm⟩
    · exact ⟨x, hx, rfl⟩
  refine ⟨?_, ?_, ?_, ?_⟩
  · intro id x hx
    rw [get?_set] at hx
    split_ifs at hx with he
    · obtain rfl := Option.some.inj hx
      rw [hid, he]
    · exact h.key id x hx
  · intro id x hx
    rw [get?_set] at hx
    split_ifs at hx with he
    · obtain rfl := Option.some.inj hx
      exact hv
    · exact h.valid id x hx
  · intro id id' x x' hx hx' hs
    obtain ⟨y, hy, hys⟩ := hold id x hx
    obtain ⟨y', hy', hys'⟩ := hold id' x' hx'
    exact h.seqs id id' y y' hy hy' (by rw [hys, hys', hs])
  · rw [length_set_of_some ho]
    exact h.count

/-- A new order numbered above all others. -/
theorem insert (h : OrdersOk settings last orders) {o : Order}
    (hnew : orders.get? o.orderId = none) (hv : o.Valid settings (last + 1))
    (hseq : o.seq = last + 1) : OrdersOk settings (last + 1) (orders.set o.orderId o) := by
  have hlt : ∀ id x, orders.get? id = some x → x.seq ≠ o.seq := by
    intro id x hx
    have := (h.valid id x hx).seq.2
    omega
  refine ⟨?_, ?_, ?_, ?_⟩
  · intro id x hx
    rw [get?_set] at hx
    split_ifs at hx with he
    · obtain rfl := Option.some.inj hx
      exact he.symm
    · exact h.key id x hx
  · intro id x hx
    rw [get?_set] at hx
    split_ifs at hx with he
    · obtain rfl := Option.some.inj hx
      exact hv
    · exact (h.valid id x hx).mono (by omega)
  · intro id id' x x' hx hx' hs
    rw [get?_set] at hx hx'
    split_ifs at hx hx' with he he' he'
    · rw [he, he']
    · obtain rfl := Option.some.inj hx
      exact absurd hs.symm (hlt id' x' hx')
    · obtain rfl := Option.some.inj hx'
      exact absurd hs (hlt id x hx)
    · exact h.seqs id id' x x' hx hx' hs
  · rw [length_set_of_none hnew]
    have := h.count
    push_cast
    omega

end OrdersOk

/-! ### Trades -/

/-- One side of a trade: the order it executes. -/
structure LegOk (orders : Dict String Order) (id owner symbol : String) (sd : Side) (price : ℤ) :
    Prop where
  order : ∃ o, orders.get? id = some o ∧ o.owner = owner ∧ o.symbol = symbol ∧ o.side = sd ∧
    o.price * sd.sign ≤ price * sd.sign

structure TradeOk (settings : Settings) (last : ℤ) (orders : Dict String Order) (t : Trade) :
    Prop where
  bid : LegOk orders t.buyOrder t.buyer t.symbol .BUY t.price
  ask : LegOk orders t.sellOrder t.seller t.symbol .SELL t.price
  parties : t.buyer ≠ t.seller
  symbol : t.symbol ∈ settings.symbols
  price : 1 ≤ t.price ∧ t.price ≤ 100000000
  quantity : 1 ≤ t.quantity ∧ t.quantity ≤ 1000000
  seq : 2 ≤ t.seq ∧ t.seq ≤ last
  timestamp : 1 ≤ t.timestamp ∧ t.timestamp ≤ maxTimestamp

/-- 1 for a filled order. -/
def Order.filledMark (o : Order) : ℤ := if o.status = .FILLED then 1 else 0

structure TradesOk (settings : Settings) (last : ℤ) (orders : Dict String Order)
    (trades : List Trade) (executionSeq : ℤ) : Prop where
  trade : ∀ t ∈ trades, TradeOk settings last orders t
  filled : ∀ id o, orders.get? id = some o → o.filled = filledOf trades id
  numbered : trades.map Trade.executionSeq = (List.range trades.length).map fun i : ℕ => (i : ℤ) + 1
  executionSeq : executionSeq = trades.length
  -- every execution fills its taker or its maker
  count : (trades.length : ℤ) ≤ orders.sum Order.filledMark

/-- Every order is still there with its terms. -/
def KeepsTerms (orders orders' : Dict String Order) : Prop :=
  ∀ id o, orders.get? id = some o → ∃ o', orders'.get? id = some o' ∧ o'.terms = o.terms

variable {orders : Dict String Order}

theorem KeepsTerms.set {id : String} {o' : Order} (ho : orders.get? id = some o) (ht : o'.terms = o.terms) :
    KeepsTerms orders (orders.set id o') := by
  intro id' x hx
  by_cases he : id' = id
  · subst he
    rw [ho] at hx
    obtain rfl := Option.some.inj hx
    exact ⟨o', by simp, ht⟩
  · exact ⟨x, by rw [get?_set_of_ne _ he, hx], rfl⟩

theorem KeepsTerms.insert {id : String} (ho : orders.get? id = none) (o : Order) :
    KeepsTerms orders (orders.set id o) := by
  intro id' x hx
  have he : id' ≠ id := fun e => by rw [e, ho] at hx; cases hx
  exact ⟨x, by rw [get?_set_of_ne _ he, hx], rfl⟩

theorem KeepsTerms.trans {x y z : Dict String Order} (h : KeepsTerms x y) (h' : KeepsTerms y z) : KeepsTerms x z := by
  intro id o ho
  obtain ⟨o1, h1, ht1⟩ := h id o ho
  obtain ⟨o2, h2, ht2⟩ := h' id o1 h1
  exact ⟨o2, h2, ht2.trans ht1⟩

theorem LegOk.keeps {orders' : Dict String Order} {id owner symbol : String} {sd : Side} {price : ℤ}
    (h : LegOk orders id owner symbol sd price) (hk : KeepsTerms orders orders') :
    LegOk orders' id owner symbol sd price := by
  obtain ⟨o, ho, hown, hsym, hside, hp⟩ := h.order
  obtain ⟨o', ho', ht⟩ := hk id o ho
  refine ⟨o', ho', (Order.owner_of_terms ht).trans hown, (Order.symbol_of_terms ht).trans hsym,
    (Order.side_of_terms ht).trans hside, ?_⟩
  rwa [Order.price_of_terms ht]

theorem TradeOk.keeps {settings : Settings} {last last' : ℤ} {orders orders' : Dict String Order}
    {t : Trade} (h : TradeOk settings last orders t) (hk : KeepsTerms orders orders')
    (hle : last ≤ last') : TradeOk settings last' orders' t :=
  { h with
    bid := h.bid.keeps hk
    ask := h.ask.keeps hk
    seq := ⟨h.seq.1, h.seq.2.trans hle⟩ }

/-! ### The whole state -/

/-- The open orders that rest in the book: all but the one being matched. -/
def restingIn (orders : Dict String Order) (taker : Option String) : Resting := fun symbol sd o =>
  orders.get? o.orderId = some o ∧ o.active = true ∧ taker ≠ some o.orderId ∧ o.symbol = symbol ∧ o.side = sd

structure Inv (taker : Option String) (last : ℤ) (s : State) : Prop where
  settings : s.settings.Valid
  orders : OrdersOk s.settings last s.orders
  trades : TradesOk s.settings last s.orders s.trades s.executionSeq
  funds : FundsOk s.orders s.trades s.settings s.accounts
  index : IndexOk s.settings.symbols (restingIn s.orders taker) s.bookIndex

end SystemDesign.StockExchange
