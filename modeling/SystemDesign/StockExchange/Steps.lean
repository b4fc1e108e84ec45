import SystemDesign.StockExchange.Invariant

/-!
One specification lemma for each step of the reducer: it returns, what the
orders and trades are afterwards, and that the invariant is kept.
-/

namespace SystemDesign.StockExchange

open List hiding le_total not_lt
open Dict

/-! ### Resting orders after an update -/

section
variable {orders : Dict String Order} {taker : Option String} {symbol : String} {sd : Side}
  {o o' x : Order}

theorem restingIn_set_inactive (id : String) (ha : o'.active = false) :
    restingIn (orders.set id o') taker symbol sd x ↔ restingIn orders taker symbol sd x ∧ x.orderId ≠ id := by
  by_cases he : x.orderId = id
  · simp only [restingIn, he, get?_set_self, ne_eq, not_true, and_false, iff_false]
    rintro ⟨h, hx, -⟩
    rw [← Option.some.inj h, ha] at hx
    cases hx
  · simp only [restingIn, get?_set_of_ne _ he, ne_eq, he, not_false_eq_true, and_true]

theorem restingIn_set_active (hid : o'.orderId = o.orderId) (ha : o'.active = true) (ht : taker ≠ some o.orderId) :
    restingIn (orders.set o.orderId o') taker symbol sd x ↔
      restingIn orders taker symbol sd x ∧ x.orderId ≠ o.orderId ∨ symbol = o'.symbol ∧ sd = o'.side ∧ x = o' := by
  by_cases he : x.orderId = o.orderId
  · simp only [restingIn, he, get?_set_self, ne_eq, not_true, and_false, false_or]
    constructor
    · rintro ⟨h, -, -, rfl, rfl⟩
      obtain rfl := Option.some.inj h
      exact ⟨rfl, rfl, rfl⟩
    · rintro ⟨rfl, rfl, rfl⟩
      exact ⟨rfl, ha, ht, rfl, rfl⟩
  · simp only [restingIn, get?_set_of_ne _ he, ne_eq, he, not_false_eq_true, and_true]
    constructor
    · exact .inl
    · rintro (h | ⟨-, -, rfl⟩)
      · exact h
      · exact absurd hid he

/-- Nothing rests under the name of the order being matched, whatever its record. -/
theorem restingIn_set_taker (id : String) (o' : Order) :
    restingIn (orders.set id o') (some id) symbol sd x ↔ restingIn orders (some id) symbol sd x := by
  by_cases he : x.orderId = id
  · simp [restingIn, he]
  · simp only [restingIn, get?_set_of_ne _ he]

theorem restingIn_taker_none (h : orders.get? o.orderId = none) :
    restingIn orders (some o.orderId) symbol sd x ↔ restingIn orders none symbol sd x := by
  constructor
  · rintro ⟨h1, h2, -, h3⟩
    exact ⟨h1, h2, by simp, h3⟩
  · rintro ⟨h1, h2, -, h3⟩
    refine ⟨h1, h2, ?_, h3⟩
    intro e
    rw [← Option.some.inj e, h] at h1
    cases h1

theorem restingIn_id_unique {o x : Order} {symbol' : String} {sd' : Side} (ho : orders.get? o.orderId = some o)
    (hx : restingIn orders taker symbol' sd' x) (hid : x.orderId = o.orderId) : x = o := by
  have := hx.1
  rw [hid, ho] at this
  exact (Option.some.inj this).symm

theorem without_iff (ho : orders.get? o.orderId = some o) : IndexOk.without (restingIn orders taker) o symbol sd x ↔
      restingIn orders taker symbol sd x ∧ x.orderId ≠ o.orderId := by
  constructor
  · rintro ⟨hr, hne⟩
    refine ⟨hr, fun hid => hne ?_⟩
    obtain rfl := restingIn_id_unique ho hr hid
    exact ⟨hr.2.2.2.1.symm, hr.2.2.2.2.symm, rfl⟩
  · rintro ⟨hr, hid⟩
    exact ⟨hr, fun h => hid (by rw [h.2.2])⟩

end

/-! ### Cancelling an order -/

def Order.cancel (o : Order) (reason : String) : Order := { o with status := .CANCELED, reason := reason }

theorem Order.cancel_active (o : Order) (reason : String) : (o.cancel reason).active = false := by
  simp [Order.cancel, Order.active]

variable {o : Order}

theorem Order.filledMark_of_active (h : o.active = true) : o.filledMark = 0 := by
  rcases Order.active_iff.mp h with hs | hs <;> simp [Order.filledMark, hs]

variable {settings : Settings} {executionSeq : ℤ}

theorem TradesOk.set {last : ℤ} {orders : Dict String Order} {trades : List Trade} {o o' : Order}
    (h : TradesOk settings last orders trades executionSeq) (ho : orders.get? o.orderId = some o)
    (ht : o'.terms = o.terms) (hf : o'.filled = o.filled) (hm : o'.filledMark = o.filledMark) :
    TradesOk settings last (orders.set o.orderId o') trades executionSeq := by
  refine ⟨fun t hmem => (h.trade t hmem).keeps (.set ho ht) le_rfl, ?_, h.numbered, h.executionSeq, ?_⟩
  · intro id x hx
    rw [get?_set] at hx
    split_ifs at hx with he
    · obtain rfl := Option.some.inj hx
      rw [hf, he, h.filled _ _ ho]
    · exact h.filled id x hx
  · rw [sum_set_of_some ho, hm, sub_self, add_zero]
    exact h.count

variable {orders : Dict String Order} {trades : List Trade} {accounts : SortedMap String Account} {owner : String}

/-- The account of a valid order's owner, with a position in its symbol. -/
theorem FundsOk.account (h : FundsOk orders trades settings accounts) {symbol : String}
    (ho : ∃ opening, settings.accounts.get? owner = some opening) (hs : symbol ∈ settings.symbols) :
    ∃ a b, accounts.get? owner = some a ∧ a.positions.get? symbol = some b := by
  obtain ⟨opening, hopen⟩ := ho
  obtain ⟨a, ha, hok⟩ := h.opened owner opening hopen
  exact ⟨a, _, ha, by rw [hok.position, if_pos hs]⟩

variable {a : Account}

theorem releaseFunds_moved {b : Balance} (hb : a.positions.get? o.symbol = some b) : ∃ a', releaseFunds o a = .ok a' ∧
      a.Moved a' ⟨o.cashUnits o.remaining, -o.cashUnits o.remaining⟩ fun symbol =>
        if symbol = o.symbol then ⟨o.shareUnits o.remaining, -o.shareUnits o.remaining⟩ else 0 := by
  cases hside : o.side with
  | BUY =>
    refine ⟨_, by simp [releaseFunds, hside]; rfl, ?_⟩
    refine (a.addCash_moved _ _).congr ?_ ?_
    · simp [Order.cashUnits, hside]
    · intro symbol
      simp [Order.shareUnits, hside]
      rintro -
      rfl
  | SELL =>
    obtain ⟨a', ha', hm⟩ := Account.addShares_moved hb o.remaining (-o.remaining)
    refine ⟨a', by simp [releaseFunds, hside, ha'], hm.congr ?_ ?_⟩
    · simp [Order.cashUnits, hside]; rfl
    · intro symbol
      simp [Order.shareUnits, hside]

variable {s : State} {last : ℤ}

theorem release_spec {taker : Option String} (h : Inv taker last s) (ho : s.orders.get? o.orderId = some o)
    (ha : o.active = true) (reason : String) :
    ∃ bookIndex accounts, release s o reason = .ok { s with
        bookIndex, accounts, orders := s.orders.set o.orderId (o.cancel reason) } ∧
      Inv taker last { s with
        bookIndex, accounts, orders := s.orders.set o.orderId (o.cancel reason) } := by
  have hv := h.orders.valid _ _ ho
  -- the index: the order leaves it, or it was not there because it is the taker
  have hindex : ∃ bookIndex, s.bookIndex.remove o = .ok bookIndex ∧
      IndexOk s.settings.symbols (restingIn (s.orders.set o.orderId (o.cancel reason)) taker) bookIndex := by
    by_cases ht : taker = some o.orderId
    · obtain ⟨bookIndex, hb, hok⟩ := h.index.remove_absent hv.symbol
        (o := o) (fun x hx hid => hx.2.2.1 (by rw [ht, hid]))
      refine ⟨bookIndex, hb, hok.congr fun symbol sd x => ?_⟩
      rw [ht, restingIn_set_taker]
    · obtain ⟨bookIndex, hb, hok⟩ := h.index.remove hv.symbol ⟨ho, ha, ht, rfl, rfl⟩
      refine ⟨bookIndex, hb, hok.congr fun symbol sd x => ?_⟩
      rw [restingIn_set_inactive _ (o.cancel_active reason), without_iff ho]
  obtain ⟨bookIndex, hb, hindex⟩ := hindex
  obtain ⟨a, b, hacc, hpos⟩ := h.funds.account hv.owner hv.symbol
  obtain ⟨a', hrel, hmoved⟩ := releaseFunds_moved hpos
  obtain ⟨accounts, hupd, hm⟩ := updateAccount_moved hacc hrel hmoved
  refine ⟨bookIndex, accounts, ?_, h.settings, ?_, ?_, ?_, hindex⟩
  · simp [release, hb, hupd, Order.cancel]
  · refine h.orders.set ho rfl (hv.of_terms rfl hv.total hv.filled hv.remaining ?_)
    exact hv.status.remaining_pos ha
  · refine h.trades.set ho rfl rfl ?_
    rw [Order.filledMark_of_active ha]
    rfl
  · have hinactive := o.cancel_active reason
    refine h.funds.move hm ?_ ?_ ?_ ?_ ?_ ?_
    · intro owner
      simp only [forOwner]
      split_ifs <;> simp
    · intro owner
      rw [sum_set_of_some ho, cashReserve_of_inactive hinactive, cashReserve_of_active ha]
      simp only [forOwner]
      split_ifs <;> simp
    · intro owner symbol
      split_ifs <;> simp
    · intro owner symbol
      rw [sum_set_of_some ho, shareReserve_of_inactive hinactive, shareReserve_of_active ha]
      by_cases h1 : owner = o.owner <;> by_cases h2 : symbol = o.symbol <;> simp [h1, h2]
    · intro owner a _ hnonneg
      have : 0 ≤ o.cashUnits o.remaining := by
        simp only [Order.cashUnits]
        split_ifs
        · exact mul_nonneg hv.remaining (by have := hv.price; omega)
        · exact le_rfl
      simp only [forOwner]
      split_ifs
      · exact add_nonneg hnonneg this
      · simpa using hnonneg
    · intro owner a symbol b _ _ hnonneg
      have : 0 ≤ o.shareUnits o.remaining := by
        simp only [Order.shareUnits]
        split_ifs
        · exact hv.remaining
        · exact le_rfl
      split_ifs
      · exact add_nonneg hnonneg this
      · simpa using hnonneg
      · simpa using hnonneg

/-! ### Executing a trade -/

/-- Orders that can trade with each other: opposite sides of one symbol, crossing prices, different
owners. -/
structure Crosses (order maker : Order) : Prop where
  symbol : maker.symbol = order.symbol
  side : maker.side = order.side.opposite
  price : order.beyond maker = false
  owner : maker.owner ≠ order.owner

/-- The same facts for the buyer and the seller of an execution at price `p`. -/
structure Deal (order maker bid ask : Order) : Prop where
  /-- The two names are the taker and the maker in some order. -/
  pair : ∀ g : Order → ℤ, g order + g maker = g bid + g ask
  bidSide : bid.side = .BUY
  askSide : ask.side = .SELL
  bidSymbol : bid.symbol = order.symbol
  askSymbol : ask.symbol = order.symbol
  owner : bid.owner ≠ ask.owner
  bidPrice : maker.price ≤ bid.price
  askPrice : ask.price ≤ maker.price
  mem : (bid = order ∧ ask = maker) ∨ (bid = maker ∧ ask = order)

theorem Crosses.deal {order maker : Order} (h : Crosses order maker) :
    Deal order maker (buyOf order maker) (sellOf order maker) := by
  have hside := h.side
  have hprice := h.price
  cases hs : order.side with
  | BUY =>
    rw [hs] at hside
    simp only [Order.beyond, hs, decide_eq_false_iff_not, not_lt] at hprice
    simp only [buyOf, sellOf, hs, if_true]
    exact ⟨fun _ => rfl, hs, hside, rfl, h.symbol, h.owner.symm, hprice, le_rfl, .inl ⟨rfl, rfl⟩⟩
  | SELL =>
    rw [hs] at hside
    simp only [Order.beyond, hs, decide_eq_false_iff_not, not_lt] at hprice
    simp only [buyOf, sellOf, hs, reduceCtorEq, if_false]
    exact ⟨fun _ => add_comm _ _, hside, hs, h.symbol, rfl, h.owner, le_rfl, hprice, .inr ⟨rfl, rfl⟩⟩

theorem settle_moved {bid ask : Order} {symbol : String} {x y : Account} {b c : Balance}
    (hx : accounts.get? bid.owner = some x) (hy : accounts.get? ask.owner = some y)
    (hb : x.positions.get? symbol = some b) (hc : y.positions.get? symbol = some c) (price count : ℤ)
    (hne : bid.owner ≠ ask.owner) :
    ∃ accounts', settle accounts bid ask symbol price count = .ok accounts' ∧ Moved accounts accounts'
        (fun owner => if owner = bid.owner then ⟨(bid.price - price) * count, -(bid.price * count)⟩
          else if owner = ask.owner then ⟨price * count, 0⟩ else 0)
        (fun owner symbol' => if symbol' = symbol then
          (if owner = bid.owner then ⟨count, 0⟩ else if owner = ask.owner then ⟨0, -count⟩ else 0)
          else 0) := by
  obtain ⟨acc1, h1, m1⟩ := updateAccount_moved
    (f := fun a => .ok (a.addCash ((bid.price - price) * count) (-(bid.price * count)))) hx rfl
    (x.addCash_moved ((bid.price - price) * count) (-(bid.price * count)))
  obtain ⟨y1, hy1, my1⟩ := m1.get?_some hy
  have hposy : (y1.addCash (price * count) 0).positions.get? symbol = some c := by
    simp only [Account.addCash, my1.position, hc, hne.symm, if_false]
    simp
  obtain ⟨y2, hy2, my2⟩ := Account.addShares_moved hposy 0 (-count)
  obtain ⟨acc2, h2, m2⟩ := updateAccount_moved
    (f := fun a => (a.addCash (price * count) 0).addShares symbol 0 (-count)) hy1 hy2
    ((y1.addCash_moved (price * count) 0).trans my2)
  obtain ⟨x2, hx2, mx2⟩ := (m1.trans m2).get?_some hx
  have hposx : x2.positions.get? symbol = some b := by
    rw [mx2.position, hb]
    simp [hne]
  obtain ⟨x3, hx3, mx3⟩ := Account.addShares_moved hposx count 0
  obtain ⟨acc3, h3, m3⟩ := updateAccount_moved (f := fun a => a.addShares symbol count 0) hx2 hx3 mx3
  refine ⟨acc3, by simp [settle, h1, h2, h3], ?_⟩
  intro owner
  rcases ((m1.trans m2).trans m3) owner with hnone | ⟨a, a', ha, ha', hm⟩
  · exact .inl hnone
  · refine .inr ⟨a, a', ha, ha', hm.congr ?_ ?_⟩
    · simp only [forOwner]
      by_cases hob : owner = bid.owner
      · simp [hob, hne]
      · by_cases hoa : owner = ask.owner <;> simp [hob, hoa, Ne.symm hne, Balance.ext_iff']
    · intro symbol'
      by_cases hs : symbol' = symbol
      · by_cases hob : owner = bid.owner
        · simp [hs, hob, hne, Balance.ext_iff']
        · by_cases hoa : owner = ask.owner <;>
            simp [hs, hob, hoa, Ne.symm hne, Balance.ext_iff']
      · by_cases hob : owner = bid.owner <;> by_cases hoa : owner = ask.owner <;>
          simp [hs, hob, hoa]

/-- The orders after an execution of `count` units. -/
def fillOrders (orders : Dict String Order) (order maker : Order) (count : ℤ) :
    Dict String Order :=
  (orders.set order.orderId (order.execute count)).set maker.orderId (maker.execute count)

theorem fillOrders_get? (orders : Dict String Order) (order maker : Order) (count : ℤ) (id : String) :
    (fillOrders orders order maker count).get? id =
      if id = maker.orderId then some (maker.execute count)
      else if id = order.orderId then some (order.execute count) else orders.get? id := by
  rw [fillOrders, get?_set, get?_set]

section
variable {orders : Dict String Order} {order maker : Order}
  (ho : orders.get? order.orderId = some order) (hm : orders.get? maker.orderId = some maker)
  (hne : maker.orderId ≠ order.orderId)
include ho hm hne

theorem fillOrders_sum (count : ℤ) (g : Order → ℤ) : (fillOrders orders order maker count).sum g = orders.sum g +
      (g (order.execute count) - g order) + (g (maker.execute count) - g maker) := by
  have hm' : (orders.set order.orderId (order.execute count)).get? maker.orderId = some maker := by
    rw [get?_set_of_ne _ hne, hm]
  rw [fillOrders, sum_set_of_some hm', sum_set_of_some ho]

theorem fillOrders_keeps (count : ℤ) : KeepsTerms orders (fillOrders orders order maker count) := by
  have hm' : (orders.set order.orderId (order.execute count)).get? maker.orderId = some maker := by
    rw [get?_set_of_ne _ hne, hm]
  have h1 : KeepsTerms orders (orders.set order.orderId (order.execute count)) := .set ho rfl
  exact h1.trans (.set hm' rfl)

end

variable {count : ℤ}

theorem Order.execute_valid (h : o.Valid settings last) (hpos : 0 < count) (hle : count ≤ o.remaining) :
    (o.execute count).Valid settings last := by
  have hf := h.filled
  have htotal := h.total
  refine h.of_terms rfl ?_ ?_ ?_ ?_
  · simp only [Order.execute]; omega
  · simp only [Order.execute]; omega
  · simp only [Order.execute]; omega
  · by_cases hz : o.remaining - count = 0
    · simp [Order.StatusOk, Order.execute, hz]
    · simp only [Order.StatusOk, Order.execute, if_neg hz]
      constructor <;> omega

theorem cashFlow_append (trades : List Trade) (t : Trade) (owner : String) :
    cashFlow (trades ++ [t]) owner = cashFlow trades owner + ((if t.seller = owner then t.quantity * t.price else 0) -
        (if t.buyer = owner then t.quantity * t.price else 0)) := by
  simp [cashFlow]

theorem shareFlow_append (trades : List Trade) (t : Trade) (owner symbol : String) :
    shareFlow (trades ++ [t]) owner symbol = shareFlow trades owner symbol + (if t.symbol = symbol then
        (if t.buyer = owner then t.quantity else 0) - (if t.seller = owner then t.quantity else 0)
        else 0) := by
  simp [shareFlow]

theorem filledOf_append (trades : List Trade) (t : Trade) (id : String) :
    filledOf (trades ++ [t]) id = filledOf trades id +
      ((if t.buyOrder = id then t.quantity else 0) + (if t.sellOrder = id then t.quantity else 0)) := by
  simp [filledOf]

variable {seq stamp : ℤ}

section
variable {last : ℤ} {s : State} {order maker : Order}

/-- The state after one execution, but for the index and the accounts. -/
def fillState (s : State) (order maker : Order) (seq stamp : ℤ) (tradeIndex : ℕ)
    (bookIndex : BookIndex) (accounts : SortedMap String Account) : State :=
  { s with
    accounts, bookIndex
    executionSeq := s.executionSeq + 1
    trades := s.trades ++ [tradeOf seq stamp (s.executionSeq + 1) tradeIndex order maker]
    orders := fillOrders s.orders order maker (min order.remaining maker.remaining) }

variable {orders : Dict String Order}

theorem fill_orders (h : OrdersOk settings last orders) (ho : orders.get? order.orderId = some order)
    (hm : orders.get? maker.orderId = some maker) (hne : maker.orderId ≠ order.orderId) (hpos : 0 < count)
    (hco : count ≤ order.remaining) (hcm : count ≤ maker.remaining) :
    OrdersOk settings last (fillOrders orders order maker count) := by
  have hm' : (orders.set order.orderId (order.execute count)).get? maker.orderId = some maker := by
    rw [get?_set_of_ne _ hne, hm]
  have h1 : OrdersOk settings last (orders.set order.orderId (order.execute count)) :=
    h.set ho rfl (Order.execute_valid (h.valid _ _ ho) hpos hco)
  exact h1.set hm' rfl (Order.execute_valid (h.valid _ _ hm) hpos hcm)

theorem fill_trades {trades : List Trade} (k : ℕ) (h : TradesOk settings last orders trades executionSeq)
    (hok : OrdersOk settings last orders) (ho : orders.get? order.orderId = some order)
    (hm : orders.get? maker.orderId = some maker) (hne : maker.orderId ≠ order.orderId) (hao : order.active = true)
    (ham : maker.active = true) (hx : Crosses order maker) (hseq : 2 ≤ seq ∧ seq ≤ last)
    (hstamp : 1 ≤ stamp ∧ stamp ≤ maxTimestamp) :
    TradesOk settings last (fillOrders orders order maker (min order.remaining maker.remaining))
      (trades ++ [tradeOf seq stamp (executionSeq + 1) k order maker]) (executionSeq + 1) := by
  have hvo := hok.valid _ _ ho
  have hvm := hok.valid _ _ hm
  have hpo := hvo.status.remaining_pos hao
  have hpm := hvm.status.remaining_pos ham
  have hd := hx.deal
  have hkeeps := fillOrders_keeps ho hm hne (min order.remaining maker.remaining)
  refine ⟨?_, ?_, ?_, ?_, ?_⟩
  · intro t ht
    rcases mem_append.mp ht with ht | ht
    · exact (h.trade t ht).keeps hkeeps le_rfl
    · obtain rfl : t = tradeOf seq stamp (executionSeq + 1) k order maker := by simpa using ht
      have hbid : orders.get? (buyOf order maker).orderId = some (buyOf order maker) := by
        rcases hd.mem with ⟨h1, -⟩ | ⟨h1, -⟩ <;> rw [h1] <;> assumption
      have hask : orders.get? (sellOf order maker).orderId = some (sellOf order maker) := by
        rcases hd.mem with ⟨-, h1⟩ | ⟨-, h1⟩ <;> rw [h1] <;> assumption
      refine ⟨LegOk.keeps ⟨_, hbid, rfl, hd.bidSymbol, hd.bidSide, ?_⟩ hkeeps,
        LegOk.keeps ⟨_, hask, rfl, hd.askSymbol, hd.askSide, ?_⟩ hkeeps, hd.owner, hvo.symbol,
        hvm.price, ?_, hseq, hstamp⟩
      · have := hd.bidPrice
        simp only [Side.sign, tradeOf]; omega
      · have := hd.askPrice
        simp only [Side.sign, tradeOf]; omega
      · have h1 := hvo.total
        have h2 := hvo.filled
        have h3 := hvo.quantity
        simp only [tradeOf]
        omega
  · -- the executed units are on the two orders and on no other
    intro id x hx'
    rw [fillOrders_get?] at hx'
    have hnames : (tradeOf seq stamp (executionSeq + 1) k order maker).buyOrder = order.orderId ∧
          (tradeOf seq stamp (executionSeq + 1) k order maker).sellOrder = maker.orderId ∨
        (tradeOf seq stamp (executionSeq + 1) k order maker).buyOrder = maker.orderId ∧
          (tradeOf seq stamp (executionSeq + 1) k order maker).sellOrder = order.orderId := by
      rcases hd.mem with ⟨h1, h2⟩ | ⟨h1, h2⟩
      · exact .inl ⟨by simp [tradeOf, h1], by simp [tradeOf, h2]⟩
      · exact .inr ⟨by simp [tradeOf, h1], by simp [tradeOf, h2]⟩
    have hq : (tradeOf seq stamp (executionSeq + 1) k order maker).quantity = min order.remaining maker.remaining := rfl
    rw [filledOf_append, hq]
    split_ifs at hx' with h1 h2
    · obtain rfl := Option.some.inj hx'
      subst h1
      rw [← h.filled _ _ hm]
      rcases hnames with ⟨e1, e2⟩ | ⟨e1, e2⟩ <;> simp [e1, e2, hne.symm, Order.execute]
    · obtain rfl := Option.some.inj hx'
      subst h2
      rw [← h.filled _ _ ho]
      rcases hnames with ⟨e1, e2⟩ | ⟨e1, e2⟩ <;> simp [e1, e2, hne, Order.execute]
    · rw [← h.filled _ _ hx']
      rcases hnames with ⟨e1, e2⟩ | ⟨e1, e2⟩ <;> simp [e1, e2, Ne.symm h1, Ne.symm h2]
  · rw [map_append, h.numbered, length_append, length_singleton, range_succ, map_append, h.executionSeq]
    rfl
  · rw [h.executionSeq]; simp
  · have hmark : ∀ o : Order, 0 ≤ o.filledMark := fun o => by
      simp only [Order.filledMark]; split_ifs <;> omega
    have hfull : (order.execute (min order.remaining maker.remaining)).filledMark = 1 ∨
        (maker.execute (min order.remaining maker.remaining)).filledMark = 1 := by
      rcases le_total order.remaining maker.remaining with hle | hle
      · exact .inl (by simp [Order.filledMark, Order.execute, hle])
      · exact .inr (by simp [Order.filledMark, Order.execute, hle])
    have h1 := hmark (order.execute (min order.remaining maker.remaining))
    have h2 := hmark (maker.execute (min order.remaining maker.remaining))
    have hcount := h.count
    rw [fillOrders_sum ho hm hne, Order.filledMark_of_active hao, Order.filledMark_of_active ham,
      length_append, length_singleton]
    push_cast
    omega

/-- Settling an execution moves the accounts by what the trade and the freed reserves move. -/
theorem fill_funds {trades : List Trade} {accounts : SortedMap String Account} (seq stamp executionSeq : ℤ) (k : ℕ)
    (h : FundsOk orders trades settings accounts) (hok : OrdersOk settings last orders)
    (ho : orders.get? order.orderId = some order) (hm : orders.get? maker.orderId = some maker)
    (hne : maker.orderId ≠ order.orderId) (hao : order.active = true) (ham : maker.active = true)
    (hx : Crosses order maker) :
    ∃ accounts', settle accounts (buyOf order maker) (sellOf order maker) order.symbol maker.price
        (min order.remaining maker.remaining) = .ok accounts' ∧
      FundsOk (fillOrders orders order maker (min order.remaining maker.remaining))
        (trades ++ [tradeOf seq stamp executionSeq k order maker]) settings accounts' := by
  have hd := hx.deal
  have hvo := hok.valid _ _ ho
  have hvm := hok.valid _ _ hm
  have hpo := hvo.status.remaining_pos hao
  have hpm := hvm.status.remaining_pos ham
  have hvalid : ∀ x, x = order ∨ x = maker → x.Valid settings last := by
    rintro x (rfl | rfl) <;> assumption
  have hbid := hvalid (buyOf order maker) (by rcases hd.mem with h | h <;> simp [h.1])
  have hask := hvalid (sellOf order maker) (by rcases hd.mem with h | h <;> simp [h.2])
  obtain ⟨x, b, hxa, hxb⟩ := h.account hbid.owner hvo.symbol
  obtain ⟨y, c, hya, hyc⟩ := h.account hask.owner hvo.symbol
  obtain ⟨accounts', hsettle, hmoved⟩ := settle_moved hxa hya hxb hyc maker.price
    (min order.remaining maker.remaining) hd.owner
  have hpos : 0 < min order.remaining maker.remaining := lt_min hpo hpm
  refine ⟨accounts', hsettle, h.move hmoved ?_ ?_ ?_ ?_ ?_ ?_⟩
  · intro owner
    rw [cashFlow_append]
    simp only [tradeOf]
    by_cases hob : owner = (buyOf order maker).owner
    · simp [hob, hd.owner.symm]; ring
    · by_cases hoa : owner = (sellOf order maker).owner
      · simp [hoa, hd.owner, hd.owner.symm]; ring
      · simp [hob, hoa, Ne.symm hob, Ne.symm hoa]
  · intro owner
    have hpair := hd.pair fun o => if owner = o.owner then
      -o.cashUnits (min order.remaining maker.remaining) else 0
    beta_reduce at hpair
    rw [fillOrders_sum ho hm hne, cashReserve_execute hao, cashReserve_execute ham, add_assoc, hpair]
    simp only [Order.cashUnits, hd.bidSide, hd.askSide, if_true, reduceCtorEq, if_false]
    by_cases hob : owner = (buyOf order maker).owner
    · simp [hob]; ring
    · by_cases hoa : owner = (sellOf order maker).owner <;> simp [hob, hoa, hd.owner.symm]
  · intro owner symbol
    rw [shareFlow_append]
    simp only [tradeOf]
    by_cases hs : symbol = order.symbol
    · by_cases hob : owner = (buyOf order maker).owner
      · simp [hob, hs, hd.owner.symm]
      · by_cases hoa : owner = (sellOf order maker).owner
        · simp [hoa, hs, hd.owner, hd.owner.symm]
        · simp [hob, hoa, hs, Ne.symm hob, Ne.symm hoa]
    · simp [hs, Ne.symm hs]
  · intro owner symbol
    have hpair := hd.pair fun o => if owner = o.owner ∧ symbol = o.symbol then
      -o.shareUnits (min order.remaining maker.remaining) else 0
    beta_reduce at hpair
    rw [fillOrders_sum ho hm hne, shareReserve_execute hao, shareReserve_execute ham, add_assoc, hpair]
    simp only [Order.shareUnits, hd.bidSide, hd.askSide, hd.bidSymbol, hd.askSymbol, if_true, reduceCtorEq, if_false]
    by_cases hs : symbol = order.symbol
    · by_cases hob : owner = (buyOf order maker).owner
      · simp [hob, hs, hd.owner]
      · by_cases hoa : owner = (sellOf order maker).owner <;> simp [hob, hoa, hs, hd.owner.symm]
    · simp [hs]
  · intro owner a _ hnonneg
    have hbp := hd.bidPrice
    have hmp := hvm.price
    split_ifs
    · exact add_nonneg hnonneg (mul_nonneg (by omega) hpos.le)
    · exact add_nonneg hnonneg (mul_nonneg (by omega) hpos.le)
    · simpa using hnonneg
  · intro owner a symbol b _ _ hnonneg
    split_ifs
    · exact add_nonneg hnonneg hpos.le
    · simpa using hnonneg
    · simpa using hnonneg
    · simpa using hnonneg

theorem fill_index {symbols : List String} {index : BookIndex}
    (h : IndexOk symbols (restingIn orders (some order.orderId)) index) (hs : maker.symbol ∈ symbols)
    (hm : orders.get? maker.orderId = some maker) (hne : maker.orderId ≠ order.orderId) (ham : maker.active = true)
    (hpos : 0 < count) (hle : count ≤ maker.remaining) : ∃ index', index.consume maker count = .ok index' ∧
      IndexOk symbols (restingIn (fillOrders orders order maker count) (some order.orderId)) index' := by
  have htaker : some order.orderId ≠ some maker.orderId := fun e => hne (Option.some.inj e).symm
  have hid : (maker.execute count).orderId = maker.orderId := rfl
  obtain ⟨index', hc, hok⟩ := h.consume hs ⟨hm, ham, htaker, rfl, rfl⟩ hpos hle hid rfl rfl rfl rfl rfl
  refine ⟨index', hc, hok.congr fun symbol sd x => ?_⟩
  by_cases hz : (maker.execute count).remaining = 0
  · have ha : (maker.execute count).active = false := by
      rw [Order.execute_active]; exact decide_eq_false (not_not.mpr hz)
    rw [if_pos hz, without_iff hm, fillOrders, restingIn_set_inactive _ ha, restingIn_set_taker]
  · have ha : (maker.execute count).active = true := by
      rw [Order.execute_active]; exact decide_eq_true hz
    rw [if_neg hz, fillOrders, restingIn_set_active hid ha htaker, restingIn_set_taker, ← without_iff hm]
    rfl

theorem fill_spec (h : Inv (some order.orderId) last s) (ho : s.orders.get? order.orderId = some order)
    (hao : order.active = true)
    (hrest : restingIn s.orders (some order.orderId) order.symbol order.side.opposite maker)
    (hbeyond : order.beyond maker = false) (howner : maker.owner ≠ order.owner) (hseq : 2 ≤ seq ∧ seq ≤ last)
    (hstamp : 1 ≤ stamp ∧ stamp ≤ maxTimestamp) (k : ℕ) : ∃ bookIndex accounts,
      fill s order maker seq stamp k = .ok (fillState s order maker seq stamp k bookIndex accounts) ∧
      Inv (some order.orderId) last (fillState s order maker seq stamp k bookIndex accounts) := by
  obtain ⟨hm, ham, htaker, hsym, hside⟩ := hrest
  have hne : maker.orderId ≠ order.orderId := fun e => htaker (by rw [e])
  have hx : Crosses order maker := ⟨hsym, hside, hbeyond, howner⟩
  have hvo := h.orders.valid _ _ ho
  have hvm := h.orders.valid _ _ hm
  have hpos : 0 < min order.remaining maker.remaining :=
    lt_min (hvo.status.remaining_pos hao) (hvm.status.remaining_pos ham)
  obtain ⟨accounts, hsettle, hfunds⟩ := fill_funds seq stamp (s.executionSeq + 1) k h.funds
    h.orders ho hm hne hao ham hx
  obtain ⟨bookIndex, hconsume, hindex⟩ := fill_index h.index hvm.symbol hm hne ham hpos (min_le_right _ _)
  refine ⟨bookIndex, accounts, ?_, h.settings, ?_, ?_, hfunds, hindex⟩
  · simp only [fill, hsettle, hconsume, Py.bind_ok, Py.pure_eq]
    rfl
  · exact fill_orders h.orders ho hm hne hpos (min_le_left _ _) (min_le_right _ _)
  · exact fill_trades k h.trades h.orders ho hm hne hao ham hx hseq hstamp

end

/-! ### Expiring a day -/

/-- What the day-expiry loop makes of an order. -/
def Order.expireAt (day : String) (o : Order) : Order :=
  if o.active = true ∧ o.day ≠ day then o.cancel "DAY_EXPIRED" else o

/-- The state of an expiry: orders changed as said, index and accounts with them. -/
def withOrders (s : State) (orders : Dict String Order) (bookIndex : BookIndex)
    (accounts : SortedMap String Account) : State :=
  { s with orders, bookIndex, accounts }

theorem expireOne_spec (h : Inv none last s) (day id : String) (ho : s.orders.get? id = some o) : ∃ bookIndex accounts,
      expireOne day s id = .ok (withOrders s (s.orders.set id (o.expireAt day)) bookIndex accounts) ∧
      Inv none last (withOrders s (s.orders.set id (o.expireAt day)) bookIndex accounts) := by
  have hid : o.orderId = id := h.orders.key id o ho
  subst hid
  simp only [expireOne, getItem_of_get? ho, Py.bind_ok, Order.expireAt]
  by_cases hc : o.active = true ∧ o.day ≠ day
  · rw [if_pos hc, if_pos hc]
    exact release_spec h ho hc.1 _
  · have hself : s.orders.set o.orderId o = s.orders :=
      ext_keys (set_keys_of_some ho o) fun k => by
        rw [get?_set]
        split
        · rename_i hk; rw [hk, ho]
        · rfl
    rw [if_neg hc, if_neg hc, hself]
    exact ⟨s.bookIndex, s.accounts, rfl, h⟩

/-- The loop over a list of distinct ids expires exactly the orders listed. -/
theorem expire_loop (day : String) (ids : List String) (hn : ids.Nodup) (h : Inv none last s)
    (hids : ∀ id ∈ ids, ∃ o, s.orders.get? id = some o) :
    ∃ orders bookIndex accounts, ids.foldlM (expireOne day) s = .ok (withOrders s orders bookIndex accounts) ∧
      Inv none last (withOrders s orders bookIndex accounts) ∧ orders.keys = s.orders.keys ∧
      ∀ id, orders.get? id = if id ∈ ids then (s.orders.get? id).map (Order.expireAt day)
        else s.orders.get? id := by
  induction ids generalizing s with
  | nil => exact ⟨s.orders, s.bookIndex, s.accounts, rfl, h, rfl, by simp⟩
  | cons id ids ih =>
    obtain ⟨o, ho⟩ := hids id (by simp)
    rw [nodup_cons] at hn
    obtain ⟨index1, acc1, hone, hinv⟩ := expireOne_spec h day id ho
    have hids1 : ∀ id' ∈ ids, ∃ o',
        (withOrders s (s.orders.set id (o.expireAt day)) index1 acc1).orders.get? id' = some o' := by
      intro id' hid'
      have hne : id' ≠ id := fun e => hn.1 (e ▸ hid')
      obtain ⟨o', ho'⟩ := hids id' (by simp [hid'])
      exact ⟨o', (get?_set_of_ne _ hne _).trans ho'⟩
    obtain ⟨orders, index2, acc2, hrest, hinv2, hkeys, hget⟩ := ih hn.2 hinv hids1
    refine ⟨orders, index2, acc2, ?_, hinv2, ?_, ?_⟩
    · rw [foldlM_cons, hone]
      exact hrest
    · rw [hkeys]
      exact set_keys_of_some ho _
    · intro id'
      rw [hget id']
      simp only [withOrders, get?_set, mem_cons]
      by_cases he : id' = id
      · subst he
        simp [hn.1, ho]
      · simp [he]

theorem expire_spec (h : Inv none last s) (day : String) : ∃ bookIndex accounts,
      expire day s = .ok (withOrders s (s.orders.mapVal (Order.expireAt day)) bookIndex accounts) ∧
      Inv none last (withOrders s (s.orders.mapVal (Order.expireAt day)) bookIndex accounts) := by
  obtain ⟨orders, bookIndex, accounts, hrun, hinv, hkeys, hget⟩ :=
    expire_loop day s.orders.keys s.orders.nodup h fun id hid => Dict.mem_keys.mp hid
  have horders : orders = s.orders.mapVal (Order.expireAt day) := by
    refine ext_keys (by rw [hkeys, mapVal_keys]) fun id => ?_
    rw [hget, get?_mapVal]
    split_ifs with hmem
    · rfl
    · cases hx : s.orders.get? id with
      | none => rfl
      | some x => exact absurd (Dict.mem_keys.mpr ⟨x, hx⟩) hmem
  subst horders
  exact ⟨bookIndex, accounts, hrun, hinv⟩

/-! ### Entering an order -/

theorem filledOf_eq_zero (h : ∀ t ∈ trades, TradeOk settings last orders t) {id : String}
    (hid : orders.get? id = none) : filledOf trades id = 0 := by
  refine sum_eq_zero fun x hx => ?_
  obtain ⟨t, ht, rfl⟩ := mem_map.mp hx
  obtain ⟨bid, hbid, -⟩ := (h t ht).bid.order
  obtain ⟨ask, hask, -⟩ := (h t ht).ask.order
  have h1 : t.buyOrder ≠ id := fun e => by rw [e, hid] at hbid; cases hbid
  have h2 : t.sellOrder ≠ id := fun e => by rw [e, hid] at hask; cases hask
  simp [h1, h2]

theorem TradesOk.insert {last : ℤ} {orders : Dict String Order} {trades : List Trade} {o : Order}
    (h : TradesOk settings last orders trades executionSeq) (ho : orders.get? o.orderId = none) (hf : o.filled = 0)
    (hm : o.filledMark = 0) : TradesOk settings (last + 1) (orders.set o.orderId o) trades executionSeq := by
  refine ⟨fun t ht => (h.trade t ht).keeps (.insert ho o) (by omega), ?_, h.numbered, h.executionSeq, ?_⟩
  · intro id x hx
    rw [get?_set] at hx
    split_ifs at hx with he
    · obtain rfl := Option.some.inj hx
      rw [hf, he, filledOf_eq_zero h.trade ho]
    · exact h.filled id x hx
  · rw [sum_set_of_none ho, hm, add_zero]
    exact h.count

/-- An order may be entered: what the checks of a new order have established. -/
structure Admitted (s : State) (b : NewOrder) (owner : String) (last seq stamp : ℤ) : Prop where
  body : b.Valid
  opened : ∃ opening, s.settings.accounts.get? owner = some opening
  symbol : b.symbol ∈ s.settings.symbols
  fresh : s.orders.get? b.orderId = none
  next : seq = last + 1
  positive : 1 ≤ last
  clock : 1 ≤ stamp ∧ stamp ≤ maxTimestamp
  funds : ∀ a available, s.accounts.get? owner = some a → availableFor b a = .ok available → reserveOf b ≤ available

variable {b : NewOrder}

theorem reserveFunds_moved (owner day : String) (seq stamp : ℤ) {c : Balance}
    (hc : a.positions.get? b.symbol = some c) : ∃ a', reserveFunds b a = .ok a' ∧ a.Moved a'
        ⟨-(b.toOrder owner seq stamp day).cashUnits b.quantity, (b.toOrder owner seq stamp day).cashUnits b.quantity⟩
        fun symbol => if symbol = b.symbol then
          ⟨-(b.toOrder owner seq stamp day).shareUnits b.quantity,
            (b.toOrder owner seq stamp day).shareUnits b.quantity⟩ else 0 := by
  cases hside : b.side with
  | BUY =>
    refine ⟨_, by simp [reserveFunds, hside]; rfl, (a.addCash_moved _ _).congr ?_ ?_⟩
    · simp [Order.cashUnits, NewOrder.toOrder, reserveOf, hside]
    · intro symbol
      simp [Order.shareUnits, NewOrder.toOrder, hside]
      rintro -
      rfl
  | SELL =>
    obtain ⟨a', ha', hm⟩ := Account.addShares_moved hc (-b.quantity) b.quantity
    refine ⟨a', by simp [reserveFunds, reserveOf, hside, ha'], hm.congr ?_ ?_⟩
    · simp [Order.cashUnits, NewOrder.toOrder, hside]; rfl
    · intro symbol
      simp [Order.shareUnits, NewOrder.toOrder, hside]

/-- What an owner reserves for a new order is available. -/
theorem Admitted.enough (h : Admitted s b owner last seq stamp) (day : String) {c : Balance}
    (ha : s.accounts.get? owner = some a) (hc : a.positions.get? b.symbol = some c) :
    ((b.toOrder owner seq stamp day).cashUnits b.quantity ≤ a.cash.available ∨
        (b.toOrder owner seq stamp day).cashUnits b.quantity = 0) ∧
      ((b.toOrder owner seq stamp day).shareUnits b.quantity ≤ c.available ∨
        (b.toOrder owner seq stamp day).shareUnits b.quantity = 0) := by
  cases hside : b.side with
  | BUY =>
    have := h.funds a a.cash.available ha (by simp [availableFor, hside])
    simp only [reserveOf, hside] at this
    simpa [Order.cashUnits, Order.shareUnits, NewOrder.toOrder, hside] using .inl this
  | SELL =>
    have := h.funds a c.available ha (by simp [availableFor, hside, SortedMap.getItem_of_get? hc])
    simp only [reserveOf, hside] at this
    simpa [Order.cashUnits, Order.shareUnits, NewOrder.toOrder, hside] using .inl this

theorem NewOrder.toOrder_valid (h : Admitted s b owner last seq stamp) (day : String) :
    (b.toOrder owner seq stamp day).Valid s.settings (last + 1) := by
  have hq := h.body.quantity
  have hnext := h.next
  have hpos := h.positive
  refine ⟨h.body.requestId, h.body.orderId, h.symbol, h.opened, h.body.price, hq,
    ⟨?_, ?_⟩, h.clock, ?_, le_rfl, ?_, ?_, ?_⟩
  · simp only [NewOrder.toOrder]; omega
  · simp only [NewOrder.toOrder]; omega
  · simp [NewOrder.toOrder]
  · simp only [NewOrder.toOrder]; omega
  · rfl
  · simp only [NewOrder.toOrder]; omega

/-- The state after an order is entered, but for the accounts. -/
def enterState (s : State) (b : NewOrder) (owner : String) (seq stamp : ℤ) (day : String)
    (accounts : SortedMap String Account) : State :=
  { s with
    accounts
    daily := s.daily.insert (dailyKey owner b.symbol day)
      ((s.daily.get? (dailyKey owner b.symbol day)).getD 0 + b.quantity)
    orders := s.orders.set b.orderId (b.toOrder owner seq stamp day) }

/-- Reserving for a new open order moves its owner's amounts from available to held. -/
theorem FundsOk.reserve {accounts' : SortedMap String Account} (h : FundsOk orders trades settings accounts)
    (ho : orders.get? o.orderId = none) (hact : o.active = true)
    (hm : Moved accounts accounts' (forOwner o.owner ⟨-o.cashUnits o.remaining, o.cashUnits o.remaining⟩) fun owner symbol => if owner = o.owner then (if symbol = o.symbol then ⟨-o.shareUnits o.remaining, o.shareUnits o.remaining⟩ else 0) else 0)
    (hcash : ∀ a, accounts.get? o.owner = some a → 0 ≤ a.cash.available → o.cashUnits o.remaining ≤ a.cash.available)
    (hshare : ∀ a b, accounts.get? o.owner = some a → a.positions.get? o.symbol = some b → 0 ≤ b.available → o.shareUnits o.remaining ≤ b.available) :
    FundsOk (orders.set o.orderId o) trades settings accounts' := by
  refine h.move hm ?_ ?_ ?_ ?_ ?_ ?_
  · intro owner
    simp only [forOwner]
    split_ifs <;> simp
  · intro owner
    rw [sum_set_of_none ho, cashReserve_of_active hact]
    simp only [forOwner]
    split_ifs <;> simp
  · intro owner symbol
    split_ifs <;> simp
  · intro owner symbol
    rw [sum_set_of_none ho, shareReserve_of_active hact]
    by_cases h1 : owner = o.owner <;> by_cases h2 : symbol = o.symbol <;> simp [h1, h2]
  · intro owner a ha hnonneg
    simp only [forOwner]
    split_ifs with hx
    · subst hx
      exact sub_nonneg.mpr (hcash a ha hnonneg)
    · simpa using hnonneg
  · intro owner a symbol b ha hb hnonneg
    split_ifs with h1 h2
    · subst h1 h2
      exact sub_nonneg.mpr (hshare a b ha hb hnonneg)
    · simpa using hnonneg
    · simpa using hnonneg

theorem enterOrder_spec (h : Inv none last s) (had : Admitted s b owner last seq stamp) (day : String) :
    ∃ accounts, enterOrder s b owner seq stamp day = .ok (enterState s b owner seq stamp day accounts) ∧
      Inv (some b.orderId) (last + 1) (enterState s b owner seq stamp day accounts) := by
  obtain ⟨a, c, ha, hc⟩ := h.funds.account had.opened had.symbol
  obtain ⟨a', hres, hmoved⟩ := reserveFunds_moved owner day seq stamp hc
  obtain ⟨accounts, hupd, hm⟩ := updateAccount_moved ha hres hmoved
  refine ⟨accounts, by simp [enterOrder, hupd, enterState], h.settings, ?_, ?_, ?_, ?_⟩
  · exact h.orders.insert (o := b.toOrder owner seq stamp day) had.fresh (NewOrder.toOrder_valid had day) had.next
  · exact h.trades.insert (o := b.toOrder owner seq stamp day) had.fresh rfl rfl
  · refine h.funds.reserve (o := b.toOrder owner seq stamp day) had.fresh rfl hm ?_ ?_
    · intro y hy hnonneg
      obtain rfl : a = y := Option.some.inj (ha.symm.trans hy)
      exact ((had.enough day ha hc).1).elim id fun hz => hz.trans_le hnonneg
    · intro y d hy hd hnonneg
      obtain rfl : a = y := Option.some.inj (ha.symm.trans hy)
      obtain rfl : c = d := Option.some.inj (hc.symm.trans hd)
      exact ((had.enough day ha hc).2).elim id fun hz => hz.trans_le hnonneg
  · refine h.index.congr fun symbol sd x => ?_
    simp only [enterState]
    rw [restingIn_set_taker]
    exact restingIn_taker_none (o := b.toOrder owner seq stamp day) had.fresh

/-! ### Resting what is left -/

/-- A taker that is no longer open needs no place in the book. -/
theorem Inv.done {id : String} (h : Inv (some id) last s) (ho : s.orders.get? id = some o) (ha : o.active = false) :
    Inv none last s := by
  refine ⟨h.settings, h.orders, h.trades, h.funds, h.index.congr fun symbol sd x => ?_⟩
  constructor
  · rintro ⟨hx, hact, -, hrest⟩
    refine ⟨hx, hact, ?_, hrest⟩
    intro e
    rw [← Option.some.inj e, ho] at hx
    obtain rfl := Option.some.inj hx
    rw [ha] at hact
    cases hact
  · rintro ⟨hx, hact, -, hrest⟩
    exact ⟨hx, hact, by simp, hrest⟩

theorem rest_spec (order : Order) (h : Inv (some order.orderId) last s)
    (ho : s.orders.get? order.orderId = some order) (ha : order.active = true) (hseq : order.seq = last) :
    ∃ bookIndex, s.bookIndex.add order = .ok bookIndex ∧ Inv none last { s with bookIndex } := by
  have hv := h.orders.valid _ _ ho
  have hother : ∀ x, restingIn s.orders (some order.orderId) order.symbol order.side x →
      x.orderId ≠ order.orderId := fun x hx e => hx.2.2.1 (by rw [e])
  obtain ⟨bookIndex, hadd, hok⟩ := h.index.add hv.symbol hother (fun x hx => by
    -- a resting order has another, hence a smaller, sequence number
    have hle := (h.orders.valid _ _ hx.1).seq.2
    have hne : x.seq ≠ order.seq := fun e => hother x hx (h.orders.seqs _ _ _ _ hx.1 ho e)
    omega)
  refine ⟨bookIndex, hadd, h.settings, h.orders, h.trades, h.funds, hok.congr fun symbol sd x => ?_⟩
  constructor
  · rintro ⟨hx, hact, -, hsym, hside⟩
    by_cases hid : x.orderId = order.orderId
    · rw [hid, ho] at hx
      obtain rfl := Option.some.inj hx
      exact .inr ⟨hsym.symm, hside.symm, rfl⟩
    · exact .inl ⟨hx, hact, fun e => hid (Option.some.inj e).symm, hsym, hside⟩
  · rintro (⟨hx, hact, -, hrest⟩ | ⟨rfl, rfl, rfl⟩)
    · exact ⟨hx, hact, by simp, hrest⟩
    · exact ⟨ho, ha, by simp, rfl, rfl⟩

end SystemDesign.StockExchange
