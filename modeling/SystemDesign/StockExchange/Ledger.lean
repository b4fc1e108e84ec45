import SystemDesign.StockExchange.Audit

/-!
The accounts as a function of the opening balances, the trades and the open orders.

What an owner holds in reserve is what the open orders reserve; what is
available is the opening balance plus the flow of the trades minus the reserve.
`FundsOk` states this for every account. The reducer only ever moves amounts
between and within accounts, so each operation is described by the amounts it
moves (`Moved`), and `FundsOk` is kept when orders and trades move by the same
amounts.
-/

namespace SystemDesign.StockExchange

/-! ### Reserves -/

/-- Cash an order reserves for an owner. -/
def cashReserve (owner : String) (o : Order) : ℤ :=
  if o.owner = owner ∧ o.active ∧ o.side = .BUY then o.remaining * o.price else 0

/-- Shares of a symbol an order reserves for an owner. -/
def shareReserve (owner symbol : String) (o : Order) : ℤ :=
  if o.owner = owner ∧ o.active ∧ o.side = .SELL ∧ o.symbol = symbol then o.remaining else 0

theorem sum_filter_map {α : Type} (p : α → Bool) (f : α → ℤ) (l : List α) :
    ((l.filter p).map f).sum = (l.map fun x => if p x then f x else 0).sum := by
  induction l with
  | nil => rfl
  | cons x l ih => by_cases h : p x <;> simp [h, ih]

theorem reservedCash_eq (s : State) (owner : String) : reservedCash s owner = s.orders.sum (cashReserve owner) := by
  unfold reservedCash openOrders Dict.sum
  rw [List.filter_filter, sum_filter_map]
  refine congrArg List.sum (List.map_congr_left fun o _ => ?_)
  simp only [cashReserve, Bool.and_eq_true, decide_eq_true_eq]
  exact if_congr (by tauto) rfl rfl

theorem reservedShares_eq (s : State) (owner symbol : String) :
    reservedShares s owner symbol = s.orders.sum (shareReserve owner symbol) := by
  unfold reservedShares openOrders Dict.sum
  rw [List.filter_filter, sum_filter_map]
  refine congrArg List.sum (List.map_congr_left fun o _ => ?_)
  simp only [shareReserve, Bool.and_eq_true, decide_eq_true_eq]
  exact if_congr (by tauto) rfl rfl

variable {o : Order}

theorem cashReserve_of_inactive (h : o.active = false) (owner : String) : cashReserve owner o = 0 := by
  simp [cashReserve, h]

theorem shareReserve_of_inactive (h : o.active = false) (owner symbol : String) : shareReserve owner symbol o = 0 := by
  simp [shareReserve, h]

/-- Cash that `count` units of a buy order reserve. -/
def Order.cashUnits (o : Order) (count : ℤ) : ℤ := if o.side = .BUY then count * o.price else 0

/-- Shares that `count` units of a sell order reserve. -/
def Order.shareUnits (o : Order) (count : ℤ) : ℤ := if o.side = .SELL then count else 0

theorem cashReserve_of_active (h : o.active = true) (owner : String) :
    cashReserve owner o = if owner = o.owner then o.cashUnits o.remaining else 0 := by
  by_cases ho : owner = o.owner <;> simp [cashReserve, Order.cashUnits, h, ho, eq_comm]

theorem shareReserve_of_active (h : o.active = true) (owner symbol : String) :
    shareReserve owner symbol o = if owner = o.owner ∧ symbol = o.symbol then o.shareUnits o.remaining else 0 := by
  by_cases ho : owner = o.owner <;> by_cases hs : symbol = o.symbol <;>
    simp [shareReserve, Order.shareUnits, h, ho, hs, eq_comm]

theorem Order.execute_active (o : Order) (count : ℤ) : (o.execute count).active = decide (o.remaining - count ≠ 0) := by
  by_cases h : o.remaining - count = 0 <;> simp [Order.execute, Order.active, h]

/-- Executing units of an open order frees their reserve, whether it is filled by it or not. -/
theorem cashReserve_execute (h : o.active = true) (count : ℤ) (owner : String) :
    cashReserve owner (o.execute count) - cashReserve owner o = if owner = o.owner then -o.cashUnits count else 0 := by
  have hexec : cashReserve owner (o.execute count) =
      if owner = o.owner then o.cashUnits (o.remaining - count) else 0 := by
    by_cases hz : o.remaining - count = 0
    · rw [cashReserve_of_inactive (by simp [Order.execute_active, hz]), hz]
      simp [Order.cashUnits]
    · exact cashReserve_of_active (by simp [Order.execute_active, hz]) owner
  rw [hexec, cashReserve_of_active h]
  simp only [Order.cashUnits]
  split_ifs <;> ring

theorem shareReserve_execute (h : o.active = true) (count : ℤ) (owner symbol : String) :
    shareReserve owner symbol (o.execute count) - shareReserve owner symbol o =
      if owner = o.owner ∧ symbol = o.symbol then -o.shareUnits count else 0 := by
  have hexec : shareReserve owner symbol (o.execute count) =
      if owner = o.owner ∧ symbol = o.symbol then o.shareUnits (o.remaining - count) else 0 := by
    by_cases hz : o.remaining - count = 0
    · rw [shareReserve_of_inactive (by simp [Order.execute_active, hz]), hz]
      simp [Order.shareUnits]
    · exact shareReserve_of_active (by simp [Order.execute_active, hz]) owner symbol
  rw [hexec, shareReserve_of_active h]
  simp only [Order.shareUnits]
  split_ifs <;> ring

/-! ### Balances -/

/-- The balance left by an opening amount, a flow and a reserve. -/
def balanceOf (opening flow reserve : ℤ) : Balance := ⟨opening + flow - reserve, reserve⟩

section
variable (orders : Dict String Order) (trades : List Trade)

def cashBalance (owner : String) (opening : Opening) : Balance :=
  balanceOf opening.cash (cashFlow trades owner) (orders.sum (cashReserve owner))

def shareBalance (owner : String) (opening : Opening) (symbol : String) : Balance :=
  balanceOf ((opening.positions.get? symbol).getD 0) (shareFlow trades owner symbol)
    (orders.sum (shareReserve owner symbol))

/-- An account that holds what the opening, the trades and the open orders leave it. -/
structure AccountOk (symbols : List String) (owner : String) (opening : Opening) (a : Account) :
    Prop where
  cash : a.cash = cashBalance orders trades owner opening
  position : ∀ symbol, a.positions.get? symbol =
    if symbol ∈ symbols then some (shareBalance orders trades owner opening symbol) else none
  cashNonneg : 0 ≤ (cashBalance orders trades owner opening).available
  shareNonneg : ∀ symbol ∈ symbols, 0 ≤ (shareBalance orders trades owner opening symbol).available

/-- Every opened account, and no other, is there and adds up. -/
structure FundsOk (settings : Settings) (accounts : SortedMap String Account) : Prop where
  opened : ∀ owner opening, settings.accounts.get? owner = some opening →
    ∃ a, accounts.get? owner = some a ∧ AccountOk orders trades settings.symbols owner opening a
  closed : ∀ owner, settings.accounts.get? owner = none → accounts.get? owner = none

end

/-! ### Moving amounts -/

instance : Add Balance := ⟨fun b c => ⟨b.available + c.available, b.held + c.held⟩⟩

instance : Zero Balance := ⟨⟨0, 0⟩⟩

@[simp] theorem Balance.add_available (b c : Balance) : (b + c).available = b.available + c.available := rfl

@[simp] theorem Balance.add_held (b c : Balance) : (b + c).held = b.held + c.held := rfl

@[simp] theorem Balance.zero_available : (0 : Balance).available = 0 := rfl

@[simp] theorem Balance.zero_held : (0 : Balance).held = 0 := rfl

theorem Balance.ext_iff' {b c : Balance} : b = c ↔ b.available = c.available ∧ b.held = c.held := by
  cases b; cases c; simp

@[simp] theorem Balance.add_zero (b : Balance) : b + 0 = b := by
  simp [Balance.ext_iff']

/-- Amounts moved in one account: in cash, and in each position. -/
structure Account.Moved (a a' : Account) (cash : Balance) (shares : String → Balance) : Prop where
  cash : a'.cash = a.cash + cash
  position : ∀ symbol, a'.positions.get? symbol = (a.positions.get? symbol).map (· + shares symbol)

/-- Amounts moved in every account. -/
def Moved (accounts accounts' : SortedMap String Account) (cash : String → Balance)
    (shares : String → String → Balance) : Prop :=
  ∀ owner, (accounts.get? owner = none ∧ accounts'.get? owner = none) ∨
    ∃ a a', accounts.get? owner = some a ∧ accounts'.get? owner = some a' ∧ a.Moved a' (cash owner) (shares owner)

/-- An amount moved for one owner. -/
def forOwner (owner : String) (b : Balance) (owner' : String) : Balance := if owner' = owner then b else 0

theorem Account.Moved.refl (a : Account) : a.Moved a 0 fun _ => 0 :=
  ⟨by simp, fun symbol => by cases a.positions.get? symbol <;> simp⟩

variable {a : Account} {g : String → Balance}

theorem Account.Moved.trans {b c : Account} {m n : Balance} {f : String → Balance} (h : a.Moved b m f)
    (h' : b.Moved c n g) : a.Moved c (m + n) fun symbol => f symbol + g symbol := by
  refine ⟨?_, fun symbol => ?_⟩
  · rw [h'.cash, h.cash]
    simp [Balance.ext_iff', add_assoc]
  · rw [h'.position, h.position]
    cases a.positions.get? symbol with
    | none => rfl
    | some b => simp [Balance.ext_iff', add_assoc]

theorem Account.addCash_moved (a : Account) (available held : ℤ) :
    a.Moved (a.addCash available held) ⟨available, held⟩ fun _ => 0 :=
  ⟨rfl, fun symbol => by cases h : a.positions.get? symbol <;> simp [Account.addCash, h]⟩

theorem Account.addShares_moved {symbol : String} {b : Balance} (h : a.positions.get? symbol = some b)
    (available held : ℤ) :
    ∃ a', a.addShares symbol available held = .ok a' ∧
      a.Moved a' 0 fun symbol' => if symbol' = symbol then ⟨available, held⟩ else 0 := by
  refine ⟨_, by simp [Account.addShares, SortedMap.getItem_of_get? h]; rfl, by simp, ?_⟩
  intro symbol'
  rw [SortedMap.get?_insert]
  by_cases hs : symbol' = symbol
  · subst hs; simp [h]; rfl
  · cases a.positions.get? symbol' <;> simp [hs]

/-- Updating one account moves the amounts of that update. -/
theorem updateAccount_moved {accounts : SortedMap String Account} {owner : String} {f : Account → Py Account}
    {a' : Account} {m : Balance} (ha : accounts.get? owner = some a) (hf : f a = .ok a') (hm : a.Moved a' m g) :
    ∃ accounts', updateAccount accounts owner f = .ok accounts' ∧
      Moved accounts accounts' (forOwner owner m) fun owner' symbol => if owner' = owner then g symbol else 0 := by
  refine ⟨accounts.insert owner a', by simp [updateAccount, SortedMap.getItem_of_get? ha, hf], ?_⟩
  intro owner'
  by_cases ho : owner' = owner
  · subst ho
    exact .inr ⟨a, a', ha, by simp, by simpa [forOwner] using hm⟩
  · rw [SortedMap.get?_insert_of_ne _ ho]
    cases hx : accounts.get? owner' with
    | none => exact .inl ⟨rfl, rfl⟩
    | some x => exact .inr ⟨x, x, rfl, rfl, by simpa [forOwner, ho] using Account.Moved.refl x⟩

variable {m : String → Balance} {f : String → String → Balance}

theorem Moved.trans {x y z : SortedMap String Account} {n : String → Balance} {g : String → String → Balance}
    (h : Moved x y m f) (h' : Moved y z n g) :
    Moved x z (fun owner => m owner + n owner) fun owner symbol => f owner symbol + g owner symbol := by
  intro owner
  rcases h owner with ⟨hx, hy⟩ | ⟨a, b, hx, hy, hab⟩
  · rcases h' owner with ⟨-, hz⟩ | ⟨b, c, hy', -, -⟩
    · exact .inl ⟨hx, hz⟩
    · rw [hy] at hy'; cases hy'
  · rcases h' owner with ⟨hy', -⟩ | ⟨b', c, hy', hz, hbc⟩
    · rw [hy] at hy'; cases hy'
    · rw [hy] at hy'
      obtain rfl := Option.some.inj hy'
      exact .inr ⟨a, c, hx, hz, hab.trans hbc⟩

theorem Moved.get?_some {x y : SortedMap String Account} (h : Moved x y m f) {owner : String}
    (ha : x.get? owner = some a) : ∃ a', y.get? owner = some a' ∧ a.Moved a' (m owner) (f owner) := by
  rcases h owner with ⟨hx, -⟩ | ⟨b, c, hx, hy, hm⟩
  · rw [ha] at hx; cases hx
  · rw [ha] at hx
    obtain rfl := Option.some.inj hx
    exact ⟨c, hy, hm⟩

theorem Account.Moved.congr {a' : Account} {m n : Balance} {f : String → Balance} (h : a.Moved a' m f) (hm : m = n)
    (hf : ∀ symbol, f symbol = g symbol) : a.Moved a' n g :=
  hm ▸ (funext hf : f = g) ▸ h

/-- A balance moves with the flow and the reserve behind it. -/
theorem balanceOf_move {opening flow flow' reserve reserve' : ℤ} {b : Balance}
    (hf : flow' = flow + b.available + b.held) (hr : reserve' = reserve + b.held) :
    balanceOf opening flow' reserve' = balanceOf opening flow reserve + b := by
  rw [Balance.ext_iff', hf, hr]
  simp only [balanceOf, Balance.add_available, Balance.add_held, and_true]
  ring

/-- The accounts stay right when trades and reserves move by what the accounts moved by, and no
account gives away more than it has available. -/
theorem FundsOk.move {settings : Settings} {accounts accounts' : SortedMap String Account}
    {orders orders' : Dict String Order} {trades trades' : List Trade} (h : FundsOk orders trades settings accounts)
    (hm : Moved accounts accounts' m f)
    (hflow : ∀ owner, cashFlow trades' owner = cashFlow trades owner + (m owner).available + (m owner).held)
    (hreserve : ∀ owner, orders'.sum (cashReserve owner) = orders.sum (cashReserve owner) + (m owner).held)
    (hshareFlow : ∀ owner symbol, shareFlow trades' owner symbol = shareFlow trades owner symbol + (f owner symbol).available + (f owner symbol).held)
    (hshareReserve : ∀ owner symbol, orders'.sum (shareReserve owner symbol) = orders.sum (shareReserve owner symbol) + (f owner symbol).held)
    (hcash0 : ∀ owner a, accounts.get? owner = some a → 0 ≤ a.cash.available → 0 ≤ a.cash.available + (m owner).available)
    (hshare0 : ∀ owner a symbol b, accounts.get? owner = some a → a.positions.get? symbol = some b → 0 ≤ b.available → 0 ≤ b.available + (f owner symbol).available) :
    FundsOk orders' trades' settings accounts' := by
  have hcash : ∀ owner opening, cashBalance orders' trades' owner opening
      = cashBalance orders trades owner opening + m owner := fun owner opening =>
    balanceOf_move (hflow owner) (hreserve owner)
  have hshare : ∀ owner opening symbol, shareBalance orders' trades' owner opening symbol
      = shareBalance orders trades owner opening symbol + f owner symbol :=
    fun owner opening symbol => balanceOf_move (hshareFlow owner symbol) (hshareReserve owner symbol)
  refine ⟨?_, ?_⟩
  · intro owner opening ho
    obtain ⟨a, ha, hok⟩ := h.opened owner opening ho
    obtain ⟨a', ha', hmoved⟩ := hm.get?_some ha
    refine ⟨a', ha', ?_, ?_, ?_, ?_⟩
    · rw [hmoved.cash, hok.cash, hcash]
    · intro symbol
      rw [hmoved.position, hok.position]
      by_cases hs : symbol ∈ settings.symbols
      · simp [hs, hshare]
      · simp [hs]
    · rw [hcash, Balance.add_available, ← hok.cash]
      exact hcash0 owner a ha (hok.cash ▸ hok.cashNonneg)
    · intro symbol hs
      rw [hshare, Balance.add_available]
      refine hshare0 owner a symbol _ ha ?_ (hok.shareNonneg symbol hs)
      rw [hok.position, if_pos hs]
  · intro owner ho
    have hnone := h.closed owner ho
    rcases hm owner with ⟨-, hy⟩ | ⟨a, a', hx, -, -⟩
    · exact hy
    · rw [hnone] at hx; cases hx

end SystemDesign.StockExchange
