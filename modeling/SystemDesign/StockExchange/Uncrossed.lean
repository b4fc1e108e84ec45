import SystemDesign.StockExchange.Commands

/-!
The book is never crossed or locked.

Cancels, expiries and fills only take orders out of the book, so the one step
that needs an argument is resting a taker: the matching loop leaves an open
taker only when no opposite order crosses it any more.
-/

namespace SystemDesign.StockExchange

/-- Every resting bid is below every resting ask. -/
def Uncrossed (orders : Dict String Order) (taker : Option String) : Prop :=
  ∀ symbol bid ask, restingIn orders taker symbol .BUY bid →
    restingIn orders taker symbol .SELL ask → bid.price < ask.price

variable {orders : Dict String Order}

/-- Fewer resting orders at the same prices stay uncrossed. -/
theorem Uncrossed.mono {orders' : Dict String Order} {taker taker' : Option String} (h : Uncrossed orders taker)
    (hsub : ∀ symbol sd x, restingIn orders' taker' symbol sd x →
      ∃ y, restingIn orders taker symbol sd y ∧ y.price = x.price) : Uncrossed orders' taker' := by
  intro symbol bid ask hbid hask
  obtain ⟨bid', hbid', hbp⟩ := hsub symbol .BUY bid hbid
  obtain ⟨ask', hask', hap⟩ := hsub symbol .SELL ask hask
  rw [← hbp, ← hap]
  exact h symbol bid' ask' hbid' hask'

variable {o : Order}

theorem Uncrossed.cancel {taker : Option String} (h : Uncrossed orders taker) (id : String) (ha : o.active = false) :
    Uncrossed (orders.set id o) taker :=
  h.mono fun _ _ x hx => ⟨x, ((restingIn_set_inactive id ha).mp hx).1, rfl⟩

theorem Order.expireAt_of_active {day : String} (h : (o.expireAt day).active = true) : o.expireAt day = o := by
  unfold Order.expireAt at h ⊢
  split_ifs at h ⊢
  · simp [Order.cancel_active] at h
  · rfl

theorem restingIn_expired {day : String} {symbol : String} {sd : Side} {x : Order}
    (hx : restingIn (orders.mapVal (Order.expireAt day)) none symbol sd x) : restingIn orders none symbol sd x := by
  obtain ⟨hget, hact, hrest⟩ := hx
  rw [Dict.get?_mapVal, Option.map_eq_some_iff] at hget
  obtain ⟨o, ho, rfl⟩ := hget
  rw [Order.expireAt_of_active hact] at ho ⊢
  exact ⟨ho, Order.expireAt_of_active hact ▸ hact, Order.expireAt_of_active hact ▸ hrest⟩

theorem Uncrossed.fill {order maker : Order} (h : Uncrossed orders (some order.orderId))
    (hm : orders.get? maker.orderId = some maker) (ham : maker.active = true) (hne : maker.orderId ≠ order.orderId)
    (count : ℤ) : Uncrossed (fillOrders orders order maker count) (some order.orderId) := by
  have htaker : some order.orderId ≠ some maker.orderId := fun e => hne (Option.some.inj e).symm
  refine h.mono fun symbol sd x hx => ?_
  by_cases ha : (maker.execute count).active = true
  · have hid : (maker.execute count).orderId = maker.orderId := rfl
    rw [fillOrders, restingIn_set_active hid ha htaker, restingIn_set_taker] at hx
    rcases hx with ⟨hx, -⟩ | ⟨rfl, rfl, rfl⟩
    · exact ⟨x, hx, rfl⟩
    · exact ⟨maker, ⟨hm, ham, htaker, rfl, rfl⟩, rfl⟩
  · rw [fillOrders, restingIn_set_inactive _ (by simpa using ha), restingIn_set_taker] at hx
    exact ⟨x, hx.1, rfl⟩

variable {s s' : State} {last seq stamp : ℤ}

theorem MatchRun.uncrossed {id : String} {k : ℕ} (h : MatchRun last seq stamp id s k s')
    (hu : Uncrossed s.orders (some id)) : Uncrossed s'.orders (some id) := by
  induction h with
  | filled => exact hu
  | exhausted => exact hu
  | beyond => exact hu
  | selfTrade => exact hu.cancel _ (Order.cancel_active _ _)
  | fill inv taker active offer near other rest ih =>
    obtain rfl := inv.orders.key _ _ taker
    have hne := fun e => offer.rests.2.2.1 (congrArg some e)
    exact ih (hu.fill offer.rests.1 offer.rests.2.1 (Ne.symm hne) _)

/-- Nothing at a better price than one that is beyond the limit crosses it. -/
theorem Order.beyond_of_first {order maker x : Order} (hb : order.beyond maker = true)
    (hle : maker.price * order.side.opposite.sign ≤ x.price * order.side.opposite.sign) : order.beyond x = true := by
  unfold Order.beyond at hb ⊢
  cases hs : order.side <;> rw [hs] at hb hle <;>
    simp only [Side.opposite, Side.sign, decide_eq_true_eq] at hb hle ⊢ <;> omega

/-- An open order that comes out of the loop crosses no resting order. -/
theorem MatchRun.exit {id : String} {k : ℕ} (h : MatchRun last seq stamp id s k s') (ho : s'.orders.get? id = some o)
    (ha : o.active = true) : ∀ x, restingIn s'.orders (some id) o.symbol o.side.opposite x → o.beyond x = true := by
  induction h with
  | filled inv taker full =>
    obtain rfl := Option.some.inj (taker.symm.trans ho)
    have := (inv.orders.valid _ _ taker).status.remaining_pos ha
    omega
  | exhausted inv taker active empty =>
    obtain rfl := Option.some.inj (taker.symm.trans ho)
    exact fun x hx => absurd hx (empty x)
  | beyond inv taker active offer far =>
    obtain rfl := Option.some.inj (taker.symm.trans ho)
    exact fun x hx => Order.beyond_of_first far (offer.price x hx)
  | selfTrade inv taker active offer near own =>
    simp only [Dict.get?_set_self] at ho
    rw [← Option.some.inj ho, Order.cancel_active] at ha
    cases ha
  | fill _ _ _ _ _ _ _ ih => exact ih ho

/-- Resting what the loop leaves open keeps the book uncrossed. -/
theorem MatchRun.rested {id : String} {k : ℕ} (h : MatchRun last seq stamp id s k s')
    (hu : Uncrossed s.orders (some id)) (hkey : o.orderId = id) (ho : s'.orders.get? id = some o) :
    Uncrossed s'.orders none := by
  have hloop := h.uncrossed hu
  have hself : ∀ symbol sd x, restingIn s'.orders none symbol sd x →
      restingIn s'.orders (some id) symbol sd x ∨ x = o := by
    rintro symbol sd x ⟨hx, hact, -, hrest⟩
    by_cases hid : x.orderId = id
    · rw [hid, ho] at hx
      exact .inr (Option.some.inj hx).symm
    · exact .inl ⟨hx, hact, fun e => hid (Option.some.inj e).symm, hrest⟩
  intro symbol bid ask hbid hask
  rcases hself _ _ _ hbid with hb | rfl <;> rcases hself _ _ _ hask with ha | rfl
  · exact hloop symbol bid ask hb ha
  · -- the taker sells
    obtain ⟨-, hact, -, rfl, hside⟩ := hask
    have := h.exit ho hact bid (by rw [hside]; exact hb)
    simpa [Order.beyond, hside] using this
  · -- the taker buys
    obtain ⟨-, hact, -, rfl, hside⟩ := hbid
    have := h.exit ho hact ask (by rw [hside]; exact ha)
    simpa [Order.beyond, hside] using this
  · exact absurd (hbid.2.2.2.2.symm.trans hask.2.2.2.2) (by simp)

/-! ### Every command, every run -/

theorem Handled.uncrossed {owner day : String} {body : Body} (h : Handled s owner last seq stamp day body s')
    (hu : Uncrossed s.orders none) : Uncrossed s'.orders none := by
  cases h with
  | cancel done =>
    cases done with
    | kept r => exact hu
    | released found active r => exact hu.cancel _ (Order.cancel_active _ _)
  | new done =>
    cases done with
    | rejected reason => exact hu
    | executed admitted run loop done =>
      refine run.rested ?_ (loop.orders.key _ _ done) done
      -- entering the taker adds nothing to the book
      refine hu.mono fun symbol sd x hx => ⟨x, ?_, rfl⟩
      simp only [enterState] at hx
      rw [restingIn_set_taker] at hx
      exact ⟨hx.1, hx.2.1, by simp, hx.2.2.2⟩

theorem reduceCommand_uncrossed {command : Json} (h : StateInv s) (hu : Uncrossed s.orders none)
    (hr : reduceCommand (some s) command = .ok s') : Uncrossed s'.orders none := by
  obtain ⟨c, b, -, hc, hrun⟩ := reduceCommand_eq_ok hr
  obtain ⟨s1, s'', hrun', -, -, -, ⟨bookIndex, accounts, rfl⟩, hhandled, -⟩ := runBody_returns h hc
  obtain rfl : s'' = s' := Except.ok.inj (hrun'.symm.trans hrun)
  refine hhandled.uncrossed ?_
  exact hu.mono fun symbol sd x hx => ⟨x, restingIn_expired hx, rfl⟩

theorem runCommands_uncrossed {commands : List Json} (h : StateInv s) (hu : Uncrossed s.orders none)
    (hr : runCommands s commands = .ok s') : Uncrossed s'.orders none := by
  induction commands generalizing s with
  | nil =>
    obtain rfl := Except.ok.inj hr
    exact hu
  | cons command commands ih =>
    obtain ⟨s1, h1, h2⟩ := of_bind ((List.foldlM_cons ..).symm.trans hr)
    exact ih (reduceCommand_inv h h1) (reduceCommand_uncrossed h hu h1) h2

/-- Prices of the open orders of one side of a symbol. -/
def openPrices (s : State) (symbol : String) (sd : Side) : List ℤ :=
  (s.orders.values.filter fun o => o.symbol = symbol && o.side = sd && o.active).map Order.price

theorem mem_openPrices (h : Inv none s.lastSeq s) {symbol : String} {sd : Side} {p : ℤ}
    (hp : p ∈ openPrices s symbol sd) : ∃ o, restingIn s.orders none symbol sd o ∧ o.price = p := by
  simp only [openPrices, List.mem_map, List.mem_filter, Bool.and_eq_true, decide_eq_true_eq] at hp
  obtain ⟨o, ⟨hmem, ⟨hsym, hside⟩, hact⟩, rfl⟩ := hp
  obtain ⟨id, hget⟩ := Dict.mem_values.mp hmem
  obtain rfl := h.orders.key _ _ hget
  exact ⟨o, ⟨hget, hact, by simp, hsym, hside⟩, rfl⟩

/-- In every reachable state the highest open bid is strictly below the lowest open ask. -/
theorem best_bid_below_best_ask {opening : Json} {commands : List Json} {s0 s : State}
    (hg : reduceCommand none opening = .ok s0) (hr : runCommands s0 commands = .ok s)
    (symbol : String) (bid ask : ℤ) (hbid : (openPrices s symbol .BUY).max? = some bid)
    (hask : (openPrices s symbol .SELL).min? = some ask) : bid < ask := by
  obtain ⟨st, hst, rfl⟩ := reduceCommand_genesis hg
  have hinv := genesis_inv hst
  have hu : Uncrossed (genesis st).orders none := fun _ _ _ hb => by
    simp [restingIn, genesis] at hb
  have hs := (runCommands_inv hinv hr).inv
  obtain ⟨b, hb, rfl⟩ := mem_openPrices hs (List.max?_mem hbid)
  obtain ⟨a, ha, rfl⟩ := mem_openPrices hs (List.min?_mem hask)
  exact runCommands_uncrossed hinv hu hr symbol b a hb ha

/-- Two orders that do not meet. -/
def sampleQuotes : List OrderCommand :=
  [sampleOrder 2 100000 "bob" "s1" .SELL 100 5, sampleOrder 3 100001 "alice" "b1" .BUY 99 8]

theorem best_bid_below_best_ask_quotes : ∃ s, applyAll (genesis sampleSettings) sampleQuotes = .ok s ∧
    (openPrices s "ACME" .BUY).max? = some 99 ∧ (openPrices s "ACME" .SELL).min? = some 100 ∧
    (99 : ℤ) < 100 := by
  have hrun : (applyAll (genesis sampleSettings) sampleQuotes).map (fun s =>
      ((openPrices s "ACME" .BUY).max?, (openPrices s "ACME" .SELL).min?)) = .ok (some 99, some 100) := by
    decide +kernel
  cases hs : applyAll (genesis sampleSettings) sampleQuotes with
  | error e => rw [hs] at hrun; cases hrun
  | ok s =>
      rw [hs] at hrun
      obtain ⟨hbid, hask⟩ := Prod.mk.inj (Except.ok.inj hrun)
      obtain ⟨h0, h1⟩ := sample_run (by decide) hs
      exact ⟨s, rfl, hbid, hask, best_bid_below_best_ask h0 h1 "ACME" 99 100 hbid hask⟩

end SystemDesign.StockExchange
