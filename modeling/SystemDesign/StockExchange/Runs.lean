import SystemDesign.StockExchange.Steps

/-!
Whole runs of the reducer.

`MatchRun` lists the ways one pass of the matching loop can go; the loop, which
carries fuel, always ends in one of them. From the step lemmas every command the
checks let through returns a state that keeps the invariant, and every state a
run reaches has it.
-/

namespace SystemDesign.StockExchange

/-! ### The matching loop -/

/-- The maker the book offers to an order. -/
def Offers (s : State) (id : String) (order maker : Order) : Prop :=
  IndexOk.IsFirst (restingIn s.orders (some id)) order.symbol order.side.opposite maker

/-- A run of the matching loop on the order `id`, with `k` trades done at its start. -/
inductive MatchRun (last seq stamp : ℤ) (id : String) : State → ℕ → State → Prop
  | filled {s : State} {k : ℕ} {order : Order} (inv : Inv (some id) last s)
      (taker : s.orders.get? id = some order) (full : order.remaining = 0) :
      MatchRun last seq stamp id s k s
  | exhausted {s : State} {k : ℕ} {order : Order} {bookIndex : BookIndex}
      (inv : Inv (some id) last s) (taker : s.orders.get? id = some order)
      (active : order.active = true)
      (empty : ∀ x, ¬ restingIn s.orders (some id) order.symbol order.side.opposite x) :
      MatchRun last seq stamp id s k { s with bookIndex }
  | beyond {s : State} {k : ℕ} {order maker : Order} {bookIndex : BookIndex}
      (inv : Inv (some id) last s) (taker : s.orders.get? id = some order)
      (active : order.active = true) (offer : Offers s id order maker)
      (far : order.beyond maker = true) : MatchRun last seq stamp id s k { s with bookIndex }
  | selfTrade {s : State} {k : ℕ} {order maker : Order} {bookIndex : BookIndex}
      {accounts : SortedMap String Account} (inv : Inv (some id) last s)
      (taker : s.orders.get? id = some order) (active : order.active = true)
      (offer : Offers s id order maker) (near : order.beyond maker = false)
      (own : maker.owner = order.owner) :
      MatchRun last seq stamp id s k { s with
        bookIndex, accounts, orders := s.orders.set id (order.cancel "SELF_TRADE_PREVENTION") }
  | fill {s s' : State} {k : ℕ} {order maker : Order} {bookIndex : BookIndex}
      {accounts : SortedMap String Account} (inv : Inv (some id) last s)
      (taker : s.orders.get? id = some order) (active : order.active = true)
      (offer : Offers s id order maker) (near : order.beyond maker = false)
      (other : maker.owner ≠ order.owner)
      (rest : MatchRun last seq stamp id (fillState s order maker seq stamp (k + 1) bookIndex accounts) (k + 1) s') :
      MatchRun last seq stamp id s k s'

/-- 1 for an open order. -/
def Order.activeMark (o : Order) : ℤ := if o.active then 1 else 0

theorem activeMark_sum_nonneg (orders : Dict String Order) : 0 ≤ orders.sum Order.activeMark := by
  refine Dict.sum_nonneg fun o _ => ?_
  simp only [Order.activeMark]
  split_ifs <;> omega

theorem activeMark_sum_le (orders : Dict String Order) : orders.sum Order.activeMark ≤ orders.entries.length := by
  unfold Dict.sum Dict.values
  rw [List.map_map]
  induction orders.entries with
  | nil => simp
  | cons e l ih =>
    have : Order.activeMark e.2 ≤ 1 := by
      simp only [Order.activeMark]
      split_ifs <;> omega
    simp only [List.map_cons, List.sum_cons, List.length_cons, Function.comp_apply]
    push_cast
    linarith

/-- An execution closes the taker or the maker. -/
theorem fillOrders_activeMark {orders : Dict String Order} {order maker : Order}
    (ho : orders.get? order.orderId = some order) (hm : orders.get? maker.orderId = some maker)
    (hne : maker.orderId ≠ order.orderId) (hao : order.active = true) (ham : maker.active = true) :
    (fillOrders orders order maker (min order.remaining maker.remaining)).sum Order.activeMark
      ≤ orders.sum Order.activeMark - 1 := by
  have hle : ∀ (o : Order) c, (o.execute c).activeMark ≤ 1 := fun o c => by
    simp only [Order.activeMark]; split_ifs <;> omega
  have hfull : (order.execute (min order.remaining maker.remaining)).activeMark = 0 ∨
      (maker.execute (min order.remaining maker.remaining)).activeMark = 0 := by
    rcases le_total order.remaining maker.remaining with h | h
    · exact .inl (by simp [Order.activeMark, Order.execute_active, h])
    · exact .inr (by simp [Order.activeMark, Order.execute_active, h])
  have h1 := hle order (min order.remaining maker.remaining)
  have h2 := hle maker (min order.remaining maker.remaining)
  have h3 : order.activeMark = 1 := by simp [Order.activeMark, hao]
  have h4 : maker.activeMark = 1 := by simp [Order.activeMark, ham]
  rw [fillOrders_sum ho hm hne, h3, h4]
  omega

variable {s : State} {last seq stamp : ℤ}

variable {id : String}

/-- With more fuel than open orders the loop returns, through one of its exits. -/
theorem matchLoop_spec (hseq : 2 ≤ seq ∧ seq ≤ last) (hstamp : 1 ≤ stamp ∧ stamp ≤ maxTimestamp) (fuel : ℕ) (k : ℕ)
    (h : Inv (some id) last s) (hfuel : s.orders.sum Order.activeMark < fuel) {order : Order}
    (ho : s.orders.get? id = some order) (hopen : order.remaining ≠ 0 → order.active = true) :
    ∃ s', matchLoop seq stamp id fuel s k = .ok s' ∧ Inv (some id) last s' ∧ MatchRun last seq stamp id s k s' := by
  induction fuel generalizing s k order with
  | zero =>
    have := activeMark_sum_nonneg s.orders
    simp only [Nat.cast_zero] at hfuel
    omega
  | succ fuel ih =>
    have hid := h.orders.key id order ho
    subst hid
    have hv := h.orders.valid _ _ ho
    simp only [matchLoop, Dict.getItem_of_get? ho, Py.bind_ok]
    by_cases hz : order.remaining = 0
    · rw [if_pos hz]
      exact ⟨s, rfl, h, .filled h ho hz⟩
    rw [if_neg hz]
    have hact := hopen hz
    obtain ⟨index, makerId, hbest, hindex, hoffer⟩ := h.index.best hv.symbol order.side
    have hbook : Inv (some order.orderId) last { s with bookIndex := index } :=
      ⟨h.settings, h.orders, h.trades, h.funds, hindex⟩
    simp only [hbest, Py.bind_ok]
    cases makerId with
    | none => exact ⟨_, rfl, hbook, .exhausted h ho hact hoffer⟩
    | some makerId =>
      obtain ⟨maker, rfl, hfirst⟩ := hoffer
      have hm := hfirst.rests.1
      simp only [Dict.getItem_of_get? hm, Py.bind_ok]
      by_cases hbey : order.beyond maker = true
      · rw [if_pos hbey]
        exact ⟨_, rfl, hbook, .beyond h ho hact hfirst hbey⟩
      have hnear : order.beyond maker = false := by simpa using hbey
      rw [if_neg hbey]
      by_cases hown : maker.owner = order.owner
      · rw [if_pos hown]
        obtain ⟨index', accounts, hrel, hinv⟩ := release_spec hbook ho hact "SELF_TRADE_PREVENTION"
        exact ⟨_, hrel, hinv, .selfTrade h ho hact hfirst hnear hown⟩
      · rw [if_neg hown]
        obtain ⟨index', accounts, hfill, hinv⟩ := fill_spec hbook ho hact hfirst.rests hnear hown hseq hstamp (k + 1)
        have hne : maker.orderId ≠ order.orderId := fun e => hfirst.rests.2.2.1 (by rw [e])
        have hdec := fillOrders_activeMark ho hm hne hact hfirst.rests.2.1
        have hnext : (fillOrders s.orders order maker (min order.remaining maker.remaining)).get? order.orderId
              = some (order.execute (min order.remaining maker.remaining)) := by
          rw [fillOrders_get?, if_neg hne.symm, if_pos rfl]
        obtain ⟨s', hrun, hinv', hmatch⟩ := ih (k + 1) hinv (by
            simp only [fillState]
            push_cast at hfuel
            omega)
          hnext
          (fun hr => by
            rw [Order.execute_active]
            exact decide_eq_true hr)
        rw [hfill]
        exact ⟨s', hrun, hinv', .fill h ho hact hfirst hnear hown hmatch⟩

variable {s' : State}

theorem MatchRun.keeps {k : ℕ} (h : MatchRun last seq stamp id s k s') : KeepsTerms s.orders s'.orders := by
  induction h with
  | filled => exact fun _ o ho => ⟨o, ho, rfl⟩
  | exhausted => exact fun _ o ho => ⟨o, ho, rfl⟩
  | beyond => exact fun _ o ho => ⟨o, ho, rfl⟩
  | selfTrade inv taker active offer near own =>
    refine .set taker ?_
    rfl
  | fill inv taker active offer near other rest ih =>
    obtain rfl := inv.orders.key _ _ taker
    have hne := fun e => offer.rests.2.2.1 (congrArg some e)
    exact (fillOrders_keeps taker offer.rests.1 (Ne.symm hne) _).trans ih

/-- What matching leaves untouched. -/
structure SameFrame (s s' : State) : Prop where
  settings : s'.settings = s.settings
  results : s'.results = s.results
  daily : s'.daily = s.daily
  lastSeq : s'.lastSeq = s.lastSeq
  lastTimestamp : s'.lastTimestamp = s.lastTimestamp

theorem MatchRun.frame {k : ℕ} (h : MatchRun last seq stamp id s k s') : SameFrame s s' := by
  induction h with
  | filled => exact ⟨rfl, rfl, rfl, rfl, rfl⟩
  | exhausted => exact ⟨rfl, rfl, rfl, rfl, rfl⟩
  | beyond => exact ⟨rfl, rfl, rfl, rfl, rfl⟩
  | selfTrade => exact ⟨rfl, rfl, rfl, rfl, rfl⟩
  | fill _ _ _ _ _ _ _ ih => exact ⟨ih.1, ih.2, ih.3, ih.4, ih.5⟩

theorem executeOrder_spec (order : Order) (hseq : 2 ≤ seq ∧ seq ≤ last) (hstamp : 1 ≤ stamp ∧ stamp ≤ maxTimestamp)
    (h : Inv (some order.orderId) last s) (ho : s.orders.get? order.orderId = some order) (hact : order.active = true)
    (hlast : order.seq = last) :
    ∃ s1 bookIndex order', executeOrder s order.orderId seq stamp = .ok ({ s1 with bookIndex }, order') ∧
      MatchRun last seq stamp order.orderId s 0 s1 ∧ Inv (some order.orderId) last s1 ∧
      s1.orders.get? order.orderId = some order' ∧ Inv none last { s1 with bookIndex } := by
  have hfuel : s.orders.sum Order.activeMark < (s.orders.entries.length + 1 : ℕ) := by
    have := activeMark_sum_le s.orders
    push_cast
    omega
  obtain ⟨s1, hrun, hinv, hmatch⟩ := matchLoop_spec hseq hstamp _ 0 h hfuel ho fun _ => hact
  obtain ⟨order', ho', ht⟩ := hmatch.keeps _ _ ho
  simp only [executeOrder, hrun, Dict.getItem_of_get? ho', Py.bind_ok]
  by_cases hact' : order'.active = true
  · have hid : order'.orderId = order.orderId := Order.orderId_of_terms ht
    obtain ⟨bookIndex, hadd, hrest⟩ := rest_spec order' (hid ▸ hinv) (hid ▸ ho') hact'
      ((Order.seq_of_terms ht).trans hlast)
    rw [if_pos hact', hadd]
    exact ⟨s1, bookIndex, order', rfl, hmatch, hinv, ho', hrest⟩
  · rw [if_neg hact']
    exact ⟨s1, s1.bookIndex, order', rfl, hmatch, hinv, ho', hinv.done ho' (by simpa using hact')⟩

/-! ### Commands -/

variable {taker : Option String}

theorem Inv.mono {last last' : ℤ} {s : State} (h : Inv taker last s) (hle : last ≤ last') : Inv taker last' s := by
  refine ⟨h.settings, h.orders.mono hle, ?_, h.funds, h.index⟩
  refine ⟨fun t ht => (h.trades.trade t ht).keeps (fun _ o ho => ⟨o, ho, rfl⟩) hle,
    h.trades.filled, h.trades.numbered, h.trades.executionSeq, h.trades.count⟩

/-- The invariant says nothing about results, volumes and clocks. -/
theorem Inv.congr (h : Inv taker last s) (hset : s'.settings = s.settings) (hord : s'.orders = s.orders)
    (htr : s'.trades = s.trades) (hex : s'.executionSeq = s.executionSeq) (hacc : s'.accounts = s.accounts)
    (hidx : s'.bookIndex = s.bookIndex) : Inv taker last s' := by
  obtain ⟨h1, h2, h3, h4, h5⟩ := h
  exact ⟨hset ▸ h1, hset ▸ hord ▸ h2, hset ▸ hord ▸ htr ▸ hex ▸ h3, hset ▸ hord ▸ htr ▸ hacc ▸ h4,
    hset ▸ hord ▸ hidx ▸ h5⟩

theorem Inv.record (h : Inv taker last s) (r : Result) : Inv taker last (record s r) :=
  h.congr rfl rfl rfl rfl rfl rfl

/-- How a cancel ends: the state as it was or with the order released, and a result. -/
inductive Canceled (s : State) (orderId : String) : State → Prop
  | kept (r : Result) : Canceled s orderId (record s r)
  | released {o : Order} {bookIndex : BookIndex} {accounts : SortedMap String Account}
      (found : s.orders.get? orderId = some o) (active : o.active = true) (r : Result) :
      Canceled s orderId (record { s with
        bookIndex, accounts, orders := s.orders.set orderId (o.cancel "USER_CANCEL") } r)

theorem cancelOrder_spec (h : Inv none last s) (owner : String) (seq : ℤ) (requestId orderId : String) :
    ∃ s', cancelOrder s owner seq requestId orderId = .ok s' ∧ Inv none last s' ∧ Canceled s orderId s' := by
  unfold cancelOrder
  cases ho : s.orders.get? orderId with
  | none => exact ⟨_, rfl, h.record _, .kept _⟩
  | some old =>
    obtain rfl := h.orders.key _ _ ho
    by_cases hown : old.owner ≠ owner
    · simp only [if_pos hown]
      exact ⟨_, rfl, h.record _, .kept _⟩
    by_cases hact : old.active = true
    · obtain ⟨bookIndex, accounts, hrel, hinv⟩ := release_spec h ho hact "USER_CANCEL"
      simp only [if_neg hown, if_pos hact, hrel, Py.bind_ok, Py.pure_eq]
      exact ⟨_, rfl, hinv.record _, .released ho hact _⟩
    by_cases hc : old.status ≠ .CANCELED
    · simp only [if_neg hown, if_neg hact, if_pos hc]
      exact ⟨_, rfl, h.record _, .kept _⟩
    · simp only [if_neg hown, if_neg hact, if_neg hc]
      exact ⟨_, rfl, h.record _, .kept _⟩

/-- How a new order ends: refused, or entered, matched and rested. -/
inductive Placed (s : State) (b : NewOrder) (owner : String) (last seq stamp : ℤ) (day : String) :
    State → Prop
  | rejected (reason : String) :
      Placed s b owner last seq stamp day (reject s seq b.requestId b.orderId reason)
  | executed {accounts : SortedMap String Account} {s1 : State} {bookIndex : BookIndex}
      {order : Order} (admitted : Admitted s b owner last seq stamp)
      (run : MatchRun (last + 1) seq stamp b.orderId (enterState s b owner seq stamp day accounts) 0 s1)
      (loop : Inv (some b.orderId) (last + 1) s1)
      (done : s1.orders.get? b.orderId = some order) :
      Placed s b owner last seq stamp day (accept { s1 with bookIndex } seq b.requestId b.orderId order.status)

variable {owner : String}

theorem placeOrder_spec (h : Inv none last s) {b : NewOrder} (hb : b.Valid)
    (howner : ∃ opening, s.settings.accounts.get? owner = some opening) (hseq : seq = last + 1) (hpos : 1 ≤ last)
    (hstamp : 1 ≤ stamp ∧ stamp ≤ maxTimestamp) (day : String) :
    ∃ s', placeOrder s b owner seq stamp day = .ok s' ∧ Inv none (last + 1) s' ∧
      Placed s b owner last seq stamp day s' := by
  have hrej : ∀ reason, Inv none (last + 1) (reject s seq b.requestId b.orderId reason) :=
    fun reason => (h.mono (by omega)).record _
  simp only [placeOrder]
  by_cases h1 : s.orders.contains b.orderId = true
  · rw [if_pos h1]
    exact ⟨_, rfl, hrej _, .rejected _⟩
  by_cases h2 : b.symbol ∉ s.settings.symbols
  · rw [if_neg h1, if_pos h2]
    exact ⟨_, rfl, hrej _, .rejected _⟩
  by_cases h3 : ¬ sessionPermits stamp s.settings.session = true
  · rw [if_neg h1, if_neg h2, if_pos h3]
    exact ⟨_, rfl, hrej _, .rejected _⟩
  by_cases h4 : ¬ riskPermits ((s.daily.get? (dailyKey owner b.symbol day)).getD 0) b.quantity
      s.settings.dailyLimit = true
  · rw [if_neg h1, if_neg h2, if_neg h3, if_pos h4]
    exact ⟨_, rfl, hrej _, .rejected _⟩
  rw [if_neg h1, if_neg h2, if_neg h3, if_neg h4]
  have hsym : b.symbol ∈ s.settings.symbols := not_not.mp h2
  have hfresh : s.orders.get? b.orderId = none := Dict.contains_eq_false_iff.mp (by simpa using h1)
  obtain ⟨a, c, ha, hc⟩ := h.funds.account howner hsym
  have hav : ∃ available, availableFor b a = .ok available := by
    unfold availableFor
    cases b.side with
    | BUY => exact ⟨_, rfl⟩
    | SELL => exact ⟨c.available, by simp [SortedMap.getItem_of_get? hc]⟩
  obtain ⟨available, hav⟩ := hav
  simp only [SortedMap.getItem_of_get? ha, hav, Py.bind_ok]
  by_cases h5 : available < reserveOf b
  · rw [if_pos h5]
    exact ⟨_, rfl, hrej _, .rejected _⟩
  rw [if_neg h5]
  have had : Admitted s b owner last seq stamp := by
    refine ⟨hb, howner, hsym, hfresh, hseq, hpos, hstamp, ?_⟩
    intro a' available' ha' hav'
    obtain rfl : a = a' := Option.some.inj (ha.symm.trans ha')
    obtain rfl : available = available' := Except.ok.inj (hav.symm.trans hav')
    exact not_lt.mp h5
  obtain ⟨accounts, henter, hinv⟩ := enterOrder_spec h had day
  have hrange : 2 ≤ seq ∧ seq ≤ last + 1 := ⟨by omega, by omega⟩
  obtain ⟨s1, bookIndex, order', hexec, hmatch, hloop, ho', hdone⟩ :=
    executeOrder_spec (b.toOrder owner seq stamp day) hrange hstamp hinv (by simp [enterState, NewOrder.toOrder]) rfl hseq
  have hid : (b.toOrder owner seq stamp day).orderId = b.orderId := rfl
  rw [hid] at hexec
  simp only [henter, hexec, Py.bind_ok, Py.pure_eq]
  exact ⟨_, rfl, hdone.record _, .executed had hmatch hloop ho'⟩

/-- The state once the day is over for the orders of other days. -/
def Expired (s : State) (day : String) (s1 : State) : Prop :=
  ∃ bookIndex accounts, s1 = withOrders s (s.orders.mapVal (Order.expireAt day)) bookIndex accounts

/-- What a validated command does after the expiry. -/
inductive Handled (s1 : State) (owner : String) (last seq stamp : ℤ) (day : String) :
    Body → State → Prop
  | cancel {requestId orderId : String} {s' : State} (done : Canceled s1 orderId s') :
      Handled s1 owner last seq stamp day (.cancel requestId orderId) s'
  | new {b : NewOrder} {s' : State} (done : Placed s1 b owner last seq stamp day s') :
      Handled s1 owner last seq stamp day (.new b) s'

theorem runBody_spec (h : Inv none last s) (howner : ∃ opening, s.settings.accounts.get? owner = some opening)
    (hseq : seq = last + 1) (hpos : 1 ≤ last) (hstamp : 1 ≤ stamp ∧ stamp ≤ maxTimestamp) {body : Body}
    (hbody : body.Valid) :
    ∃ s1 s', runBody s owner seq stamp body = .ok s' ∧ Inv none (last + 1) s' ∧
      expire (Calendar.isoDate stamp.toNat) s = .ok s1 ∧ Inv none last s1 ∧
      Expired s (Calendar.isoDate stamp.toNat) s1 ∧
      Handled s1 owner last seq stamp (Calendar.isoDate stamp.toNat) body s' := by
  obtain ⟨bookIndex, accounts, hexp, hinv⟩ := expire_spec h (Calendar.isoDate stamp.toNat)
  simp only [runBody, hexp, Py.bind_ok]
  cases body with
  | cancel requestId orderId =>
    obtain ⟨s', hc, hinv', hd⟩ := cancelOrder_spec hinv owner seq requestId orderId
    exact ⟨_, s', hc, hinv'.mono (by omega), rfl, hinv, ⟨_, _, rfl⟩, .cancel hd⟩
  | new b =>
    obtain ⟨s', hp, hinv', hd⟩ := placeOrder_spec hinv hbody howner hseq hpos hstamp (Calendar.isoDate stamp.toNat)
    exact ⟨_, s', hp, hinv', rfl, hinv, ⟨_, _, rfl⟩, .new hd⟩

theorem Canceled.frame {orderId : String} (h : Canceled s orderId s') :
    s'.settings = s.settings ∧ s'.lastSeq = s.lastSeq ∧ s'.lastTimestamp = s.lastTimestamp := by
  cases h <;> exact ⟨rfl, rfl, rfl⟩

theorem Placed.frame {s s' : State} {b : NewOrder} {owner day : String} {last seq stamp : ℤ}
    (h : Placed s b owner last seq stamp day s') :
    s'.settings = s.settings ∧ s'.lastSeq = s.lastSeq ∧ s'.lastTimestamp = s.lastTimestamp := by
  cases h with
  | rejected => exact ⟨rfl, rfl, rfl⟩
  | executed admitted run loop done =>
    have hf := run.frame
    exact ⟨hf.settings, hf.lastSeq, hf.lastTimestamp⟩

theorem Handled.frame {s s' : State} {owner day : String} {last seq stamp : ℤ} {body : Body}
    (h : Handled s owner last seq stamp day body s') :
    s'.settings = s.settings ∧ s'.lastSeq = s.lastSeq ∧ s'.lastTimestamp = s.lastTimestamp := by
  cases h with
  | cancel done => exact done.frame
  | new done => exact done.frame

/-! ### States of a run -/

/-- The invariant between commands: everything is numbered up to the last sequence number. -/
structure StateInv (s : State) : Prop where
  inv : Inv none s.lastSeq s
  lastSeq : 1 ≤ s.lastSeq ∧ s.lastSeq ≤ 1001

/-- The envelope checks of a command. -/
structure Command.Accepted (s : State) (c : Command) (b : Body) : Prop where
  seq : 2 ≤ c.seq ∧ c.seq ≤ 1001
  timestamp : 1 ≤ c.timestamp ∧ c.timestamp ≤ maxTimestamp
  owner : isIdentifier c.owner = true
  next : c.seq = s.lastSeq + 1
  clock : s.lastTimestamp ≤ c.timestamp
  account : ∃ a, s.accounts.get? c.owner = some a
  body : validate c.body c.kind = .ok b

/-- The state whose clock a command has advanced. -/
def advance (s : State) (c : Command) : State := { s with lastSeq := c.seq, lastTimestamp := c.timestamp }

variable {command : Json}

variable {c : Command}

theorem readCommand_eq_ok : readCommand command = .ok c ↔
    command.get? "seq" = some (.int c.seq) ∧ command.get? "timestamp" = some (.int c.timestamp) ∧
      command.get? "owner" = some (.str c.owner) ∧ command.get? "kind" = some c.kind ∧
      command.get? "body" = some c.body ∧ (2 ≤ c.seq ∧ c.seq ≤ 1001) ∧
      (1 ≤ c.timestamp ∧ c.timestamp ≤ maxTimestamp) ∧ isIdentifier c.owner = true := by
  simp only [readCommand, Py.bind_eq_ok, item_eq_ok, integer_eq_ok, identifier_eq_ok, Py.pure_eq, Except.ok.injEq]
  constructor
  · rintro ⟨_, h1, seq, ⟨rfl, hs⟩, _, h2, stamp, ⟨rfl, ht⟩, _, h3, owner, ⟨rfl, ho⟩, kind, h4, body, h5, rfl⟩
    exact ⟨h1, h2, h3, h4, h5, hs, ht, ho⟩
  · rintro ⟨h1, h2, h3, h4, h5, hs, ht, ho⟩
    exact ⟨_, h1, _, ⟨rfl, hs⟩, _, h2, _, ⟨rfl, ht⟩, _, h3, _, ⟨rfl, ho⟩, _, h4, _, h5, rfl⟩

theorem applyCommand_eq_ok : applyCommand s c = .ok s' ↔
    c.seq = s.lastSeq + 1 ∧ s.lastTimestamp ≤ c.timestamp ∧
      (∃ a, s.accounts.get? c.owner = some a) ∧ ∃ b, validate c.body c.kind = .ok b ∧
        runBody (advance s c) c.owner c.seq c.timestamp b = .ok s' := by
  simp only [applyCommand, Py.throw_eq, Py.bind_error, Py.guard_eq_ok, Py.bind_eq_ok, not_or,
    not_not, not_lt, SortedMap.contains_iff, and_assoc]
  rfl

/-- A command other than genesis that the reducer accepts on a state. -/
theorem reduceCommand_eq_ok (h : reduceCommand (some s) command = .ok s') : ∃ c b, readCommand command = .ok c ∧
      c.Accepted s b ∧ runBody (advance s c) c.owner c.seq c.timestamp b = .ok s' := by
  cases command with
  | obj fs =>
    simp only [reduceCommand, Option.isSome_some, if_true] at h
    by_cases hk : ((Json.obj fs).get? "kind").any (isText · "genesis") = true
    · simp [hk, Py.bind_eq_ok] at h
    · rw [if_neg hk] at h
      obtain ⟨-, -, h⟩ := Py.bind_eq_ok.mp h
      obtain ⟨c, hc, h⟩ := Py.bind_eq_ok.mp h
      obtain ⟨hnext, hclock, hacc, b, hb, hrun⟩ := applyCommand_eq_ok.mp h
      obtain ⟨-, -, -, -, -, hs, ht, ho⟩ := readCommand_eq_ok.mp hc
      exact ⟨c, b, hc, ⟨hs, ht, ho, hnext, hclock, hacc, hb⟩, hrun⟩
  | _ => simp [reduceCommand] at h

/-- An account of the state was opened by the settings. -/
theorem FundsOk.opened_of_account {settings : Settings} {accounts : SortedMap String Account}
    {orders : Dict String Order} {trades : List Trade} (h : FundsOk orders trades settings accounts) {a : Account}
    (ha : accounts.get? owner = some a) : ∃ opening, settings.accounts.get? owner = some opening := by
  cases ho : settings.accounts.get? owner with
  | none => rw [h.closed owner ho] at ha; cases ha
  | some opening => exact ⟨opening, rfl⟩

/-- A command that passes the envelope checks is executed, and keeps the invariant. -/
theorem runBody_returns (h : StateInv s) {b : Body} (hc : c.Accepted s b) :
    ∃ s1 s', runBody (advance s c) c.owner c.seq c.timestamp b = .ok s' ∧ StateInv s' ∧ Inv none s.lastSeq s1 ∧
      expire (Calendar.isoDate c.timestamp.toNat) (advance s c) = .ok s1 ∧
      Expired (advance s c) (Calendar.isoDate c.timestamp.toNat) s1 ∧
      Handled s1 c.owner s.lastSeq c.seq c.timestamp (Calendar.isoDate c.timestamp.toNat) b s' ∧
      s'.settings = s.settings ∧ s'.lastSeq = c.seq ∧ s'.lastTimestamp = c.timestamp := by
  obtain ⟨a, ha⟩ := hc.account
  have hinv : Inv none s.lastSeq (advance s c) := h.inv.congr rfl rfl rfl rfl rfl rfl
  obtain ⟨s1, s', hrun, hinv', hexp, hinv1, hexpired, hhandled⟩ := runBody_spec hinv
    (h.inv.funds.opened_of_account ha) hc.next h.lastSeq.1 hc.timestamp (validate_valid hc.body)
  obtain ⟨bookIndex, accounts, rfl⟩ := hexpired
  obtain ⟨hset, hseq, hstamp⟩ := hhandled.frame
  have hlast : s'.lastSeq = c.seq := hseq
  refine ⟨_, s', hrun, ⟨?_, ?_⟩, hinv1, hexp, ⟨_, _, rfl⟩, hhandled, hset, hlast, hstamp⟩
  · rw [hlast, hc.next]; exact hinv'
  · rw [hlast]
    have := hc.seq
    omega

theorem genesis_funds {st : Settings} (h : st.Valid) :
    FundsOk .empty [] st (st.accounts.mapVal (openAccount st.symbols)) := by
  have hempty : ∀ f : Order → ℤ, (Dict.empty : Dict String Order).sum f = 0 := fun _ => rfl
  refine ⟨?_, ?_⟩
  · intro owner opening ho
    obtain ⟨-, hcash, hpos⟩ := h.account owner opening ho
    refine ⟨openAccount st.symbols opening, by rw [SortedMap.get?_mapVal, ho]; rfl, ?_, ?_, ?_, ?_⟩
    · simp [openAccount, cashBalance, balanceOf, cashFlow, hempty]
    · intro symbol
      have hkeys : ((st.symbols.map fun symbol =>
        (symbol, (⟨(opening.positions.get? symbol).getD 0, 0⟩ : Balance))).map Prod.fst).Nodup := by
        simpa [Function.comp_def] using h.symbols.1
      simp only [openAccount]
      rw [SortedMap.get?_ofList hkeys]
      by_cases hs : symbol ∈ st.symbols
      · rw [if_pos hs, Assoc.lookup_eq_some_iff hkeys]
        refine List.mem_map.mpr ⟨symbol, hs, ?_⟩
        simp [shareBalance, balanceOf, shareFlow, hempty]
      · rw [if_neg hs, Assoc.lookup_eq_none_iff]
        simpa [Function.comp_def] using hs
    · simpa [cashBalance, balanceOf, cashFlow, hempty] using hcash.1
    · intro symbol _
      simp only [shareBalance, balanceOf, shareFlow, hempty, List.map_nil, List.sum_nil, add_zero, sub_zero]
      cases hget : opening.positions.get? symbol with
      | none => simp
      | some n => exact (hpos symbol n hget).2.1
  · intro owner ho
    rw [SortedMap.get?_mapVal, ho]
    rfl

theorem genesis_inv {st : Settings} (h : st.Valid) : StateInv (genesis st) := by
  refine ⟨⟨h, ?_, ?_, genesis_funds h, ?_⟩, by simp [genesis]⟩
  · refine ⟨?_, ?_, ?_, by simp [genesis, Dict.empty]⟩ <;> simp [genesis]
  · refine ⟨by simp [genesis], by simp [genesis], by simp [genesis], by simp [genesis], ?_⟩
    simp [genesis, Dict.sum, Dict.values, Dict.empty]
  · refine (IndexOk.empty h.symbols.1).congr fun symbol sd x => ?_
    simp [restingIn, genesis]

/-- An accepted genesis command opens the state of its settings. -/
theorem reduceCommand_genesis (h : reduceCommand none command = .ok s) :
    ∃ st : Settings, st.Valid ∧ s = genesis st := by
  cases command with
  | obj fs =>
    simp only [reduceCommand, Option.isSome_none, Bool.false_eq_true, if_false] at h
    split_ifs at h
    · simp only [Py.bind_eq_ok, Py.pure_eq, Except.ok.injEq] at h
      obtain ⟨-, -, v, -, st, hst, rfl⟩ := h
      exact ⟨st, settings_valid hst, rfl⟩
    · simp [Py.bind_eq_ok] at h
  | _ => simp [reduceCommand] at h

/-- Fold accepted commands over a state. -/
def runCommands (s : State) (commands : List Json) : Py State :=
  commands.foldlM (fun s command => reduceCommand (some s) command) s

theorem reduceCommand_inv (h : StateInv s) (hr : reduceCommand (some s) command = .ok s') : StateInv s' := by
  obtain ⟨c, b, -, hc, hrun⟩ := reduceCommand_eq_ok hr
  obtain ⟨s1, s'', hrun', hinv, -⟩ := runBody_returns h hc
  obtain rfl : s'' = s' := Except.ok.inj (hrun'.symm.trans hrun)
  exact hinv

theorem runCommands_inv {commands : List Json} (h : StateInv s) (hr : runCommands s commands = .ok s') :
    StateInv s' := by
  induction commands generalizing s with
  | nil =>
    obtain rfl := Except.ok.inj hr
    exact h
  | cons command commands ih =>
    obtain ⟨s1, h1, h2⟩ := Py.bind_eq_ok.mp ((List.foldlM_cons ..).symm.trans hr)
    exact ih (reduceCommand_inv h h1) h2

end SystemDesign.StockExchange
