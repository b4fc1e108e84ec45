import SystemDesign.StockExchange.Commands

/-!
Price-time priority: the indexed matcher against a naive one.

The naive matcher keeps orders and trades only. At each step it looks at every
open order of the other side and takes the one with the best price and, there,
the smallest sequence number. Its book is read off the orders: quantity by
price, and the queue of a price in sequence order. The theorem at the end says
that heaps, links and level records compute exactly this.
-/

namespace SystemDesign.StockExchange

open List hiding le_antisymm le_total le_trans lt_irrefl lt_of_le_of_lt not_lt

/-! ### The naive matcher -/

/-- Open orders of one side of a symbol. -/
def openSide (orders : Dict String Order) (symbol : String) (sd : Side) : List Order :=
  orders.values.filter fun o => o.symbol = symbol && o.side = sd && o.active

/-- `a` comes before `b`: a better price, or the same price and an earlier number. -/
def before (sd : Side) (a b : Order) : Bool :=
  a.price * sd.sign < b.price * sd.sign || a.price = b.price && a.seq < b.seq

/-- One look at a candidate. -/
def better (sd : Side) (best : Option Order) (o : Order) : Option Order :=
  match best with
  | none => some o
  | some b => if before sd o b then some o else some b

def naivePick (orders : Dict String Order) (symbol : String) (sd : Side) : Option Order :=
  (openSide orders symbol sd).foldl (better sd) none

def naiveMatch (seq stamp : ℤ) (id : String) : ℕ → Dict String Order → List Trade → ℕ → Dict String Order × List Trade
  | 0, orders, trades, _ => (orders, trades)
  | fuel + 1, orders, trades, tradeIndex =>
      match orders.get? id with
      | none => (orders, trades)
      | some order =>
          if order.remaining = 0 then (orders, trades)
          else match naivePick orders order.symbol order.side.opposite with
            | none => (orders, trades)
            | some maker =>
                if order.beyond maker then (orders, trades)
                else if maker.owner = order.owner then
                  (orders.set id { order with
                    status := .CANCELED, reason := "SELF_TRADE_PREVENTION" }, trades)
                else
                  let count := min order.remaining maker.remaining
                  naiveMatch seq stamp id fuel
                    ((orders.set order.orderId (order.execute count)).set maker.orderId (maker.execute count))
                    (trades ++ [tradeOf seq stamp (trades.length + 1) (tradeIndex + 1) order maker])
                    (tradeIndex + 1)

/-- The fallback of `book` without an index: open quantity by price. -/
def naiveQuantities (orders : Dict String Order) (symbol : String) (sd : Side) : SortedMap ℤ ℤ :=
  (openSide orders symbol sd).foldl
    (fun levels o => levels.insert o.price ((levels.get? o.price).getD 0 + o.remaining)) .empty

def naiveBook (orders : Dict String Order) (symbol : String) : Levels :=
  ⟨naiveQuantities orders symbol .BUY, naiveQuantities orders symbol .SELL⟩

/-- The open orders of one price by sequence number. -/
def naiveQueue (orders : Dict String Order) (symbol : String) (sd : Side) (p : ℤ) : List String :=
  (((openSide orders symbol sd).filter fun o => o.price = p).insertionSort fun a b => a.seq ≤ b.seq).map Order.orderId

/-- The ids met along the links from a node on. -/
def followLinks (nodes : SortedMap String Node) : ℕ → Option String → List String
  | _, none => []
  | 0, some _ => []
  | fuel + 1, some id =>
      match nodes.get? id with
      | none => []
      | some node => id :: followLinks nodes fuel node.next

/-- The queue of one price as the index links it. -/
def BookSide.queue (s : BookSide) (p : ℤ) : List String :=
  followLinks s.nodes s.nodes.entries.length ((s.levels.get? p).bind Level.head)

/-! ### Picking -/

section
variable {orders : Dict String Order} {symbol : String} {sd : Side}

theorem mem_openSide (hkey : ∀ id o, orders.get? id = some o → o.orderId = id) {o : Order} :
    o ∈ openSide orders symbol sd ↔ restingIn orders none symbol sd o := by
  simp only [openSide, mem_filter, Bool.and_eq_true, decide_eq_true_eq, restingIn]
  constructor
  · rintro ⟨hmem, ⟨hsym, hside⟩, hact⟩
    obtain ⟨id, hget⟩ := Dict.mem_values.mp hmem
    obtain rfl := hkey id o hget
    exact ⟨hget, hact, by simp, hsym, hside⟩
  · rintro ⟨hget, hact, -, hsym, hside⟩
    exact ⟨Dict.mem_values.mpr ⟨_, hget⟩, ⟨hsym, hside⟩, hact⟩

/-- Nothing in the list comes before the candidate kept. -/
theorem pick_fold (sd : Side) (l : List Order) (best : Option Order) :
    (l.foldl (better sd) best = none ↔ best = none ∧ l = []) ∧
    ∀ b, l.foldl (better sd) best = some b →
      (b ∈ l ∨ best = some b) ∧ (∀ x ∈ l, before sd x b = false) ∧ ∀ x, best = some x → before sd x b = false := by
  have htrans : ∀ a b c, before sd a b = false → before sd b c = false → before sd a c = false := by
    intro a b c
    simp only [before, Bool.or_eq_false_iff, Bool.and_eq_false_imp, decide_eq_false_iff_not, decide_eq_true_eq, not_lt]
    rintro ⟨h1, h2⟩ ⟨h3, h4⟩
    have hs : ∀ p p' : ℤ, p * sd.sign = p' * sd.sign → p = p' := by
      intro p p' h
      cases sd <;> simp only [Side.sign] at h <;> omega
    refine ⟨h3.trans h1, fun hac => ?_⟩
    have hab : a.price = b.price := hs _ _ (le_antisymm (by rw [hac]; exact h3) h1)
    exact (h4 (hab ▸ hac)).trans (h2 hab)
  have hirr : ∀ a, before sd a a = false := by simp [before]
  have hasym : ∀ a b, before sd a b = true → before sd b a = false := by
    intro a b
    simp only [before, Bool.or_eq_true, Bool.and_eq_true, decide_eq_true_eq, Bool.or_eq_false_iff,
      Bool.and_eq_false_imp, decide_eq_false_iff_not, not_lt]
    rintro (h | ⟨h1, h2⟩)
    · refine ⟨h.le, fun e => ?_⟩
      rw [e] at h
      exact absurd h (lt_irrefl _)
    · exact ⟨by rw [h1], fun _ => h2.le⟩
  induction l generalizing best with
  | nil => exact ⟨by simp, fun b hb => ⟨.inr hb, by simp, fun x hx => by
    obtain rfl : x = b := Option.some.inj (hx.symm.trans hb)
    exact hirr x⟩⟩
  | cons o l ih =>
    rw [foldl_cons]
    obtain ⟨ihn, ihs⟩ := ih (better sd best o)
    have hsome : ∃ x, better sd best o = some x := by
      unfold better
      cases best with
      | none => exact ⟨_, rfl⟩
      | some b => by_cases h : before sd o b = true <;> simp [h]
    obtain ⟨x, hx⟩ := hsome
    refine ⟨by rw [ihn, hx]; simp, fun b hb => ?_⟩
    obtain ⟨hmem, hall, hbest⟩ := ihs b hb
    have hxb := hbest x hx
    have hox : before sd o x = false ∧ (x = o ∨ best = some x) ∧ ∀ y, best = some y → before sd y x = false := by
      unfold better at hx
      cases best with
      | none =>
        obtain rfl := Option.some.inj hx
        exact ⟨hirr o, .inl rfl, by simp⟩
      | some y =>
        by_cases h : before sd o y = true
        · simp only [h, if_true] at hx
          obtain rfl := Option.some.inj hx
          refine ⟨hirr o, .inl rfl, fun z hz => ?_⟩
          obtain rfl := Option.some.inj hz
          exact hasym _ _ h
        · simp only [h] at hx
          obtain rfl := Option.some.inj hx
          refine ⟨by simpa using h, .inr rfl, fun z hz => ?_⟩
          obtain rfl := Option.some.inj hz
          exact hirr y
    refine ⟨?_, ?_, fun y hy => htrans _ _ _ (hox.2.2 y hy) hxb⟩
    · rcases hmem with hmem | hmem
      · exact .inl (mem_cons_of_mem _ hmem)
      · obtain rfl := Option.some.inj (hx.symm.trans hmem)
        rcases hox.2.1 with rfl | hb'
        · exact .inl mem_cons_self
        · exact .inr hb'
    · intro y hy
      rcases mem_cons.mp hy with rfl | hy
      · exact htrans _ _ _ hox.1 hxb
      · exact hall y hy

theorem naivePick_eq_none (hkey : ∀ id o, orders.get? id = some o → o.orderId = id)
    (h : ∀ x, ¬ restingIn orders none symbol sd x) : naivePick orders symbol sd = none := by
  have hnil : openSide orders symbol sd = [] :=
    eq_nil_iff_forall_not_mem.mpr fun o ho => h o ((mem_openSide hkey).mp ho)
  simp [naivePick, hnil]

/-- The naive choice is the first order of the book. -/
theorem naivePick_eq_some (hkey : ∀ id o, orders.get? id = some o → o.orderId = id)
    (hseqs : ∀ id id' o o', orders.get? id = some o → orders.get? id' = some o' →
      o.seq = o'.seq → id = id') {maker : Order} (h : IndexOk.IsFirst (restingIn orders none) symbol sd maker) :
    naivePick orders symbol sd = some maker := by
  obtain ⟨hnone, hsome⟩ := pick_fold sd (openSide orders symbol sd) none
  have hmem := (mem_openSide hkey).mpr h.rests
  cases hp : naivePick orders symbol sd with
  | none =>
    have := (hnone.mp hp).2
    rw [this] at hmem
    cases hmem
  | some b =>
    obtain ⟨hb, hall, -⟩ := hsome b hp
    have hbrest := (mem_openSide hkey).mp (hb.resolve_right (by simp))
    have hnb := hall maker hmem
    simp only [before, Bool.or_eq_false_iff, Bool.and_eq_false_imp, decide_eq_false_iff_not,
      decide_eq_true_eq, not_lt] at hnb
    have hprice : b.price = maker.price := by
      have h1 := hnb.1
      have h2 := h.price b hbrest
      cases sd <;> simp only [Side.sign] at h1 h2 <;> omega
    have hseq : b.seq = maker.seq := le_antisymm (hnb.2 hprice.symm) (h.seq b hbrest hprice)
    have hid := hseqs _ _ _ _ hbrest.1 h.rests.1 hseq
    have hget := hbrest.1
    rw [hid, h.rests.1] at hget
    exact hget.symm

end

/-! ### Matching -/

variable {orders : Dict String Order} {symbol : String}

/-- The other side of the book does not depend on the taker's record. -/
theorem restingIn_opposite {id : String} {order : Order} (ho : orders.get? id = some order) {x : Order} :
    restingIn orders none symbol order.side.opposite x ↔ restingIn orders (some id) symbol order.side.opposite x := by
  constructor
  · rintro ⟨hx, hact, -, hsym, hside⟩
    refine ⟨hx, hact, ?_, hsym, hside⟩
    intro e
    have := Option.some.inj e
    rw [← this, ho] at hx
    obtain rfl := Option.some.inj hx
    cases hs : order.side <;> rw [hs] at hside <;> simp [Side.opposite] at hside
  · rintro ⟨hx, hact, -, hrest⟩
    exact ⟨hx, hact, by simp, hrest⟩

variable {last : ℤ}

/-- A run of the indexed loop is the naive matcher on the same orders and trades. -/
theorem MatchRun.naive {seq stamp : ℤ} {id : String} {s s' : State} {k : ℕ} (h : MatchRun last seq stamp id s k s')
    (fuel : ℕ) (hfuel : s.orders.sum Order.activeMark < fuel) :
    naiveMatch seq stamp id fuel s.orders s.trades k = (s'.orders, s'.trades) := by
  have hstep : ∀ {orders : Dict String Order}, orders.sum Order.activeMark < fuel → ∃ n, fuel = n + 1 := by
    intro orders hlt
    have := activeMark_sum_nonneg orders
    exact Nat.exists_eq_succ_of_ne_zero (by omega)
  have hfirst : ∀ {t : State} {order maker : Order}, Inv (some id) last t →
      t.orders.get? id = some order → Offers t id order maker →
      naivePick t.orders order.symbol order.side.opposite = some maker := by
    intro t order maker inv taker offer
    refine naivePick_eq_some inv.orders.key inv.orders.seqs ⟨?_, ?_, ?_⟩
    · exact (restingIn_opposite taker).mpr offer.rests
    · exact fun x hx => offer.price x ((restingIn_opposite taker).mp hx)
    · exact fun x hx => offer.seq x ((restingIn_opposite taker).mp hx)
  have hopen : ∀ {t : State} {order : Order}, Inv (some id) last t →
      t.orders.get? id = some order → order.active = true → order.remaining ≠ 0 :=
    fun inv taker active => ((inv.orders.valid _ _ taker).status.remaining_pos active).ne'
  induction h generalizing fuel with
  | filled inv taker full =>
    obtain ⟨n, rfl⟩ := hstep hfuel
    simp [naiveMatch, taker, full]
  | exhausted inv taker active empty =>
    obtain ⟨n, rfl⟩ := hstep hfuel
    have hnone := naivePick_eq_none inv.orders.key fun x hx => empty x ((restingIn_opposite taker).mp hx)
    simp [naiveMatch, taker, hopen inv taker active, hnone]
  | beyond inv taker active offer far =>
    obtain ⟨n, rfl⟩ := hstep hfuel
    simp [naiveMatch, taker, hopen inv taker active, hfirst inv taker offer, far]
  | selfTrade inv taker active offer near own =>
    obtain ⟨n, rfl⟩ := hstep hfuel
    simp [naiveMatch, taker, hopen inv taker active, hfirst inv taker offer, near, own, Order.cancel]
  | @fill t t' k order maker bookIndex accounts inv taker active offer near other rest ih =>
    obtain ⟨n, rfl⟩ := hstep hfuel
    obtain rfl := inv.orders.key _ _ taker
    have hne : maker.orderId ≠ order.orderId := fun e => offer.rests.2.2.1 (by rw [e])
    have hdec := fillOrders_activeMark taker offer.rests.1 hne active offer.rests.2.1
    have hrec := ih n (by simp only [fillState]; push_cast at hfuel; omega) (fun {_} hlt => by
        have := activeMark_sum_nonneg ‹Dict String Order›
        exact Nat.exists_eq_succ_of_ne_zero (by omega))
    simp only [naiveMatch, taker, if_neg (hopen inv taker active), hfirst inv taker offer, near,
      Bool.false_eq_true, if_false, if_neg other]
    rw [← hrec]
    simp only [fillState, fillOrders, inv.trades.executionSeq]

/-! ### The resting book -/

variable {value : BookSide}

theorem followLinks_spec {sd : Side} {q : Queues} (hrep : value.Represents sd q) {p : ℤ} :
    ∀ (l a : List Order) (fuel : ℕ), q p = a ++ l →
      l.length ≤ fuel → followLinks value.nodes fuel (firstId l) = l.map Order.orderId := by
  intro l
  induction l with
  | nil => intro a fuel _ _; cases fuel <;> rfl
  | cons o l ih =>
    intro a fuel hq hfuel
    obtain ⟨fuel, rfl⟩ := Nat.exists_eq_succ_of_ne_zero (by
      simp only [length_cons] at hfuel; omega : fuel ≠ 0)
    rw [firstId_cons, followLinks, hrep.node p a o l hq]
    simp only [nodeOf, map_cons, List.cons.injEq, true_and]
    exact ih (a ++ [o]) fuel (by rw [hq]; simp) (by simpa using hfuel)

theorem BookSide.Represents.queue_eq {sd : Side} {q : Queues} (hrep : value.Represents sd q) (p : ℤ) :
    value.queue p = (q p).map Order.orderId := by
  have hhead : (value.levels.get? p).bind Level.head = firstId (q p) := by
    rw [hrep.level]
    by_cases hq : q p = []
    · simp [hq]
    · simp [levelOf_of_ne_nil hq]
  have hsub : (q p).map Order.orderId ⊆ value.nodes.keys := by
    intro id hid
    obtain ⟨o, ho, rfl⟩ := mem_map.mp hid
    obtain ⟨a, b, -, hn⟩ := hrep.node_of_mem ho
    exact SortedMap.mem_keys.mpr ⟨_, hn⟩
  have hlen := (hrep.nodup p).length_le_of_subset hsub
  rw [BookSide.queue, hhead]
  refine followLinks_spec hrep (q p) [] _ rfl ?_
  simpa [SortedMap.keys] using hlen

theorem sort_isQueue {settings : Settings} (h : OrdersOk settings last orders) (symbol : String) (sd : Side) (p : ℤ) :
    IsQueue (restingIn orders none symbol sd) p
      (((openSide orders symbol sd).filter fun o => o.price = p).insertionSort fun a b => a.seq ≤ b.seq) := by
  have hperm := perm_insertionSort (fun a b : Order => a.seq ≤ b.seq)
    ((openSide orders symbol sd).filter fun o => o.price = p)
  have hmem : ∀ o, o ∈ ((openSide orders symbol sd).filter fun o => o.price = p) ↔
      restingIn orders none symbol sd o ∧ o.price = p := by
    intro o
    rw [mem_filter, mem_openSide h.key, decide_eq_true_eq]
  refine ⟨fun o => by rw [hperm.mem_iff, hmem], ?_⟩
  have htrans : IsTrans Order fun a b => a.seq ≤ b.seq := ⟨fun _ _ _ h h' => le_trans h h'⟩
  have htotal : Std.Total fun a b : Order => a.seq ≤ b.seq := ⟨fun a b => le_total a.seq b.seq⟩
  have hsorted := pairwise_insertionSort (fun a b : Order => a.seq ≤ b.seq)
    ((openSide orders symbol sd).filter fun o => o.price = p)
  have hnodup : (((openSide orders symbol sd).filter fun o => o.price = p).insertionSort
      fun a b => a.seq ≤ b.seq).Nodup := by
    rw [hperm.nodup_iff]
    refine (Nodup.filter _ ?_)
    refine Nodup.filter _ (Nodup.of_map Order.orderId ?_)
    have hkeys : orders.values.map Order.orderId = orders.keys := by
      simp only [Dict.values, Dict.keys, map_map]
      exact map_congr_left fun e he => h.key e.1 e.2 (Dict.mem_entries.mp he)
    rw [hkeys]
    exact orders.nodup
  refine (hsorted.and hnodup).imp_of_mem ?_
  rintro a b ha hb ⟨hle, hne⟩
  refine lt_of_le_of_ne hle fun e => hne ?_
  have ha' := ((hmem a).mp (hperm.mem_iff.mp ha)).1.1
  have hb' := ((hmem b).mp (hperm.mem_iff.mp hb)).1.1
  have hid := h.seqs _ _ _ _ ha' hb' e
  rw [hid, hb'] at ha'
  exact (Option.some.inj ha').symm

/-- Summing quantities by price over a list of orders. -/
theorem quantities_fold (l : List Order) (levels : SortedMap ℤ ℤ) (p : ℤ) :
    (l.foldl (fun levels o => levels.insert o.price ((levels.get? o.price).getD 0 + o.remaining)) levels).get? p =
      if (l.filter fun o => o.price = p) = [] then levels.get? p
      else some ((levels.get? p).getD 0 + queueQuantity (l.filter fun o => o.price = p)) := by
  induction l generalizing levels with
  | nil => simp
  | cons o l ih =>
    rw [foldl_cons, ih, SortedMap.get?_insert]
    by_cases hp : o.price = p
    · subst hp
      by_cases hl : (l.filter fun x => x.price = o.price) = []
      · simp [hl, queueQuantity]
      · simp [hl, queueQuantity, add_assoc]
    · simp [hp, Ne.symm hp]

theorem BookSide.Represents.quantities_eq {sd : Side} {q : Queues} (hrep : value.Represents sd q)
    {settings : Settings} (h : OrdersOk settings last orders)
    (hl : ∀ p, IsQueue (restingIn orders none symbol sd) p (q p)) :
    value.quantities = naiveQuantities orders symbol sd := by
  refine SortedMap.ext_get? fun p => ?_
  have hq : q p = _ := (hl p).unique (sort_isQueue h symbol sd p)
  have hperm : (q p).Perm ((openSide orders symbol sd).filter fun o => o.price = p) := hq ▸ perm_insertionSort _ _
  rw [BookSide.quantities, SortedMap.get?_mapVal, hrep.level, naiveQuantities, quantities_fold]
  by_cases hnil : q p = []
  · have : ((openSide orders symbol sd).filter fun o => o.price = p) = [] := nil_perm.mp (hnil ▸ hperm)
    simp [hnil, this]
  · have : ((openSide orders symbol sd).filter fun o => o.price = p) ≠ [] := fun e => hnil (perm_nil.mp (e ▸ hperm))
    rw [levelOf_of_ne_nil hnil, if_neg this]
    simp only [Option.map_some, SortedMap.get?_empty, Option.getD_none, zero_add, queueQuantity]
    rw [(hperm.map Order.remaining).sum_eq]

/-- The index of a symbol shows the naive book: quantities by price, and every queue in order. -/
structure ShowsNaive (s : State) (symbol : String) : Prop where
  levels : s.bookIndex.levels symbol = .ok (naiveBook s.orders symbol)
  queue : ∀ book, s.bookIndex.get? symbol = some book → ∀ sd p, (book.get sd).queue p = naiveQueue s.orders symbol sd p

theorem Inv.showsNaive {s : State} (h : Inv none last s) (hs : symbol ∈ s.settings.symbols) : ShowsNaive s symbol := by
  obtain ⟨book, hb⟩ := (h.index.books symbol).mpr hs
  obtain ⟨qb, hqb, hlb⟩ := h.index.side symbol book hb .BUY
  obtain ⟨qs, hqs, hls⟩ := h.index.side symbol book hb .SELL
  refine ⟨?_, ?_⟩
  · have h1 : book.buy.quantities = _ := hqb.quantities_eq h.orders hlb
    have h2 : book.sell.quantities = _ := hqs.quantities_eq h.orders hls
    simp [BookIndex.levels, SortedMap.getItem_of_get? hb, h1, h2, naiveBook]
  · intro book' hb' sd p
    obtain rfl : book = book' := Option.some.inj (hb.symm.trans hb')
    obtain ⟨q, hq, hl⟩ := h.index.side symbol book hb sd
    rw [hq.queue_eq, (hl p).unique (sort_isQueue h.orders symbol sd p), naiveQueue]

/-- The orders a new order is matched against: those of other days are expired. -/
def expiredOrders (s : State) (stamp : ℤ) : Dict String Order :=
  s.orders.mapVal (Order.expireAt (Calendar.isoDate stamp.toNat))

/-- The same orders with the new one entered. -/
def enteredOrders (s : State) (b : NewOrder) (owner : String) (seq stamp : ℤ) : Dict String Order :=
  (expiredOrders s stamp).set b.orderId (b.toOrder owner seq stamp (Calendar.isoDate stamp.toNat))

/-- A new order in any reachable state: refused, it leaves the orders alone; accepted, orders and
trades are those of the naive matcher, given fuel for every order. The book shows the orders either
way. -/
theorem matching_follows_price_time_priority {opening command : Json} {commands : List Json}
    {s0 s s' : State} {c : Command} {b : NewOrder}
    (hg : reduceCommand none opening = .ok s0) (hr : runCommands s0 commands = .ok s)
    (hstep : reduceCommand (some s) command = .ok s') (hc : readCommand command = .ok c)
    (hb : validate c.body c.kind = .ok (.new b)) :
    (∃ r, s'.results.get? (toString c.seq) = some r ∧
      if r.accepted then
        r.status = (s'.orders.get? b.orderId).map Order.status ∧
        ∀ fuel, (enteredOrders s b c.owner c.seq c.timestamp).entries.length < fuel →
          naiveMatch c.seq c.timestamp b.orderId fuel
            (enteredOrders s b c.owner c.seq c.timestamp) s.trades 0 = (s'.orders, s'.trades)
      else s'.orders = expiredOrders s c.timestamp ∧ s'.trades = s.trades) ∧
    ∀ symbol ∈ s.settings.symbols, ShowsNaive s' symbol := by
  obtain ⟨st, hst, rfl⟩ := reduceCommand_genesis hg
  have hinv := runCommands_inv (genesis_inv hst) hr
  obtain ⟨c', b', hc', hacc, hrun⟩ := reduceCommand_eq_ok hstep
  obtain rfl : c' = c := Except.ok.inj (hc'.symm.trans hc)
  obtain rfl : b' = .new b := Except.ok.inj (hacc.body.symm.trans hb)
  obtain ⟨s1, s'', hrun', hinv', -, -, ⟨bookIndex, accounts, rfl⟩, hhandled, hset, -⟩ := runBody_returns hinv hacc
  obtain rfl : s'' = s' := Except.ok.inj (hrun'.symm.trans hrun)
  refine ⟨?_, fun symbol hs => hinv'.inv.showsNaive (hset ▸ hs)⟩
  cases hhandled with
  | new done =>
      cases done with
      | rejected reason =>
          refine ⟨_, SortedMap.get?_insert_self _ _ _, ?_⟩
          rw [if_neg (by simp)]
          exact ⟨rfl, rfl⟩
      | @executed accounts' s1 bookIndex' order admitted run loop done =>
          refine ⟨_, SortedMap.get?_insert_self _ _ _, ?_⟩
          rw [if_pos rfl]
          refine ⟨?_, fun fuel hfuel => ?_⟩
          · simp only [accept, record, done, Option.map_some]
          · refine run.naive fuel ?_
            exact lt_of_le_of_lt (activeMark_sum_le _) (by exact_mod_cast hfuel)

/-- Asks at two prices, the better one later. -/
def sampleAsks : List OrderCommand :=
  [sampleOrder 2 100000 "bob" "s1" .SELL 101 5, sampleOrder 3 100001 "bob" "s2" .SELL 100 5]

/-- A buy order that takes the better ask and part of the other. -/
def sampleTaker : OrderCommand := sampleOrder 4 100002 "alice" "b1" .BUY 102 8

theorem matching_follows_price_time_priority_sample : ∃ s s',
    applyAll (genesis sampleSettings) sampleAsks = .ok s ∧ sampleTaker.apply s = .ok s' ∧
    (s'.trades.map fun t => (t.sellOrder, t.quantity)) = [("s2", 5), ("s1", 3)] ∧
    ShowsNaive s' "ACME" := by
  have hrun : (do
      let s ← applyAll (genesis sampleSettings) sampleAsks
      let s' ← sampleTaker.apply s
      pure (s.settings.symbols, s'.trades.map fun t => (t.sellOrder, t.quantity)))
        = (.ok (["ACME"], [("s2", 5), ("s1", 3)]) : Py (List String × List (String × ℤ))) := by
    decide +kernel
  obtain ⟨s, hs, hrun⟩ := of_bind hrun
  obtain ⟨s', hs', hrun⟩ := of_bind hrun
  obtain ⟨hsym, htrades⟩ := Prod.mk.inj (Except.ok.inj hrun)
  obtain ⟨h0, h1⟩ := sample_run (by decide) hs
  have hv : sampleTaker.Valid := valid_of_sampleOrderOk (by decide)
  have hstep := (reduceCommand_toJson hv s).trans hs'
  have hc : readCommand sampleTaker.toJson = .ok ⟨4, 100002, "alice", .str "new", sampleTaker.body.toJson⟩ := rfl
  have hbody := validate_toJson hv.body
  obtain ⟨-, hshows⟩ := matching_follows_price_time_priority h0 h1 hstep hc hbody
  exact ⟨s, s', hs, hs', htrades, hshows "ACME" (by rw [hsym]; decide)⟩

end SystemDesign.StockExchange
