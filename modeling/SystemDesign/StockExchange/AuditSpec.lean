import SystemDesign.StockExchange.Commands

/-!
The audit finds nothing to report on a state that has the invariant.
-/

namespace SystemDesign.StockExchange

open List hiding not_le not_lt

variable {s : State} {last : ℤ}

/-! ### Supplies -/

theorem forM_ok {α : Type} {f : α → Py Unit} {l : List α} (h : ∀ a ∈ l, f a = .ok ()) : l.forM f = .ok () := by
  induction l with
  | nil => rfl
  | cons a l ih =>
    show (f a >>= fun _ => l.forM f) = .ok ()
    rw [h a (by simp)]
    exact ih fun b hb => h b (by simp [hb])

variable {keys : List String}

/-- One key of a list of distinct keys contributes. -/
theorem sum_single (hn : keys.Nodup) {z : String} (hz : z ∈ keys) (n : ℤ) :
    (keys.map fun k => if z = k then n else 0).sum = n := by
  induction keys with
  | nil => cases hz
  | cons k keys ih =>
    rw [nodup_cons] at hn
    rw [map_cons, sum_cons]
    by_cases hzk : z = k
    · subst hzk
      have : (keys.map fun k => if z = k then n else 0).sum = 0 :=
        sum_eq_zero fun a ha => by
          obtain ⟨k, hk, rfl⟩ := mem_map.mp ha
          exact if_neg fun e : z = k => hn.1 (e ▸ hk)
      rw [if_pos rfl, this, add_zero]
    · rw [if_neg hzk, ih hn.2 ((mem_cons.mp hz).resolve_left hzk), zero_add]

theorem transfer_sum (hn : keys.Nodup) {x y : String} (hx : x ∈ keys) (hy : y ∈ keys) (n : ℤ) :
    (keys.map fun k => (if x = k then n else 0) - (if y = k then n else 0)).sum = 0 := by
  have hneg : ∀ k, (if x = k then n else 0) - (if y = k then n else 0)
      = (if x = k then n else 0) + (if y = k then -n else 0) := by
    intro k
    split_ifs <;> ring
  simp only [hneg]
  rw [sum_map_add, sum_single hn hx, sum_single hn hy, add_neg_cancel]

theorem cashFlow_sum (hn : keys.Nodup) {trades : List Trade} (h : ∀ t ∈ trades, t.buyer ∈ keys ∧ t.seller ∈ keys) :
    (keys.map (cashFlow trades)).sum = 0 := by
  induction trades with
  | nil =>
    refine sum_eq_zero fun x hx => ?_
    obtain ⟨k, -, rfl⟩ := mem_map.mp hx
    rfl
  | cons t trades ih =>
    have hcons : ∀ k, cashFlow (t :: trades) k = ((if t.seller = k then t.quantity * t.price else 0) -
        (if t.buyer = k then t.quantity * t.price else 0)) + cashFlow trades k := fun k => by
      simp [cashFlow]
    rw [map_congr_left fun k _ => hcons k, sum_map_add, transfer_sum hn (h t (by simp)).2 (h t (by simp)).1,
      ih fun t' ht' => h t' (by simp [ht']), add_zero]

theorem shareFlow_sum (hn : keys.Nodup) {trades : List Trade} (h : ∀ t ∈ trades, t.buyer ∈ keys ∧ t.seller ∈ keys)
    (symbol : String) : (keys.map fun k => shareFlow trades k symbol).sum = 0 := by
  induction trades with
  | nil => simp [shareFlow]
  | cons t trades ih =>
    have hcons : ∀ k, shareFlow (t :: trades) k symbol = ((if t.buyer = k then
        (if t.symbol = symbol then t.quantity else 0) else 0) - (if t.seller = k then
        (if t.symbol = symbol then t.quantity else 0) else 0)) + shareFlow trades k symbol := by
      intro k
      by_cases hs : t.symbol = symbol <;> simp [shareFlow, hs]
    simp only [hcons]
    rw [sum_map_add, transfer_sum hn (h t (by simp)).1 (h t (by simp)).2,
      ih fun t' ht' => h t' (by simp [ht']), add_zero]

variable {taker : Option String}

/-- The accounts are those the settings opened. -/
theorem Inv.accounts_keys (h : Inv taker last s) : s.accounts.keys = s.settings.accounts.keys := by
  refine SortedMap.keys_eq_of_get? fun owner => ⟨?_, ?_⟩
  · rintro ⟨a, ha⟩; exact h.funds.opened_of_account ha
  · rintro ⟨opening, ho⟩
    obtain ⟨a, ha, -⟩ := h.funds.opened owner opening ho
    exact ⟨a, ha⟩

/-- The parties of a trade have accounts. -/
theorem Inv.trade_parties (h : Inv taker last s) {t : Trade} (ht : t ∈ s.trades) : t.buyer ∈ s.settings.accounts.keys ∧
      t.seller ∈ s.settings.accounts.keys := by
  obtain ⟨bid, hbid, hb, -⟩ := (h.trades.trade t ht).bid.order
  obtain ⟨ask, hask, ha, -⟩ := (h.trades.trade t ht).ask.order
  rw [SortedMap.mem_keys, SortedMap.mem_keys, ← hb, ← ha]
  exact ⟨(h.orders.valid _ _ hbid).owner, (h.orders.valid _ _ hask).owner⟩

theorem balanceOf_total (opening flow reserve : ℤ) : (balanceOf opening flow reserve).total = opening + flow := by
  simp [balanceOf, Balance.total]

theorem Inv.cash_supply (h : Inv taker last s) :
    s.accounts.sum (fun a => a.cash.total) = s.settings.accounts.sum Opening.cash := by
  have hterm : ∀ k ∈ s.settings.accounts.keys, ((s.accounts.get? k).map fun a => a.cash.total).getD 0 =
        ((s.settings.accounts.get? k).map Opening.cash).getD 0 + cashFlow s.trades k := by
    intro k hk
    obtain ⟨opening, ho⟩ := SortedMap.mem_keys.mp hk
    obtain ⟨a, ha, hok⟩ := h.funds.opened k opening ho
    rw [ha, ho, Option.map_some, Option.map_some, Option.getD_some, Option.getD_some, hok.cash,
      cashBalance, balanceOf_total]
  rw [SortedMap.sum_eq_keys, SortedMap.sum_eq_keys, h.accounts_keys, map_congr_left hterm, sum_map_add,
    cashFlow_sum (SortedMap.keys_nodup _) fun t ht => h.trade_parties ht, add_zero]

variable {symbol : String}

theorem Inv.share_supply (h : Inv taker last s) (hs : symbol ∈ s.settings.symbols) :
    shareSupply s symbol = .ok (openingShares s symbol) := by
  have hpos : ∀ a ∈ s.accounts.values, a.positions.getItem symbol = .ok ((a.positions.get? symbol).getD 0) := by
    intro a ha
    obtain ⟨owner, hget⟩ := SortedMap.mem_values.mp ha
    obtain ⟨opening, ho⟩ := h.funds.opened_of_account hget
    obtain ⟨a', ha', hok⟩ := h.funds.opened owner opening ho
    obtain rfl : a' = a := Option.some.inj (ha'.symm.trans hget)
    have := hok.position symbol
    rw [if_pos hs] at this
    rw [SortedMap.getItem_of_get? this, this, Option.getD_some]
  have hterm : ∀ k ∈ s.settings.accounts.keys,
      ((s.accounts.get? k).map fun a => ((a.positions.get? symbol).getD 0).total).getD 0 =
        ((s.settings.accounts.get? k).map fun v => (v.positions.get? symbol).getD 0).getD 0 +
          shareFlow s.trades k symbol := by
    intro k hk
    obtain ⟨opening, ho⟩ := SortedMap.mem_keys.mp hk
    obtain ⟨a, ha, hok⟩ := h.funds.opened k opening ho
    rw [ha, ho, Option.map_some, Option.map_some, Option.getD_some, Option.getD_some,
      hok.position, if_pos hs, Option.getD_some, shareBalance, balanceOf_total]
  have hsum : s.accounts.sum (fun a => ((a.positions.get? symbol).getD 0).total) = openingShares s symbol := by
    rw [openingShares, SortedMap.sum_eq_keys, SortedMap.sum_eq_keys, h.accounts_keys, map_congr_left hterm, sum_map_add,
      shareFlow_sum (SortedMap.keys_nodup _) (fun t ht => h.trade_parties ht) symbol, add_zero]
  simp only [shareSupply, mapM_ok hpos, Py.bind_ok, Py.pure_eq, map_map]
  exact congrArg Except.ok hsum

/-! ### Reservations, numbering and quantities -/

theorem Inv.reserve_nonneg (h : Inv taker last s) (owner symbol : String) :
    0 ≤ s.orders.sum (cashReserve owner) ∧ 0 ≤ s.orders.sum (shareReserve owner symbol) := by
  have hv : ∀ o ∈ s.orders.values, 0 ≤ o.remaining ∧ 0 ≤ o.price := by
    intro o ho
    obtain ⟨id, hget⟩ := Dict.mem_values.mp ho
    have hval := h.orders.valid id o hget
    exact ⟨hval.remaining, by have := hval.price; omega⟩
  constructor
  · refine Dict.sum_nonneg fun o ho => ?_
    simp only [cashReserve]
    split_ifs
    · exact mul_nonneg (hv o ho).1 (hv o ho).2
    · exact le_rfl
  · refine Dict.sum_nonneg fun o ho => ?_
    simp only [shareReserve]
    split_ifs
    · exact (hv o ho).1
    · exact le_rfl

theorem Inv.reservations (h : Inv taker last s) {owner : String} {a : Account} (ha : s.accounts.get? owner = some a) :
    reservationErrors s owner a = [] := by
  obtain ⟨opening, ho⟩ := h.funds.opened_of_account ha
  obtain ⟨a', ha', hok⟩ := h.funds.opened owner opening ho
  obtain rfl : a' = a := Option.some.inj (ha'.symm.trans ha)
  have hheld : a'.cash.held = reservedCash s owner := by
    rw [reservedCash_eq, hok.cash]; rfl
  have hcash : ¬ min a'.cash.available a'.cash.held < 0 := by
    have h1 : 0 ≤ a'.cash.available := by rw [hok.cash]; exact hok.cashNonneg
    have h2 : 0 ≤ a'.cash.held := by rw [hheld, reservedCash_eq]; exact (h.reserve_nonneg owner "").1
    exact not_lt.mpr (le_min h1 h2)
  have hshares : ∀ p ∈ a'.positions.entries,
      ¬ (min p.2.available p.2.held < 0 ∨ p.2.held ≠ reservedShares s owner p.1) := by
    intro p hp
    have hget := SortedMap.mem_entries.mp (show (p.1, p.2) ∈ a'.positions.entries from hp)
    rw [hok.position] at hget
    split_ifs at hget with hs
    have hb := Option.some.inj hget
    have h1 : 0 ≤ p.2.available := by rw [← hb]; exact hok.shareNonneg p.1 hs
    have h2 : p.2.held = reservedShares s owner p.1 := by
      rw [reservedShares_eq, ← hb]; rfl
    have h3 : 0 ≤ p.2.held := by
      rw [h2, reservedShares_eq]; exact (h.reserve_nonneg owner p.1).2
    push Not
    exact ⟨le_min h1 h3, h2⟩
  simp only [reservationErrors, hheld, ne_eq, not_true, if_false, hheld ▸ hcash, nil_append, append_nil]
  refine flatMap_eq_nil_iff.mpr fun p hp => ?_
  exact if_neg (hshares p hp)

theorem Inv.sequence (h : Inv taker last s) : sequenceMatches s = true := by
  simp [sequenceMatches, h.trades.executionSeq, h.trades.numbered]

theorem Inv.fills (h : Inv taker last s) : s.orders.values.flatMap fillErrors = [] := by
  refine flatMap_eq_nil_iff.mpr fun o ho => ?_
  obtain ⟨id, hget⟩ := Dict.mem_values.mp ho
  have hv := h.orders.valid id o hget
  have h1 := hv.filled
  have h2 := hv.remaining
  exact if_neg (by rw [hv.total]; simp [h1, h2])

/-! ### Executions -/

theorem Inv.checkTrade {taker : Option String} (h : Inv taker last s) {t : Trade}
    (ht : t ∈ s.trades) : checkTrade s t = .ok () := by
  have hok := h.trades.trade t ht
  obtain ⟨bid, hbid, hb1, hb2, hb3, hb4⟩ := hok.bid.order
  obtain ⟨ask, hask, ha1, ha2, ha3, ha4⟩ := hok.ask.order
  obtain ⟨hbuyer, hseller⟩ := h.trade_parties ht
  rw [← h.accounts_keys, SortedMap.mem_keys] at hbuyer hseller
  obtain ⟨x, hx⟩ := hbuyer
  obtain ⟨y, hy⟩ := hseller
  simp only [Side.sign] at hb4 ha4
  have hlimits : ask.price ≤ t.price ∧ t.price ≤ bid.price := by omega
  have hsym := hok.symbol
  simp [StockExchange.checkTrade, Dict.getItem_of_get? hbid, Dict.getItem_of_get? hask, hok.parties,
    hb1, hb2, hb3, ha1, ha2, ha3, hlimits, SortedMap.getItem_of_get? hx,
    SortedMap.getItem_of_get? hy, hsym]

theorem Inv.checkFlows {taker : Option String} (h : Inv taker last s) {owner : String}
    {a : Account} (ha : s.accounts.get? owner = some a) : checkFlows s (owner, a) = .ok () := by
  obtain ⟨opening, ho⟩ := h.funds.opened_of_account ha
  obtain ⟨a', ha', hok⟩ := h.funds.opened owner opening ho
  obtain rfl : a' = a := Option.some.inj (ha'.symm.trans ha)
  have hcash : a'.cash.total = opening.cash + cashFlow s.trades owner := by
    rw [hok.cash, cashBalance, balanceOf_total]
  have hshares : ∀ p ∈ a'.positions.entries,
      p.2.total = (opening.positions.get? p.1).getD 0 + shareFlow s.trades owner p.1 := by
    intro p hp
    have hget := SortedMap.mem_entries.mp (show (p.1, p.2) ∈ a'.positions.entries from hp)
    rw [hok.position] at hget
    split_ifs at hget
    rw [← Option.some.inj hget, shareBalance, balanceOf_total]
  simp only [StockExchange.checkFlows, SortedMap.getItem_of_get? ho, Py.bind_ok, hcash, ne_eq, not_true, if_false]
  rw [if_neg (not_not.mpr hshares)]
  rfl

theorem Inv.executions (h : Inv taker last s) : auditExecutions s = .ok () := by
  have h1 : s.trades.forM (StockExchange.checkTrade s) = .ok () := forM_ok fun t ht => h.checkTrade ht
  have h2 : s.accounts.entries.forM (StockExchange.checkFlows s) = .ok () :=
    forM_ok fun p hp => h.checkFlows (SortedMap.mem_entries.mp hp)
  have h3 : ∀ p ∈ s.orders.entries, p.2.filled = filledOf s.trades p.1 := fun p hp =>
    h.trades.filled p.1 p.2 (Dict.mem_entries.mp hp)
  simp only [auditExecutions, h1, h2, Py.bind_ok]
  rw [if_neg (not_not.mpr h3)]
  rfl

/-! ### The index -/

variable {value : BookSide} {q : Queues} {sd : Side}

theorem heapMatches_of_represents (h : value.Represents sd q) : heapMatches value sd = true := by
  simp only [heapMatches, Bool.and_eq_true, all_eq_true, mem_range, Bool.or_eq_true, decide_eq_true_eq]
  refine ⟨fun i hi => ?_, fun p hp => ?_⟩
  · rcases Nat.eq_zero_or_pos i with hz | hz
    · exact .inl hz
    · exact .inr (h.heap 0 i hz hi (Nat.zero_le _))
  · obtain ⟨level, hlevel⟩ := SortedMap.mem_keys.mp hp
    refine h.live p fun hnil => ?_
    rw [h.level, hnil, levelOf_nil] at hlevel
    cases hlevel

/-- Walking the rest `l` of a queue from the place behind `a` visits it in order. -/
theorem walkLevel_spec (hrep : value.Represents sd q) {p : ℤ}
    (hl : IsQueue (restingIn s.orders none symbol sd) p (q p)) :
    ∀ (l a : List Order) (fuel : ℕ) (w : Walk), q p = a ++ l → l.length ≤ fuel →
      (∀ o ∈ l, o.orderId ∉ w.visited) → w.previous = lastId a →
      (∀ o ∈ l, w.lastSeq < o.seq) →
      ∃ w', walkLevel s value symbol sd p fuel (firstId l) w = .ok w' ∧
        (∀ id, id ∈ w'.visited ↔ id ∈ w.visited ∨ ∃ o ∈ l, o.orderId = id) ∧
        w'.previous = lastId (a ++ l) ∧ w'.quantity = w.quantity + queueQuantity l := by
  intro l
  induction l with
  | nil =>
    intro a fuel w _ _ _ hprev _
    exact ⟨w, by cases fuel <;> rfl, by simp, by simpa using hprev, by simp [queueQuantity]⟩
  | cons o l ih =>
    intro a fuel w hq hfuel hvis hprev hseq
    obtain ⟨fuel, rfl⟩ := Nat.exists_eq_succ_of_ne_zero (by
      simp only [length_cons] at hfuel; omega : fuel ≠ 0)
    obtain ⟨⟨ho, hact, -, hsym, hside⟩, hprice⟩ := (hl.mem o).mp (by rw [hq]; simp)
    have hactive : activeOrder s o.orderId = some o := by
      simp [activeOrder, ho, Option.filter, hact]
    have hnode := hrep.node p a o l hq
    have hqs := hl.sorted
    rw [hq, pairwise_append, pairwise_cons] at hqs
    have hids := hrep.nodup p
    rw [hq, map_append, map_cons, nodup_append, nodup_cons] at hids
    obtain ⟨w', hw, hvisited, hprevious, hquantity⟩ := ih (a ++ [o]) fuel
      ⟨o.orderId :: w.visited, some o.orderId, w.quantity + o.remaining, o.seq⟩
      (by rw [hq]; simp) (by simpa using hfuel)
      (fun x hx => by
        rw [mem_cons, not_or]
        exact ⟨fun e => hids.2.1.1 (e ▸ mem_map_of_mem hx), hvis x (by simp [hx])⟩)
      (by simp) (fun x hx => hqs.2.1.1 x hx)
    refine ⟨w', ?_, ?_, by rw [hprevious]; simp, ?_⟩
    · rw [firstId_cons, walkLevel]
      simp only [hvis o (by simp), if_false, hactive, SortedMap.getItem_of_get? hnode, Py.bind_ok, nodeOf]
      rw [if_neg]
      · exact hw
      · have := hseq o (by simp)
        simp only [hprev, hsym, hside, hprice, ne_eq, not_true, false_or, not_le]
        exact this
    · intro id
      rw [hvisited id]
      simp only [mem_cons, exists_eq_or_imp]
      constructor
      · rintro ((rfl | h) | h)
        · exact .inr (.inl rfl)
        · exact .inl h
        · exact .inr (.inr h)
      · rintro (h | rfl | h)
        · exact .inl (.inr h)
        · exact .inl (.inl rfl)
        · exact .inr h
    · rw [hquantity]
      simp only [queueQuantity, map_cons, sum_cons]
      ring

theorem queue_length_le {p : ℤ} {l : List Order} (hl : IsQueue (restingIn s.orders none symbol sd) p l)
    (hn : (l.map Order.orderId).Nodup) : l.length ≤ s.orders.entries.length := by
  have hsub : l.map Order.orderId ⊆ s.orders.keys := by
    intro id hid
    obtain ⟨o, ho, rfl⟩ := mem_map.mp hid
    exact Dict.mem_keys.mpr ⟨o, ((hl.mem o).mp ho).1.1⟩
  have := hn.length_le_of_subset hsub
  simpa [Dict.keys] using this

theorem auditLevel_spec (h : Inv none last s) (hrep : value.Represents sd q)
    (hl : ∀ p, IsQueue (restingIn s.orders none symbol sd) p (q p)) {visited : List String} {entry : ℤ × Level}
    (hentry : value.levels.get? entry.1 = some entry.2) (hvis : ∀ o ∈ q entry.1, o.orderId ∉ visited) :
    ∃ visited', auditLevel s value symbol sd visited entry = .ok visited' ∧
      ∀ id, id ∈ visited' ↔ id ∈ visited ∨ ∃ o ∈ q entry.1, o.orderId = id := by
  have hne : q entry.1 ≠ [] := fun e => by rw [hrep.level, e] at hentry; cases hentry
  rw [hrep.level, levelOf_of_ne_nil hne] at hentry
  have hlevel := Option.some.inj hentry
  have hval : ∀ o ∈ q entry.1, o.Valid s.settings last ∧ o.active = true := fun o ho =>
    ⟨h.orders.valid _ _ (((hl _).mem o).mp ho).1.1, (((hl _).mem o).mp ho).1.2.1⟩
  obtain ⟨w, hw, hvisited, hprevious, hquantity⟩ := walkLevel_spec hrep (hl entry.1) (q entry.1) []
    s.orders.entries.length ⟨visited, none, 0, 0⟩ rfl (queue_length_le (hl _) (hrep.nodup _)) hvis
    rfl (fun o ho => by have := (hval o ho).1.seq; simp only; omega)
  have hposq : 0 < queueQuantity (q entry.1) := by
    obtain ⟨o, b, hob⟩ := exists_cons_of_ne_nil hne
    have hfirst := (hval o (by simp [hob])).1.status.remaining_pos (hval o (by simp [hob])).2
    have hrest : 0 ≤ (b.map Order.remaining).sum := List.sum_nonneg fun x hx => by
      obtain ⟨y, hy, rfl⟩ := mem_map.mp hx
      exact (hval y (by simp [hob, hy])).1.remaining
    rw [hob, queueQuantity, map_cons, sum_cons]
    omega
  refine ⟨w.visited, ?_, hvisited⟩
  simp only [auditLevel, ← hlevel, hw, Py.bind_ok]
  rw [if_neg]
  · rfl
  · rw [hprevious, hquantity]
    simp only [nil_append, ne_eq, not_true, zero_add, false_or, not_le]
    exact hposq

/-- The loop over the levels visits the queues of the levels listed. -/
theorem auditLevels_spec (h : Inv none last s) (hrep : value.Represents sd q)
    (hl : ∀ p, IsQueue (restingIn s.orders none symbol sd) p (q p)) :
    ∀ (entries : List (ℤ × Level)) (visited : List String), (entries.map Prod.fst).Nodup →
      (∀ e ∈ entries, value.levels.get? e.1 = some e.2) →
      (∀ e ∈ entries, ∀ o ∈ q e.1, o.orderId ∉ visited) →
      ∃ visited', entries.foldlM (auditLevel s value symbol sd) visited = .ok visited' ∧
        ∀ id, id ∈ visited' ↔ id ∈ visited ∨ ∃ e ∈ entries, ∃ o ∈ q e.1, o.orderId = id := by
  intro entries
  induction entries with
  | nil => exact fun visited _ _ _ => ⟨visited, rfl, by simp⟩
  | cons e entries ih =>
    intro visited hn hget hvis
    rw [map_cons, nodup_cons] at hn
    obtain ⟨visited1, h1, hv1⟩ := auditLevel_spec h hrep hl (hget e (by simp)) (hvis e (by simp))
    obtain ⟨visited2, h2, hv2⟩ := ih visited1 hn.2 (fun e' he' => hget e' (by simp [he'])) (by
      intro e' he' o ho hmem
      rcases (hv1 o.orderId).mp hmem with hmem | ⟨o', ho', hid⟩
      · exact hvis e' (by simp [he']) o ho hmem
      · -- the same id at two prices
        have := hrep.price_eq ho ho' hid.symm
        exact hn.1 (this ▸ mem_map_of_mem he'))
    refine ⟨visited2, by rw [foldlM_cons, h1]; exact h2, fun id => ?_⟩
    rw [hv2, hv1]
    simp only [mem_cons, exists_eq_or_imp]
    rw [or_assoc]

theorem auditSide_spec (h : Inv none last s) (hrep : value.Represents sd q)
    (hl : ∀ p, IsQueue (restingIn s.orders none symbol sd) p (q p)) :
    ∃ visited, auditSide s symbol value sd = .ok visited ∧
      ∀ id, id ∈ visited ↔ ∃ o, restingIn s.orders none symbol sd o ∧ o.orderId = id := by
  obtain ⟨visited, hrun, hvis⟩ := auditLevels_spec h hrep hl value.levels.entries []
    value.levels.nodup (fun e he => SortedMap.mem_entries.mp he) (by simp)
  have hqueued : ∀ id, id ∈ visited ↔ ∃ p, ∃ o ∈ q p, o.orderId = id := by
    intro id
    rw [hvis id]
    constructor
    · rintro (hid | ⟨e, -, o, ho, hid⟩)
      · cases hid
      · exact ⟨e.1, o, ho, hid⟩
    · rintro ⟨p, o, ho, hid⟩
      have hlevel := hrep.level p
      rw [levelOf_of_ne_nil (ne_nil_of_mem ho)] at hlevel
      exact .inr ⟨(p, _), SortedMap.mem_entries.mpr hlevel, o, ho, hid⟩
  have hnodes : (∀ id ∈ visited, id ∈ value.nodes.keys) ∧ ∀ id ∈ value.nodes.keys, id ∈ visited := by
    constructor
    · intro id hid
      obtain ⟨p, o, ho, rfl⟩ := (hqueued id).mp hid
      obtain ⟨a, b, -, hn⟩ := hrep.node_of_mem ho
      exact SortedMap.mem_keys.mpr ⟨_, hn⟩
    · intro id hid
      obtain ⟨nd, hnd⟩ := SortedMap.mem_keys.mp hid
      obtain ⟨o, ho, hid⟩ := hrep.indexed id nd hnd
      exact (hqueued id).mpr ⟨_, o, ho, hid⟩
  refine ⟨visited, ?_, fun id => ?_⟩
  · simp only [auditSide, heapMatches_of_represents hrep, not_true, if_false, hrun, Py.bind_ok]
    rw [if_neg (not_not.mpr hnodes)]
    rfl
  · rw [hqueued]
    constructor
    · rintro ⟨p, o, ho, hid⟩
      exact ⟨o, (((hl p).mem o).mp ho).1, hid⟩
    · rintro ⟨o, ho, hid⟩
      exact ⟨o.price, o, ((hl o.price).mem o).mpr ⟨ho, rfl⟩, hid⟩

theorem auditBook_spec (h : Inv none last s) {book : Book} (hb : s.bookIndex.get? symbol = some book) :
    ∃ visited, auditBook s (symbol, book) = .ok visited ∧
      ∀ id, id ∈ visited ↔ ∃ sd o, restingIn s.orders none symbol sd o ∧ o.orderId = id := by
  obtain ⟨qb, hqb, hlb⟩ := h.index.side symbol book hb .BUY
  obtain ⟨qs, hqs, hls⟩ := h.index.side symbol book hb .SELL
  obtain ⟨buy, hbuy, hvb⟩ := auditSide_spec h hqb hlb
  obtain ⟨sell, hsell, hvs⟩ := auditSide_spec h hqs hls
  refine ⟨buy ++ sell, ?_, fun id => ?_⟩
  · have hbuy' : auditSide s symbol book.buy .BUY = .ok buy := hbuy
    have hsell' : auditSide s symbol book.sell .SELL = .ok sell := hsell
    simp only [auditBook, hbuy', hsell', Py.bind_ok, Py.pure_eq]
  · rw [mem_append, hvb, hvs]
    constructor
    · rintro (⟨o, ho⟩ | ⟨o, ho⟩)
      · exact ⟨.BUY, o, ho⟩
      · exact ⟨.SELL, o, ho⟩
    · rintro ⟨sd, o, ho⟩
      cases sd
      · exact .inl ⟨o, ho⟩
      · exact .inr ⟨o, ho⟩

theorem Inv.auditIndex (h : Inv none last s) : auditIndex s = .ok () := by
  obtain ⟨visitedOf, hvisited⟩ : ∃ f : String × Book → List String,
      ∀ e ∈ s.bookIndex.entries, auditBook s e = .ok (f e) ∧
        ∀ id, id ∈ f e ↔ ∃ sd o, restingIn s.orders none e.1 sd o ∧ o.orderId = id := by
    choose! f hf using fun (e : String × Book) (he : e ∈ s.bookIndex.entries) =>
      auditBook_spec h (SortedMap.mem_entries.mp (show (e.1, e.2) ∈ s.bookIndex.entries from he))
    exact ⟨f, hf⟩
  have hids : ∀ id, id ∈ (s.bookIndex.entries.map visitedOf).flatten ↔
      ∃ symbol sd o, restingIn s.orders none symbol sd o ∧ o.orderId = id := by
    intro id
    simp only [mem_flatten, mem_map, exists_exists_and_eq_and]
    constructor
    · rintro ⟨e, he, hid⟩
      exact ⟨e.1, ((hvisited e he).2 id).mp hid⟩
    · rintro ⟨symbol, sd, o, ho, hid⟩
      have hsym : symbol ∈ s.settings.symbols := ho.2.2.2.1 ▸ (h.orders.valid _ _ ho.1).symbol
      obtain ⟨book, hbook⟩ := (h.index.books symbol).mpr hsym
      have hmem := SortedMap.mem_entries.mpr hbook
      exact ⟨(symbol, book), hmem, ((hvisited _ hmem).2 id).mpr ⟨sd, o, ho, hid⟩⟩
  have hall : (∀ id ∈ (s.bookIndex.entries.map visitedOf).flatten, (activeOrder s id).isSome = true) ∧
      ∀ p ∈ s.orders.entries, p.2.active = true → p.1 ∈ (s.bookIndex.entries.map visitedOf).flatten := by
    constructor
    · intro id hid
      obtain ⟨symbol, sd, o, ho, rfl⟩ := (hids id).mp hid
      simp [activeOrder, ho.1, Option.filter, ho.2.1]
    · intro p hp hact
      have hget := Dict.mem_entries.mp (show (p.1, p.2) ∈ s.orders.entries from hp)
      have hkey := h.orders.key _ _ hget
      exact (hids p.1).mpr ⟨p.2.symbol, p.2.side, p.2, ⟨by rw [hkey]; exact hget, hact, by simp, rfl, rfl⟩, hkey⟩
  simp only [StockExchange.auditIndex, mapM_ok fun e he => (hvisited e he).1, Py.bind_ok]
  rw [if_neg (not_not.mpr hall)]
  rfl

/-! ### The report -/

theorem Inv.audit (h : Inv none last s) : ∃ r, audit s = .ok r ∧ r.matches = true := by
  have hshares : s.settings.symbols.mapM (fun symbol => do
      return (symbol, ← shareSupply s symbol)) =
      Except.ok (s.settings.symbols.map fun symbol => (symbol, openingShares s symbol)) :=
    mapM_ok fun symbol hs => by rw [h.share_supply hs]; rfl
  have hsupply : ((s.settings.symbols.map fun symbol => (symbol, openingShares s symbol)).flatMap
      fun p => if p.2 ≠ openingShares s p.1 then ["share supply mismatch: " ++ p.1] else []) = [] :=
    flatMap_eq_nil_iff.mpr fun p hp => by
      obtain ⟨symbol, -, rfl⟩ := mem_map.mp hp
      simp
  have hreserve : (s.accounts.entries.flatMap fun p => reservationErrors s p.1 p.2) = [] :=
    flatMap_eq_nil_iff.mpr fun p hp => h.reservations (SortedMap.mem_entries.mp hp)
  unfold StockExchange.audit
  rw [hshares]
  refine ⟨_, rfl, ?_⟩
  simp only [Report.matches, h.cash_supply, hsupply, hreserve, h.sequence, h.auditIndex, h.executions, h.fills, guarded]
  simp

/-- Every state that accepted commands reach from an accepted genesis passes its audit. -/
theorem audit_matches {opening : Json} {commands : List Json} {s0 s : State}
    (hg : reduceCommand none opening = .ok s0) (hr : runCommands s0 commands = .ok s) :
    ∃ r, audit s = .ok r ∧ r.matches = true := by
  obtain ⟨st, hst, rfl⟩ := reduceCommand_genesis hg
  exact (runCommands_inv (genesis_inv hst) hr).inv.audit

/-- A sell order and a better priced, larger buy order that takes it. -/
def sampleTrade : List OrderCommand :=
  [sampleOrder 2 100000 "bob" "s1" .SELL 100 5, sampleOrder 3 100001 "alice" "b1" .BUY 101 8]

theorem audit_matches_sample : ∃ s0 s r, reduceCommand none (genesisJson sampleSettings) = .ok s0 ∧
    runCommands s0 (sampleTrade.map OrderCommand.toJson) = .ok s ∧ s.trades.length = 1 ∧
    audit s = .ok r ∧ r.matches = true := by
  have hrun : (applyAll (genesis sampleSettings) sampleTrade).map (·.trades.length) = .ok 1 := by
    decide +kernel
  cases hs : applyAll (genesis sampleSettings) sampleTrade with
  | error e => rw [hs] at hrun; cases hrun
  | ok s =>
      rw [hs] at hrun
      obtain ⟨h0, h1⟩ := sample_run (by decide) hs
      obtain ⟨r, hr, hm⟩ := audit_matches h0 h1
      exact ⟨_, s, r, h0, h1, Except.ok.inj hrun, hr, hm⟩

end SystemDesign.StockExchange
