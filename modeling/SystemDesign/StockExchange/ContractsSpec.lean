import SystemDesign.StockExchange.Contracts

/-!
What the checks of `contracts.py` let through: bounds and identities of every
accepted body and of every accepted settings value.
-/

namespace SystemDesign.StockExchange

open List

/-! ### Single checks -/

variable {v : Json}

theorem identifier_eq_ok {s : String} : identifier v = .ok s ↔ v = .str s ∧ isIdentifier s = true := by
  cases v with
  | str t =>
    simp only [identifier]
    by_cases h : isIdentifier t = true
    · simp only [h, if_true, Except.ok.injEq, Json.str.injEq]
      constructor
      · rintro rfl; exact ⟨rfl, h⟩
      · rintro ⟨rfl, -⟩; rfl
    · simp only [h, Json.str.injEq, Bool.false_eq_true, if_false, reduceCtorEq, false_iff]
      rintro ⟨rfl, h'⟩
      exact h h'
  | _ => simp [identifier]

theorem integer_eq_ok {lo hi n : ℤ} : integer v lo hi = .ok n ↔ v = .int n ∧ lo ≤ n ∧ n ≤ hi := by
  cases v with
  | int m =>
    simp only [integer]
    by_cases h : lo ≤ m ∧ m ≤ hi
    · simp only [h, and_self, if_true, Except.ok.injEq, Json.int.injEq]
      constructor
      · rintro rfl; exact ⟨rfl, h⟩
      · rintro ⟨rfl, -⟩; rfl
    · simp only [h, if_false, reduceCtorEq, Json.int.injEq, false_iff]
      rintro ⟨rfl, h'⟩
      exact h h'
  | _ => simp [integer]

theorem item_eq_ok {w : Json} {key : String} : item v key = .ok w ↔ v.get? key = some w := by
  unfold item
  cases v.get? key <;> simp

theorem freeze_eq_ok {w : Json} : freeze v = .ok w ↔ Json.loads v.encode = some w := by
  unfold freeze
  cases Json.loads v.encode <;> simp

theorem isText_eq_true {t : String} : isText v t = true ↔ v = .str t := by
  cases v <;> simp [isText]

/-- What `mapM` returns when every call does. -/
theorem mapM_eq_ok {α β : Type} {f : α → Py β} {l : List α} {r : List β} :
    l.mapM f = .ok r ↔ List.Forall₂ (fun a b => f a = .ok b) l r := by
  induction l generalizing r with
  | nil => simp [eq_comm]
  | cons a l ih =>
    rw [mapM_cons, Py.bind_eq_ok, forall₂_cons_left_iff]
    constructor
    · rintro ⟨b, hb, h⟩
      obtain ⟨bs, hbs, h⟩ := Py.bind_eq_ok.mp h
      obtain rfl := Except.ok.inj h
      exact ⟨b, bs, hb, ih.mp hbs, rfl⟩
    · rintro ⟨b, bs, hb, hbs, rfl⟩
      exact ⟨b, hb, Py.bind_eq_ok.mpr ⟨bs, ih.mpr hbs, rfl⟩⟩

theorem forall₂_right {α β : Type} {R : α → β → Prop} {l : List α} {r : List β}
    (h : List.Forall₂ R l r) {b : β} (hb : b ∈ r) : ∃ a ∈ l, R a b := by
  induction h with
  | nil => cases hb
  | cons hab _ ih =>
    rcases mem_cons.mp hb with rfl | hb
    · exact ⟨_, mem_cons_self, hab⟩
    · obtain ⟨a, ha, hr⟩ := ih hb
      exact ⟨a, mem_cons_of_mem _ ha, hr⟩

/-! ### Bodies -/

structure NewOrder.Valid (o : NewOrder) : Prop where
  requestId : isIdentifier o.requestId = true
  orderId : isIdentifier o.orderId = true
  symbol : isIdentifier o.symbol = true
  price : 1 ≤ o.price ∧ o.price ≤ 100000000
  quantity : 1 ≤ o.quantity ∧ o.quantity ≤ 1000000

/-- Everything an accepted body promises. -/
def Body.Valid : Body → Prop
  | .new o => o.Valid
  | .cancel requestId orderId => isIdentifier requestId = true ∧ isIdentifier orderId = true

theorem validate_valid {body kind : Json} {b : Body} (h : validate body kind = .ok b) : b.Valid := by
  unfold validate at h
  obtain ⟨frozen, -, h⟩ := Py.bind_eq_ok.mp h
  split_ifs at h
  · simp only [Py.bind_eq_ok, identifier_eq_ok, integer_eq_ok, Py.pure_eq, Except.ok.injEq] at h
    obtain ⟨-, -, -, -, requestId, ⟨-, hr⟩, -, -, orderId, ⟨-, ho⟩, -, -, symbol, ⟨-, hs⟩,
      -, -, price, ⟨-, hp⟩, -, -, quantity, ⟨-, hq⟩, -, -, side, -, rfl⟩ := h
    exact ⟨hr, ho, hs, hp, hq⟩
  · simp only [Py.bind_eq_ok, identifier_eq_ok, Py.pure_eq, Except.ok.injEq] at h
    obtain ⟨-, -, -, -, requestId, ⟨-, hr⟩, -, -, orderId, ⟨-, ho⟩, rfl⟩ := h
    exact ⟨hr, ho⟩

/-! ### Settings -/

structure Opening.Valid (symbols : List String) (o : Opening) : Prop where
  cash : 0 ≤ o.cash ∧ o.cash ≤ 10 ^ 12
  position : ∀ symbol n, o.positions.get? symbol = some n → symbol ∈ symbols ∧ 0 ≤ n ∧ n ≤ 10 ^ 12

structure Session.Valid (s : Session) : Prop where
  weekdays : s.weekdays ≠ [] ∧ s.weekdays.Nodup ∧ ∀ d ∈ s.weekdays, 0 ≤ d ∧ d ≤ 6
  start : 0 ≤ s.startMinute ∧ s.startMinute ≤ 1439
  stop : s.startMinute + 1 ≤ s.endMinute ∧ s.endMinute ≤ 1440

/-- Everything accepted settings promise. -/
structure Settings.Valid (s : Settings) : Prop where
  symbols : s.symbols.Nodup ∧ ∀ symbol ∈ s.symbols, isIdentifier symbol = true
  symbolCount : 1 ≤ s.symbols.length ∧ s.symbols.length ≤ 100
  account : ∀ owner opening, s.accounts.get? owner = some opening → isIdentifier owner = true ∧ opening.Valid s.symbols
  accountCount : 1 ≤ s.accounts.entries.length ∧ s.accounts.entries.length ≤ 100
  session : s.session.Valid
  dailyLimit : 1 ≤ s.dailyLimit ∧ s.dailyLimit ≤ 1000000

variable {symbols : List String}

theorem readSymbols_valid (h : readSymbols v = .ok symbols) :
    (symbols.Nodup ∧ ∀ symbol ∈ symbols, isIdentifier symbol = true) ∧ 1 ≤ symbols.length ∧ symbols.length ≤ 100 := by
  cases v with
  | arr items =>
    simp only [readSymbols, Py.throw_eq, Py.bind_error, Py.guard_eq_ok, Py.bind_eq_ok, not_not,
      mapM_eq_ok, Py.pure_eq, Except.ok.injEq] at h
    obtain ⟨hlen, ids, hids, hn, rfl⟩ := h
    refine ⟨⟨hn, fun symbol hs => ?_⟩, hids.length_eq ▸ hlen⟩
    obtain ⟨v, -, hv⟩ := forall₂_right hids hs
    exact (identifier_eq_ok.mp hv).2
  | _ => simp [readSymbols] at h

theorem readPositions_valid {positions : SortedMap String ℤ} (h : readPositions symbols v = .ok positions)
    (symbol : String) (n : ℤ) (hget : positions.get? symbol = some n) : symbol ∈ symbols ∧ 0 ≤ n ∧ n ≤ 10 ^ 12 := by
  cases v with
  | obj fs =>
    simp only [readPositions, Py.throw_eq, Py.bind_error, Py.guard_eq_ok, Py.bind_eq_ok, not_not,
      mapM_eq_ok, Py.pure_eq, Except.ok.injEq, cents, integer_eq_ok] at h
    obtain ⟨hsub, held, hheld, rfl⟩ := h
    obtain ⟨p, hp, m, ⟨-, hm⟩, he⟩ := forall₂_right hheld (SortedMap.mem_of_get?_ofList hget)
    obtain ⟨rfl, rfl⟩ := Prod.mk.inj he
    exact ⟨hsub p hp, hm⟩
  | _ => simp [readPositions] at h

theorem readOpening_valid {p : String × Json} {r : String × Opening} (h : readOpening symbols p = .ok r) :
    isIdentifier r.1 = true ∧ r.2.Valid symbols := by
  simp only [readOpening, Py.bind_eq_ok, identifier_eq_ok, cents, integer_eq_ok, Py.pure_eq, Except.ok.injEq] at h
  obtain ⟨owner, ⟨-, ho⟩, -, -, -, -, cash, ⟨-, hc⟩, jp, -, positions, hp, rfl⟩ := h
  exact ⟨ho, hc, readPositions_valid hp⟩

theorem readOpening_key {p : String × Json} {r : String × Opening} (h : readOpening symbols p = .ok r) : r.1 = p.1 := by
  simp only [readOpening, Py.bind_eq_ok, identifier_eq_ok, Json.str.injEq, Py.pure_eq, Except.ok.injEq] at h
  obtain ⟨owner, ⟨ho, -⟩, -, -, -, -, cash, -, -, -, positions, -, rfl⟩ := h
  exact ho.symm

theorem readAccounts_valid {accounts : SortedMap String Opening} (hwf : v.WF)
    (h : readAccounts symbols v = .ok accounts) :
    (∀ owner opening, accounts.get? owner = some opening → isIdentifier owner = true ∧ opening.Valid symbols) ∧
      1 ≤ accounts.entries.length ∧ accounts.entries.length ≤ 100 := by
  cases v with
  | obj fs =>
    simp only [readAccounts, Py.throw_eq, Py.bind_error, Py.guard_eq_ok, Py.bind_eq_ok, not_not,
      mapM_eq_ok, Py.pure_eq, Except.ok.injEq] at h
    obtain ⟨hlen, rows, hrows, rfl⟩ := h
    refine ⟨fun owner opening hget => ?_, ?_⟩
    · obtain ⟨p, -, hp⟩ := forall₂_right hrows (SortedMap.mem_of_get?_ofList hget)
      have hvalid := readOpening_valid hp
      exact hvalid
    · -- the rows keep the keys of the object, and those are distinct
      have hkeys : rows.map Prod.fst = fs.map Prod.fst := by
        clear hlen hwf
        induction hrows with
        | nil => rfl
        | cons hab _ ih =>
          rw [map_cons, map_cons, ih, readOpening_key hab]
      have hn : (rows.map Prod.fst).Nodup := hkeys ▸ hwf.1
      rw [(SortedMap.ofList_entries_perm hn).length_eq, ← hrows.length_eq]
      exact hlen
  | _ => simp [readAccounts] at h

theorem readWeekdays_valid {days : List ℤ} (h : readWeekdays v = .ok days) :
    days ≠ [] ∧ days.Nodup ∧ ∀ d ∈ days, 0 ≤ d ∧ d ≤ 6 := by
  cases v with
  | arr items =>
    simp only [readWeekdays, Py.throw_eq, Py.bind_error, Py.guard_eq_ok, Py.bind_eq_ok, not_not,
      mapM_eq_ok, Py.pure_eq, Except.ok.injEq, integer_eq_ok] at h
    obtain ⟨hne, ds, hds, hn, rfl⟩ := h
    refine ⟨?_, hn, fun d hd => ?_⟩
    · rintro rfl
      rw [forall₂_nil_right_iff] at hds
      simp [hds] at hne
    · obtain ⟨v, -, -, hv⟩ := forall₂_right hds hd
      exact hv
  | _ => simp [readWeekdays] at h

theorem settings_valid {st : Settings} (h : settings v = .ok st) : st.Valid := by
  simp only [settings, Py.bind_eq_ok, freeze_eq_ok, item_eq_ok, integer_eq_ok, Py.pure_eq, Except.ok.injEq] at h
  obtain ⟨frozen, hf, -, -, jsymbols, -, symbols, hsym, jaccounts, hja, accounts, hacc, jsession,
    -, -, -, -, -, start, ⟨-, hstart⟩, -, -, stop, ⟨-, hstop⟩, jdays, -, days, hdays, -, -, limit,
    ⟨-, hlimit⟩, rfl⟩ := h
  have hwf := Json.get?_wf (Json.loads_wf hf) hja
  obtain ⟨hs, hscount⟩ := readSymbols_valid hsym
  obtain ⟨ha, hacount⟩ := readAccounts_valid hwf hacc
  exact ⟨hs, hscount, ha, hacount, ⟨readWeekdays_valid hdays, hstart, hstop⟩, hlimit⟩

end SystemDesign.StockExchange
