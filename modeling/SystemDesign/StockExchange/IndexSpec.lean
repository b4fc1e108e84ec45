import SystemDesign.StockExchange.BookSpec

/-!
The index over all symbols against the set of resting orders.

`IndexOk symbols R index` says that the index has a book for every listed
symbol and that the queues of its sides are the orders `R` selects, by price and
in sequence order. Each operation of the index is described by what it does to
`R`; `R` itself is a parameter here and is read off the order map elsewhere.
-/

namespace SystemDesign.StockExchange

open List hiding lt_irrefl not_lt

/-- Which orders rest on which side of which symbol. -/
abbrev Resting := String → Side → Order → Prop

/-- The orders of one price in time priority. -/
structure IsQueue (R : Order → Prop) (p : ℤ) (l : List Order) : Prop where
  mem : ∀ o, o ∈ l ↔ R o ∧ o.price = p
  sorted : l.Pairwise fun a b => a.seq < b.seq

structure IndexOk (symbols : List String) (R : Resting) (index : BookIndex) : Prop where
  books : ∀ symbol, (∃ book, index.get? symbol = some book) ↔ symbol ∈ symbols
  side : ∀ symbol book, index.get? symbol = some book → ∀ sd, ∃ q : Queues,
    (book.get sd).Represents sd q ∧ ∀ p, IsQueue (R symbol sd) p (q p)

theorem Book.get_set (b : Book) (sd sd' : Side) (v : BookSide) :
    (b.set sd v).get sd' = if sd' = sd then v else b.get sd' := by
  cases sd <;> cases sd' <;> rfl

/-! ### Queues -/

variable {o : Order}

namespace IsQueue

variable {R R' : Order → Prop} {p : ℤ} {l : List Order}

theorem nodup (h : IsQueue R p l) : l.Nodup := h.sorted.imp fun hlt e => absurd (e ▸ hlt) (lt_irrefl _)

theorem congr (h : IsQueue R p l) (hR : ∀ o, R' o ↔ R o) : IsQueue R' p l := ⟨fun o => by rw [h.mem, hR], h.sorted⟩

/-- Time priority leaves one order of the queue: two queues of the same orders are equal. -/
theorem unique {l' : List Order} (h : IsQueue R p l) (h' : IsQueue R p l') : l = l' := by
  have hperm : l.Perm l' := (perm_ext_iff_of_nodup h.nodup h'.nodup).mpr fun o => by
    rw [h.mem, h'.mem]
  refine hperm.eq_of_pairwise ?_ h.sorted h'.sorted
  intro a b _ _ hab hba
  exact absurd hab (not_lt.mpr hba.le)

/-- A queue after another price has changed. -/
theorem other {R' : Order → Prop} (h : IsQueue R p l) (hR : ∀ o, o.price = p → (R' o ↔ R o)) : IsQueue R' p l :=
  ⟨fun o => by
    rw [h.mem]
    exact ⟨fun ⟨hr, hp⟩ => ⟨(hR o hp).mpr hr, hp⟩, fun ⟨hr, hp⟩ => ⟨(hR o hp).mp hr, hp⟩⟩,
  h.sorted⟩

theorem concat (h : IsQueue R o.price l) (hseq : ∀ x, R x → x.seq < o.seq) :
    IsQueue (fun x => R x ∨ x = o) o.price (l ++ [o]) := by
  refine ⟨fun x => ?_, ?_⟩
  · simp only [mem_append, h.mem, mem_singleton]
    constructor
    · rintro (⟨hr, hp⟩ | rfl)
      · exact ⟨.inl hr, hp⟩
      · exact ⟨.inr rfl, rfl⟩
    · rintro ⟨hr | rfl, hp⟩
      · exact .inl ⟨hr, hp⟩
      · exact .inr rfl
  · rw [pairwise_append]
    refine ⟨h.sorted, by simp, ?_⟩
    intro a ha b hb
    obtain rfl : b = o := by simpa using hb
    exact hseq a ((h.mem a).mp ha).1

theorem erase {a b : List Order} (h : IsQueue R p (a ++ o :: b)) : IsQueue (fun x => R x ∧ x ≠ o) p (a ++ b) := by
  have hnd := h.nodup
  rw [nodup_middle, nodup_cons] at hnd
  refine ⟨fun x => ?_, h.sorted.sublist ((sublist_cons_self o b).append_left a)⟩
  have hx := h.mem x
  constructor
  · intro hmem
    have hne : x ≠ o := fun e => hnd.1 (e ▸ hmem)
    have := hx.mp (by simpa [hne] using hmem)
    exact ⟨⟨this.1, hne⟩, this.2⟩
  · rintro ⟨⟨hr, hne⟩, hp⟩
    simpa [hne] using hx.mpr ⟨hr, hp⟩

theorem replace {a b : List Order} {o' : Order} (h : IsQueue R p (a ++ o :: b)) (hprice : o'.price = o.price)
    (hseq : o'.seq = o.seq) : IsQueue (fun x => R x ∧ x ≠ o ∨ x = o') p (a ++ o' :: b) := by
  have herase := h.erase
  have hp : o.price = p := ((h.mem o).mp (by simp)).2
  refine ⟨fun x => ?_, ?_⟩
  · rw [mem_append, mem_cons, or_left_comm, ← mem_append, herase.mem]
    constructor
    · rintro (rfl | ⟨hr, hxp⟩)
      · exact ⟨.inr rfl, hprice.trans hp⟩
      · exact ⟨.inl hr, hxp⟩
    · rintro ⟨hr | rfl, hxp⟩
      · exact .inr ⟨hr, hxp⟩
      · exact .inl rfl
  · have hs := h.sorted
    rw [pairwise_append, pairwise_cons] at hs ⊢
    refine ⟨hs.1, ⟨fun x hx => hseq ▸ hs.2.1.1 x hx, hs.2.1.2⟩, ?_⟩
    intro x hx y hy
    rcases mem_cons.mp hy with rfl | hy
    · rw [hseq]; exact hs.2.2 x hx o (by simp)
    · exact hs.2.2 x hx y (mem_cons_of_mem _ hy)

end IsQueue

/-! ### Operations of the index -/

namespace IndexOk

variable {symbols : List String} {R R' : Resting} {index : BookIndex}

theorem congr (h : IndexOk symbols R index) (hR : ∀ symbol sd o, R' symbol sd o ↔ R symbol sd o) :
    IndexOk symbols R' index := by
  refine ⟨h.books, fun symbol book hb sd => ?_⟩
  obtain ⟨q, hq, hl⟩ := h.side symbol book hb sd
  exact ⟨q, hq, fun p => (hl p).congr (hR symbol sd)⟩

/-- An operation on one side changes what rests there and nothing else. -/
theorem onSide (h : IndexOk symbols R index) {symbol : String} (hs : symbol ∈ symbols) (sd : Side)
    {f : BookSide → Py BookSide}
    (hother : ∀ symbol' sd' o, ¬ (symbol' = symbol ∧ sd' = sd) → (R' symbol' sd' o ↔ R symbol' sd' o))
    (hf : ∀ s q, BookSide.Represents sd s q → (∀ p, IsQueue (R symbol sd) p (q p)) →
      ∃ s' q', f s = .ok s' ∧ BookSide.Represents sd s' q' ∧ ∀ p, IsQueue (R' symbol sd) p (q' p)) :
    ∃ index', index.onSide symbol sd f = .ok index' ∧ IndexOk symbols R' index' := by
  obtain ⟨book, hbook⟩ := (h.books symbol).mpr hs
  obtain ⟨q, hq, hl⟩ := h.side symbol book hbook sd
  obtain ⟨s', q', hfs, hq', hl'⟩ := hf _ q hq hl
  refine ⟨index.insert symbol (book.set sd s'), ?_, ?_, ?_⟩
  · simp [BookIndex.onSide, SortedMap.getItem_of_get? hbook, hfs]
  · intro symbol'
    rw [SortedMap.get?_insert]
    by_cases he : symbol' = symbol
    · simp [he, hs]
    · simp [he, h.books]
  · intro symbol' book' hb' sd'
    rw [SortedMap.get?_insert] at hb'
    by_cases he : symbol' = symbol
    · rw [if_pos he] at hb'
      obtain rfl := Option.some.inj hb'
      subst he
      rw [Book.get_set]
      by_cases hd : sd' = sd
      · subst hd
        rw [if_pos rfl]
        exact ⟨q', hq', hl'⟩
      · rw [if_neg hd]
        obtain ⟨q2, hq2, hl2⟩ := h.side symbol' book hbook sd'
        exact ⟨q2, hq2, fun p => (hl2 p).congr fun o => hother _ _ o fun e => hd e.2⟩
    · rw [if_neg he] at hb'
      obtain ⟨q2, hq2, hl2⟩ := h.side symbol' book' hb' sd'
      exact ⟨q2, hq2, fun p => (hl2 p).congr fun o => hother _ _ o fun e => he e.1⟩

/-- `R` with one order more. -/
def withOrder (R : Resting) (o : Order) : Resting := fun symbol sd x =>
  R symbol sd x ∨ symbol = o.symbol ∧ sd = o.side ∧ x = o

/-- `R` with one order less. -/
def without (R : Resting) (o : Order) : Resting := fun symbol sd x =>
  R symbol sd x ∧ ¬ (symbol = o.symbol ∧ sd = o.side ∧ x = o)

theorem add (h : IndexOk symbols R index) (hs : o.symbol ∈ symbols)
    (hfresh : ∀ x, R o.symbol o.side x → x.orderId ≠ o.orderId) (hseq : ∀ x, R o.symbol o.side x → x.seq < o.seq) :
    ∃ index', index.add o = .ok index' ∧ IndexOk symbols (withOrder R o) index' := by
  refine h.onSide hs o.side ?_ ?_
  · intro symbol' sd' x hne
    simp only [withOrder]
    tauto
  · intro s q hq hl
    have hf : q.Fresh o.orderId := fun p x hx => hfresh x (((hl p).mem x).mp hx).1
    obtain ⟨s', hs', hq'⟩ := BookSide.add_spec hq hf o.price
    refine ⟨s', _, hs', hq', fun p => ?_⟩
    by_cases hp : p = o.price
    · subst hp
      rw [Function.update_self]
      exact ((hl o.price).concat hseq).congr fun x => by simp [withOrder]
    · rw [Function.update_of_ne hp]
      refine (hl p).other fun x hx => ?_
      have : x ≠ o := fun e => hp (by rw [← hx, e])
      simp [withOrder, this]

theorem remove (h : IndexOk symbols R index) (hs : o.symbol ∈ symbols) (ho : R o.symbol o.side o) :
    ∃ index', index.remove o = .ok index' ∧ IndexOk symbols (without R o) index' := by
  refine h.onSide hs o.side ?_ ?_
  · intro symbol' sd' x hne
    simp only [without]
    tauto
  · intro s q hq hl
    obtain ⟨a, b, hab⟩ := append_of_mem (((hl o.price).mem o).mpr ⟨ho, rfl⟩)
    obtain ⟨s', hs', hq', -⟩ := BookSide.remove_spec hq hab
    refine ⟨s', _, hs', hq', fun p => ?_⟩
    by_cases hp : p = o.price
    · subst hp
      rw [Function.update_self]
      have hlp := hl o.price
      rw [hab] at hlp
      exact hlp.erase.congr fun x => by simp [without]
    · rw [Function.update_of_ne hp]
      refine (hl p).other fun x hx => ?_
      have : x ≠ o := fun e => hp (by rw [← hx, e])
      simp [without, this]

/-- Removing an order that does not rest changes nothing. -/
theorem remove_absent (h : IndexOk symbols R index) (hs : o.symbol ∈ symbols)
    (ho : ∀ x, R o.symbol o.side x → x.orderId ≠ o.orderId) :
    ∃ index', index.remove o = .ok index' ∧ IndexOk symbols R index' := by
  refine h.onSide hs o.side (fun _ _ _ _ => Iff.rfl) ?_
  intro s q hq hl
  have hf : q.Fresh o.orderId := fun p x hx => ho x (((hl p).mem x).mp hx).1
  exact ⟨s, q, BookSide.remove_absent hq hf, hq, hl⟩

/-- Taking units of a resting order: it leaves when none remain, else its new record rests. -/
theorem consume (h : IndexOk symbols R index) (hs : o.symbol ∈ symbols) (ho : R o.symbol o.side o) {count : ℤ}
    (hpos : 0 < count) (hle : count ≤ o.remaining) {o' : Order} (hid : o'.orderId = o.orderId)
    (hsym : o'.symbol = o.symbol) (hside : o'.side = o.side) (hprice : o'.price = o.price) (hseq : o'.seq = o.seq)
    (hrem : o'.remaining = o.remaining - count) : ∃ index', index.consume o count = .ok index' ∧
      IndexOk symbols (if o'.remaining = 0 then without R o else withOrder (without R o) o') index' := by
  by_cases hall : count = o.remaining
  · have hzero : o'.remaining = 0 := by rw [hrem, hall, sub_self]
    rw [if_pos hzero]
    obtain ⟨index', hr, hok⟩ := h.remove hs ho
    refine ⟨index', ?_, hok⟩
    rw [← hr]
    obtain ⟨book, hbook⟩ := (h.books o.symbol).mpr hs
    obtain ⟨q, hq, hl⟩ := h.side o.symbol book hbook o.side
    obtain ⟨a, b, hab⟩ := append_of_mem (((hl o.price).mem o).mpr ⟨ho, rfl⟩)
    simp only [BookIndex.consume, BookIndex.remove, BookIndex.onSide,
      SortedMap.getItem_of_get? hbook, Py.bind_ok, hall, BookSide.consume_all hq hab]
  · have hlt : count < o.remaining := lt_of_le_of_ne hle hall
    have hzero : o'.remaining ≠ 0 := by rw [hrem]; omega
    rw [if_neg hzero]
    refine h.onSide hs o.side ?_ ?_
    · intro symbol' sd' x hne
      simp only [withOrder, without, hsym, hside]
      tauto
    · intro s q hq hl
      obtain ⟨a, b, hab⟩ := append_of_mem (((hl o.price).mem o).mpr ⟨ho, rfl⟩)
      obtain ⟨s', hs', hq'⟩ := BookSide.consume_part_spec hq hab hid hrem hpos hlt
      refine ⟨s', _, hs', hq', fun p => ?_⟩
      by_cases hp : p = o.price
      · subst hp
        rw [Function.update_self]
        have hlp := hl o.price
        rw [hab] at hlp
        exact (hlp.replace hprice hseq).congr fun x => by simp [withOrder, without, hsym, hside]
      · rw [Function.update_of_ne hp]
        refine (hl p).other fun x hx => ?_
        have h1 : x ≠ o := fun e => hp (by rw [← hx, e])
        have h2 : x ≠ o' := fun e => hp (by rw [← hx, e, hprice])
        simp [withOrder, without, h1, h2]

/-! ### The best resting order -/

/-- The order of a side with the best price and, there, the smallest sequence number. -/
structure IsFirst (R : Resting) (symbol : String) (sd : Side) (o : Order) : Prop where
  rests : R symbol sd o
  price : ∀ x, R symbol sd x → o.price * sd.sign ≤ x.price * sd.sign
  seq : ∀ x, R symbol sd x → x.price = o.price → o.seq ≤ x.seq

theorem best (h : IndexOk symbols R index) {symbol : String} (hs : symbol ∈ symbols)
    (takerSide : Side) : ∃ index' makerId, index.best symbol takerSide = .ok (index', makerId) ∧
      IndexOk symbols R index' ∧
      match makerId with
      | none => ∀ x, ¬ R symbol takerSide.opposite x
      | some id => ∃ o, o.orderId = id ∧ IsFirst R symbol takerSide.opposite o := by
  obtain ⟨book, hbook⟩ := (h.books symbol).mpr hs
  obtain ⟨q, hq, hl⟩ := h.side symbol book hbook takerSide.opposite
  obtain ⟨hrep, hbest⟩ := BookSide.best_spec hq
  have hon : ∃ index', index.onSide symbol takerSide.opposite
      (fun s => .ok (s.best takerSide.opposite).1) = .ok index' ∧ IndexOk symbols R index' := by
    refine h.onSide hs _ (fun _ _ _ _ => Iff.rfl) ?_
    intro s q hq hl
    exact ⟨_, q, rfl, (BookSide.best_spec hq).1, hl⟩
  obtain ⟨index', hidx, hok⟩ := hon
  simp only [BookIndex.onSide, SortedMap.getItem_of_get? hbook, Py.bind_ok, Py.pure_eq, Except.ok.injEq] at hidx
  refine ⟨index', ((book.get takerSide.opposite).best takerSide.opposite).2, ?_, hok, ?_⟩
  · simp [BookIndex.best, SortedMap.getItem_of_get? hbook, hidx]
  · have hmem : ∀ x, R symbol takerSide.opposite x → x ∈ q x.price := fun x hx => ((hl x.price).mem x).mpr ⟨hx, rfl⟩
    cases hm : ((book.get takerSide.opposite).best takerSide.opposite).2 with
    | none =>
      rw [hm] at hbest
      intro x hx
      have := hmem x hx
      rw [hbest x.price] at this
      cases this
    | some id =>
      rw [hm] at hbest
      obtain ⟨p, o, b, hqp, hid, hmin⟩ := hbest
      have ho := ((hl p).mem o).mp (by rw [hqp]; simp)
      refine ⟨o, hid, ho.1, ?_, ?_⟩
      · intro x hx
        rw [ho.2]
        exact hmin x.price (ne_nil_of_mem (hmem x hx))
      · intro x hx hp
        have hx' := hmem x hx
        rw [hp, ho.2, hqp] at hx'
        have hs := (hl p).sorted
        rw [hqp, pairwise_cons] at hs
        rcases mem_cons.mp hx' with rfl | hx'
        · exact le_rfl
        · exact (hs.1 x hx').le

theorem empty (hn : symbols.Nodup) : IndexOk symbols (fun _ _ _ => False) (BookIndex.empty symbols) := by
  have hkeys : ((symbols.map fun symbol => (symbol, (⟨BookSide.empty, BookSide.empty⟩ : Book))).map
      Prod.fst).Nodup := by
    simpa [Function.comp_def] using hn
  have hget : ∀ symbol book, (BookIndex.empty symbols).get? symbol = some book ↔
      symbol ∈ symbols ∧ book = ⟨BookSide.empty, BookSide.empty⟩ := by
    intro symbol book
    rw [BookIndex.empty, SortedMap.get?_ofList hkeys, Assoc.lookup_eq_some_iff hkeys]
    simp only [mem_map, Prod.mk.injEq]
    constructor
    · rintro ⟨x, hx, rfl, rfl⟩; exact ⟨hx, rfl⟩
    · rintro ⟨hx, rfl⟩; exact ⟨symbol, hx, rfl, rfl⟩
  refine ⟨fun symbol => ?_, fun symbol book hb sd => ⟨fun _ => [], ?_, fun p => ⟨by simp, .nil⟩⟩⟩
  · simp [hget]
  · obtain ⟨-, rfl⟩ := (hget symbol book).mp hb
    cases sd <;> exact BookSide.represents_empty _

end IndexOk

end SystemDesign.StockExchange
