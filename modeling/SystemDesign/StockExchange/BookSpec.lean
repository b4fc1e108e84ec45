import SystemDesign.StockExchange.OrderBook

/-!
What one side of the book stands for: a FIFO queue of orders at every price.

`Represents` ties the three redundant structures of a side (level records,
linked nodes, lazily cleaned heap) to one function from prices to queues. Each
operation has one specification lemma that says which queues its result stands
for; nothing after this module looks at links or heap entries again, except to
compare heaps.
-/

namespace SystemDesign.StockExchange

open List
open Function (update update_of_ne update_self)

/-- A queue of resting orders for each price. -/
abbrev Queues := ℤ → List Order

def firstId (l : List Order) : Option String := l.head?.map Order.orderId

def lastId (l : List Order) : Option String := l.getLast?.map Order.orderId

def queueQuantity (l : List Order) : ℤ := (l.map Order.remaining).sum

/-- The level record of a queue; an empty queue has none. -/
def levelOf (l : List Order) : Option Level := if l = [] then none else some ⟨firstId l, lastId l, queueQuantity l⟩

@[simp] theorem firstId_nil : firstId [] = none := rfl

@[simp] theorem firstId_cons (o : Order) (l : List Order) : firstId (o :: l) = some o.orderId := rfl

@[simp] theorem lastId_nil : lastId [] = none := rfl

@[simp] theorem lastId_singleton (o : Order) : lastId [o] = some o.orderId := rfl

@[simp] theorem lastId_concat (l : List Order) (o : Order) : lastId (l ++ [o]) = some o.orderId := by
  simp [lastId]

@[simp] theorem lastId_append_cons (a : List Order) (o : Order) (b : List Order) :
    lastId (a ++ o :: b) = lastId (o :: b) := by
  simp [lastId, getLast?_append, getLast?_cons]

variable {l : List Order}

@[simp] theorem firstId_eq_none : firstId l = none ↔ l = [] := by
  cases l <;> simp [firstId]

@[simp] theorem lastId_eq_none : lastId l = none ↔ l = [] := by
  simp [lastId]

variable {id : String}

theorem lastId_eq_some (h : lastId l = some id) : ∃ a o, l = a ++ [o] ∧ o.orderId = id := by
  rcases eq_nil_or_concat l with rfl | ⟨a, o, rfl⟩
  · simp at h
  · rw [concat_eq_append, lastId_concat] at h
    exact ⟨a, o, by simp, Option.some.inj h⟩

theorem firstId_eq_some (h : firstId l = some id) : ∃ o b, l = o :: b ∧ o.orderId = id := by
  cases l with
  | nil => simp at h
  | cons o b => exact ⟨o, b, rfl, by simpa using h⟩

theorem queueQuantity_split (a : List Order) (o : Order) (b : List Order) :
    queueQuantity (a ++ o :: b) = queueQuantity (a ++ b) + o.remaining := by
  simp [queueQuantity]; ring

theorem levelOf_of_ne_nil (h : l ≠ []) : levelOf l = some ⟨firstId l, lastId l, queueQuantity l⟩ := by
  simp [levelOf, h]

@[simp] theorem levelOf_nil : levelOf [] = none := rfl

/-- The node of an order between its neighbours in a queue. -/
def nodeOf (p : ℤ) (a : List Order) (o : Order) (b : List Order) : Node := ⟨lastId a, firstId b, p, o.remaining⟩

/-- The side stores exactly these queues. -/
structure BookSide.Represents (sd : Side) (s : BookSide) (q : Queues) : Prop where
  level : ∀ p, s.levels.get? p = levelOf (q p)
  node : ∀ p a o b, q p = a ++ o :: b → s.nodes.get? o.orderId = some (nodeOf p a o b)
  indexed : ∀ id nd, s.nodes.get? id = some nd → ∃ o ∈ q nd.price, o.orderId = id
  nodup : ∀ p, ((q p).map Order.orderId).Nodup
  heap : Heapq.IsHeap s.heap
  live : ∀ p, q p ≠ [] → p * sd.sign ∈ s.heap

theorem Side.sign_mul_sign (sd : Side) : sd.sign * sd.sign = 1 := by
  cases sd <;> rfl

/-- No queue holds the id. -/
def Queues.Fresh (q : Queues) (id : String) : Prop := ∀ p, ∀ o ∈ q p, o.orderId ≠ id

namespace BookSide

variable {sd : Side} {s : BookSide} {q : Queues}
variable {o : Order} {p : ℤ}

theorem Represents.node_of_mem (h : Represents sd s q) (ho : o ∈ q p) :
    ∃ a b, q p = a ++ o :: b ∧ s.nodes.get? o.orderId = some (nodeOf p a o b) := by
  obtain ⟨a, b, hab⟩ := append_of_mem ho
  exact ⟨a, b, hab, h.node p a o b hab⟩

variable {o' : Order}

theorem Represents.price_eq (h : Represents sd s q) {p' : ℤ} (ho : o ∈ q p) (ho' : o' ∈ q p')
    (hid : o.orderId = o'.orderId) : p = p' := by
  obtain ⟨a, b, -, hn⟩ := h.node_of_mem ho
  obtain ⟨a', b', -, hn'⟩ := h.node_of_mem ho'
  rw [hid, hn'] at hn
  exact (congrArg Node.price (Option.some.inj hn)).symm

theorem Represents.fresh_iff (h : Represents sd s q) : q.Fresh id ↔ s.nodes.get? id = none := by
  constructor
  · intro hf
    cases hn : s.nodes.get? id with
    | none => rfl
    | some nd =>
      obtain ⟨o, ho, hid⟩ := h.indexed id nd hn
      exact absurd hid (hf _ o ho)
  · intro hn p o ho hid
    obtain ⟨a, b, -, hn'⟩ := h.node_of_mem ho
    rw [hid, hn] at hn'
    cases hn'

theorem represents_empty (sd : Side) : Represents sd empty fun _ => [] where
  level _ := rfl
  node p a o b h := by simp at h
  indexed id nd h := by simp [empty] at h
  nodup _ := nodup_nil
  heap := Heapq.isHeap_nil
  live p h := absurd rfl h

variable {a b : List Order}

/-- A queue with distinct ids splits at an order in one way. -/
theorem split_unique {a' b' : List Order} (hl : (l.map Order.orderId).Nodup) (h : l = a ++ o :: b)
    (h' : l = a' ++ o' :: b') (hid : o.orderId = o'.orderId) : a = a' ∧ o = o' ∧ b = b' := by
  subst h
  rw [map_append, map_cons, nodup_append] at hl
  obtain ⟨-, hb, hdis⟩ := hl
  rw [nodup_cons] at hb
  rcases append_eq_append_iff.mp h' with ⟨m, rfl, hm⟩ | ⟨m, rfl, hm⟩
  · cases m with
    | nil => simp at hm; exact ⟨by simp, hm.1, hm.2⟩
    | cons x m =>
      obtain ⟨rfl, rfl⟩ := List.cons.inj hm
      exact absurd (by simp [hid]) hb.1
  · cases m with
    | nil => simp at hm; exact ⟨by simp, hm.1.symm, hm.2.symm⟩
    | cons x m =>
      obtain ⟨rfl, rfl⟩ := List.cons.inj hm
      exact absurd hid.symm (hdis _ (by simp) _ (by simp))

/-! ### Adding an order -/

theorem nodup_update (h : ∀ p, ((q p).map Order.orderId).Nodup) (hl : (l.map Order.orderId).Nodup) (p' : ℤ) :
    ((update q p l p').map Order.orderId).Nodup := by
  rcases eq_or_ne p' p with rfl | hp
  · rwa [update_self]
  · rw [update_of_ne hp]; exact h p'

/-- A price whose level was found or made has a record, and its heap entry. -/
theorem openLevel_spec (h : Represents sd s q) (p : ℤ) : (s.openLevel sd p).nodes = s.nodes ∧
      (s.openLevel sd p).levels.get? p = some ⟨firstId (q p), lastId (q p), queueQuantity (q p)⟩ ∧
      (∀ p', p' ≠ p → (s.openLevel sd p).levels.get? p' = s.levels.get? p') ∧
      Heapq.IsHeap (s.openLevel sd p).heap ∧ p * sd.sign ∈ (s.openLevel sd p).heap ∧
      ∀ v ∈ s.heap, v ∈ (s.openLevel sd p).heap := by
  unfold openLevel
  by_cases hq : q p = []
  · have hc : s.levels.contains p = false := by simp [SortedMap.contains, h.level, hq]
    obtain ⟨hheap, hperm⟩ := Heapq.heappush_spec h.heap (p * sd.sign)
    rw [hc]
    refine ⟨rfl, ?_, ?_, hheap, ?_, ?_⟩
    · simp [hq, queueQuantity]
    · intro p' hp'
      simp [SortedMap.get?_insert, hp']
    · exact hperm.mem_iff.mpr (by simp)
    · intro v hv
      exact hperm.mem_iff.mpr (by simp [hv])
  · have hlev := h.level p
    rw [levelOf_of_ne_nil hq] at hlev
    have hc : s.levels.contains p = true := by simp [SortedMap.contains, hlev]
    rw [if_pos hc]
    exact ⟨rfl, hlev, fun _ _ => rfl, h.heap, h.live p hq, fun _ hv => hv⟩

theorem linkNext_spec {nodes : SortedMap String Node} {nd : Node} (h : nodes.get? id = some nd)
    (next : Option String) : linkNext nodes (some id) next = .ok (nodes.insert id { nd with next }) := by
  simp [linkNext, SortedMap.getItem_of_get? h]

theorem linkPrevious_spec {nodes : SortedMap String Node} {nd : Node} (h : nodes.get? id = some nd)
    (previous : Option String) :
    linkPrevious nodes (some id) previous = .ok (nodes.insert id { nd with previous }) := by
  simp [linkPrevious, SortedMap.getItem_of_get? h]

/-- The nodes once a new order is linked behind the last one. -/
structure Linked (nodes nodes' : SortedMap String Node) (p : ℤ) (l : List Order) (o : Order) :
    Prop where
  self : nodes'.get? o.orderId = some ⟨lastId l, none, p, o.remaining⟩
  last : ∀ a y, l = a ++ [y] → nodes'.get? y.orderId = some (nodeOf p a y [o])
  other : ∀ id, id ≠ o.orderId → lastId l ≠ some id → nodes'.get? id = nodes.get? id

/-- The linking step of `add` returns, and links the order. -/
theorem link_spec (h : Represents sd s q) (hf : q.Fresh o.orderId) (p : ℤ) :
    ∃ nodes', linkNext (s.nodes.insert o.orderId ⟨lastId (q p), none, p, o.remaining⟩)
        (lastId (q p)) (some o.orderId) = .ok nodes' ∧ Linked s.nodes nodes' p (q p) o := by
  rcases eq_nil_or_concat' (q p) with hq | ⟨a, y, hq⟩
  · rw [hq]
    refine ⟨_, rfl, by simp, ?_, ?_⟩
    · intro a y hy; simp at hy
    · intro id hid _; simp [SortedMap.get?_insert, hid]
  · have hy : y.orderId ≠ o.orderId := hf p y (by simp [hq])
    have hget : (s.nodes.insert o.orderId ⟨lastId (q p), none, p, o.remaining⟩).get? y.orderId
        = some (nodeOf p a y []) := by
      rw [SortedMap.get?_insert_of_ne _ hy, h.node p a y [] hq]
    rw [hq, lastId_concat] at hget ⊢
    refine ⟨_, linkNext_spec hget _, ?_, ?_, ?_⟩
    · rw [SortedMap.get?_insert_of_ne _ hy.symm, SortedMap.get?_insert_self, lastId_concat]
    · intro a' y' hq'
      obtain ⟨rfl, he⟩ := append_inj' hq' rfl
      obtain rfl : y = y' := by simpa using he
      rw [SortedMap.get?_insert_self]; rfl
    · intro id hid hl
      rw [lastId_concat] at hl
      rw [SortedMap.get?_insert_of_ne _ (fun e => hl (by rw [e])), SortedMap.get?_insert_of_ne _ hid]

variable {nodes' : SortedMap String Node}

theorem Linked.node (h : Represents sd s q) {o : Order} (hf : q.Fresh o.orderId) {p : ℤ}
    (hl : Linked s.nodes nodes' p (q p) o) :
    ∀ p' a y b, update q p (q p ++ [o]) p' = a ++ y :: b → nodes'.get? y.orderId = some (nodeOf p' a y b) := by
  intro p' a y b hq
  by_cases hp : p' = p
  · subst hp
    rw [update_self] at hq
    rcases eq_nil_or_concat' b with rfl | ⟨b', z, rfl⟩
    · obtain ⟨h1, h2⟩ := append_inj' hq rfl
      obtain rfl : o = y := by simpa using h2
      rw [hl.self, h1]; rfl
    · have hq' : q p' ++ [o] = (a ++ y :: b') ++ [z] := by simpa using hq
      obtain ⟨h1, h2⟩ := append_inj' hq' rfl
      obtain rfl : o = z := by simpa using h2
      cases b' with
      | nil => exact hl.last a y h1
      | cons w b' =>
        have hy : y ∈ q p' := by rw [h1]; simp
        rw [hl.other _ (hf p' y hy), h.node p' a y (w :: b') h1]
        · rfl
        · -- `y` is not the last order of the queue
          intro hlast
          have hnd := h.nodup p'
          rw [h1] at hlast hnd
          rw [show a ++ y :: w :: b' = (a ++ [y]) ++ w :: b' by simp, lastId_append_cons]
            at hlast
          obtain ⟨m, u, hm, hu⟩ := lastId_eq_some hlast
          rw [hm, map_append, nodup_append, map_cons, nodup_cons] at hnd
          exact hnd.2.1.1 (by simp [hu])
  · rw [update_of_ne hp] at hq
    have hy : y ∈ q p' := by rw [hq]; simp
    rw [hl.other _ (hf p' y hy), h.node p' a y b hq]
    intro hlast
    obtain ⟨m, u, hm, hu⟩ := lastId_eq_some hlast
    exact hp (h.price_eq hy (by rw [hm]; simp) hu.symm)

theorem Linked.indexed (h : Represents sd s q) {o : Order} {p : ℤ} (hl : Linked s.nodes nodes' p (q p) o) :
    ∀ id nd, nodes'.get? id = some nd →
      ∃ y ∈ update q p (q p ++ [o]) nd.price, y.orderId = id := by
  intro id nd hn
  by_cases hid : id = o.orderId
  · subst hid
    rw [hl.self] at hn
    obtain rfl := Option.some.inj hn
    exact ⟨o, by simp, rfl⟩
  · by_cases hlast : lastId (q p) = some id
    · obtain ⟨a, y, hq, rfl⟩ := lastId_eq_some hlast
      rw [hl.last a y hq] at hn
      obtain rfl := Option.some.inj hn
      exact ⟨y, by simp [nodeOf, hq], rfl⟩
    · rw [hl.other id hid hlast] at hn
      obtain ⟨y, hy, hyid⟩ := h.indexed id nd hn
      refine ⟨y, ?_, hyid⟩
      rcases eq_or_ne nd.price p with hp | hp
      · rw [hp] at hy ⊢
        simp [hy]
      · rwa [update_of_ne hp]

theorem add_spec (h : Represents sd s q) (hf : q.Fresh o.orderId) (p : ℤ) :
    ∃ s', s.add sd o.orderId p o.remaining = .ok s' ∧ Represents sd s' (update q p (q p ++ [o])) := by
  obtain ⟨hnodes, hlev, hother, hheap, hmem, hsub⟩ := openLevel_spec h p
  obtain ⟨nodes', hlink, hl⟩ := link_spec h hf p
  unfold add
  simp only [SortedMap.contains, h.fresh_iff.mp hf, Option.isSome_none, Bool.false_eq_true,
    if_false, SortedMap.getItem_of_get? hlev, Py.bind_ok, hnodes, hlink, Py.pure_eq]
  refine ⟨_, rfl, ?_, hl.node h hf, hl.indexed h, nodup_update h.nodup ?_, hheap, ?_⟩
  · intro p'
    rw [SortedMap.get?_insert]
    rcases eq_or_ne p' p with rfl | hp
    · rw [update_self, if_pos rfl, levelOf_of_ne_nil (by simp)]
      rw [lastId_concat]
      cases q p' <;> simp [queueQuantity, add_assoc]
    · rw [if_neg hp, update_of_ne hp, hother p' hp, h.level]
  · rw [map_append, nodup_append]
    refine ⟨h.nodup p, by simp, ?_⟩
    intro x hx y hy hxy
    obtain ⟨z, hz, rfl⟩ := mem_map.mp hx
    exact hf p z hz (hxy.trans (by simpa using hy))
  · intro p' hne
    rcases eq_or_ne p' p with rfl | hp
    · exact hmem
    · rw [update_of_ne hp] at hne
      exact hsub _ (h.live p' hne)

/-! ### Removing an order -/

theorem represents_compact (h : Represents sd s q) : Represents sd (s.compact sd) q := by
  unfold compact
  split
  · obtain ⟨hheap, hperm⟩ := Heapq.heapify_spec (s.levels.keys.map (· * sd.sign))
    refine ⟨h.level, h.node, h.indexed, h.nodup, hheap, ?_⟩
    intro p hp
    refine hperm.mem_iff.mpr (mem_map.mpr ⟨p, ?_, rfl⟩)
    exact SortedMap.mem_keys.mpr ⟨_, by rw [h.level, levelOf_of_ne_nil hp]⟩
  · exact h

theorem remove_absent (h : Represents sd s q) (hf : q.Fresh id) : s.remove sd id = .ok s := by
  simp [remove, h.fresh_iff.mp hf]

/-- The nodes once the order before and the order after the removed one are relinked. -/
structure Unlinked (nodes nodes' : SortedMap String Node) (p : ℤ) (a : List Order) (o : Order)
    (b : List Order) : Prop where
  gone : nodes'.get? o.orderId = none
  before : ∀ a' y, a = a' ++ [y] → nodes'.get? y.orderId = some (nodeOf p a' y b)
  after : ∀ y b', b = y :: b' → nodes'.get? y.orderId = some (nodeOf p a y b')
  other : ∀ id, id ≠ o.orderId → lastId a ≠ some id → firstId b ≠ some id → nodes'.get? id = nodes.get? id

theorem Represents.ids_split (h : Represents sd s q) (hq : q p = a ++ o :: b) : (∀ y ∈ a, y.orderId ≠ o.orderId) ∧
      (∀ y ∈ b, y.orderId ≠ o.orderId) ∧ ∀ y ∈ a, ∀ z ∈ b, y.orderId ≠ z.orderId := by
  have hnd := h.nodup p
  rw [hq, map_append, map_cons, nodup_append, nodup_cons] at hnd
  obtain ⟨-, ⟨hob, -⟩, hdis⟩ := hnd
  refine ⟨?_, ?_, ?_⟩
  · intro y hy
    exact hdis _ (mem_map_of_mem hy) _ (by simp)
  · intro y hy e
    exact hob (e ▸ mem_map_of_mem hy)
  · intro y hy z hz
    exact hdis _ (mem_map_of_mem hy) _ (mem_cons_of_mem _ (mem_map_of_mem hz))

/-- The two relinking steps of `remove` return, and unlink the order. -/
theorem relink_spec (h : Represents sd s q) (hq : q p = a ++ o :: b) : ∃ nodes nodes' : SortedMap String Node,
      linkNext (s.nodes.erase o.orderId) (lastId a) (firstId b) = .ok nodes ∧
      linkPrevious nodes (firstId b) (lastId a) = .ok nodes' ∧
      Unlinked s.nodes nodes' p a o b := by
  obtain ⟨hao, hbo, hab⟩ := h.ids_split hq
  have herase : ∀ id, id ≠ o.orderId → (s.nodes.erase o.orderId).get? id = s.nodes.get? id := by
    intro id hid; rw [SortedMap.get?_erase, if_neg hid]
  have hgone : (s.nodes.erase o.orderId).get? o.orderId = none := by simp [SortedMap.get?_erase]
  rcases eq_nil_or_concat' a with rfl | ⟨a', y, rfl⟩
  · cases b with
    | nil =>
      refine ⟨_, _, rfl, rfl, hgone, ?_, ?_, fun id hid _ _ => herase id hid⟩
      · intro a' y hy; simp at hy
      · intro y b' hy; simp at hy
    | cons z b =>
      have hz := hbo z (by simp)
      have hnz : (s.nodes.erase o.orderId).get? z.orderId = some (nodeOf p [o] z b) := by
        rw [herase _ hz]; exact h.node p [o] z b (by simpa using hq)
      refine ⟨_, _, rfl, linkPrevious_spec hnz _, ?_, ?_, ?_, ?_⟩
      · rw [SortedMap.get?_insert_of_ne _ hz.symm, hgone]
      · intro a' y hy; simp at hy
      · intro y b' hy
        obtain ⟨rfl, rfl⟩ := List.cons.inj hy
        rw [SortedMap.get?_insert_self]; rfl
      · intro id hid _ hf
        rw [SortedMap.get?_insert_of_ne _ (fun e => hf (by simp [e])), herase _ hid]
  · have hy := hao y (by simp)
    have hny : (s.nodes.erase o.orderId).get? y.orderId = some (nodeOf p a' y (o :: b)) := by
      rw [herase _ hy]; exact h.node p a' y (o :: b) (by simpa using hq)
    rw [lastId_concat]
    cases b with
    | nil =>
      refine ⟨_, _, linkNext_spec hny _, rfl, ?_, ?_, ?_, ?_⟩
      · rw [SortedMap.get?_insert_of_ne _ hy.symm, hgone]
      · intro a'' y' he
        obtain ⟨rfl, he⟩ := append_inj' he rfl
        obtain rfl : y = y' := by simpa using he
        rw [SortedMap.get?_insert_self]; rfl
      · intro y b' hy; simp at hy
      · intro id hid hl _
        rw [SortedMap.get?_insert_of_ne _ (fun e => hl (by simp [e])), herase _ hid]
    | cons z b =>
      have hz := hbo z (by simp)
      have hyz := hab y (by simp) z (by simp)
      have hnz : ((s.nodes.erase o.orderId).insert y.orderId
          { nodeOf p a' y (o :: z :: b) with next := some z.orderId }).get? z.orderId
          = some (nodeOf p (a' ++ [y] ++ [o]) z b) := by
        rw [SortedMap.get?_insert_of_ne _ hyz.symm, herase _ hz]
        exact h.node p (a' ++ [y] ++ [o]) z b (by simpa using hq)
      refine ⟨_, _, linkNext_spec hny _, linkPrevious_spec hnz _, ?_, ?_, ?_, ?_⟩
      · rw [SortedMap.get?_insert_of_ne _ hz.symm, SortedMap.get?_insert_of_ne _ hy.symm, hgone]
      · intro a'' y' he
        obtain ⟨rfl, he⟩ := append_inj' he rfl
        obtain rfl : y = y' := by simpa using he
        rw [SortedMap.get?_insert_of_ne _ hyz, SortedMap.get?_insert_self]; rfl
      · intro z' b' he
        obtain ⟨rfl, rfl⟩ := List.cons.inj he
        rw [SortedMap.get?_insert_self]
        simp [nodeOf]
      · intro id hid hl hf
        rw [SortedMap.get?_insert_of_ne _ (fun e => hf (by simp [e])),
          SortedMap.get?_insert_of_ne _ (fun e => hl (by simp [e])), herase _ hid]

theorem Unlinked.node (h : Represents sd s q) {p : ℤ} {a b : List Order} {o : Order} (hq : q p = a ++ o :: b)
    (hu : Unlinked s.nodes nodes' p a o b) :
    ∀ p' c y d, update q p (a ++ b) p' = c ++ y :: d → nodes'.get? y.orderId = some (nodeOf p' c y d) := by
  obtain ⟨hao, hbo, hab⟩ := h.ids_split hq
  -- an order of the queue that is next to the removed one only if it is in `a` or `b`
  have hother : ∀ p' y, y ∈ q p' → y.orderId ≠ o.orderId → (∀ a' z, a = a' ++ [z] → y.orderId ≠ z.orderId) →
      (∀ z b', b = z :: b' → y.orderId ≠ z.orderId) →
      nodes'.get? y.orderId = s.nodes.get? y.orderId := by
    intro p' y _ hyo hl hf
    refine hu.other _ hyo ?_ ?_
    · intro e
      obtain ⟨a', z, ha, hz⟩ := lastId_eq_some e
      exact hl a' z ha hz.symm
    · intro e
      obtain ⟨z, b', hb, hz⟩ := firstId_eq_some e
      exact hf z b' hb hz.symm
  intro p' c y d hsplit
  by_cases hp : p' = p
  · subst hp
    rw [update_self] at hsplit
    rcases append_eq_append_iff.mp hsplit with ⟨m, rfl, hm⟩ | ⟨m, rfl, hm⟩
    · -- `y` is in `b`
      cases m with
      | nil => simpa using hu.after y d hm
      | cons z m =>
        have hqy : q p' = (a ++ o :: z :: m) ++ y :: d := by rw [hq, hm]; simp
        have hyb : y ∈ b := by rw [hm]; simp
        have hnd := (h.ids_split hqy).1
        rw [hother p' y (by rw [hqy]; simp) (hbo y hyb), h.node p' _ y d hqy]
        · simp [nodeOf, lastId]
        · intro a' w ha e
          exact hab w (by rw [ha]; simp) y hyb e.symm
        · intro w b' hb e
          rw [hm] at hb
          obtain ⟨rfl, -⟩ := List.cons.inj hb
          exact hnd z (by simp) e.symm
    · -- `y` is in `a`, or it is the first of `b`
      cases m with
      | nil =>
        rw [nil_append] at hm
        simpa using hu.after y d hm.symm
      | cons z m =>
        obtain ⟨rfl, rfl⟩ := List.cons.inj hm
        rcases eq_nil_or_concat' m with rfl | ⟨m', w, rfl⟩
        · exact hu.before c y rfl
        · have hqy : q p' = c ++ y :: (m' ++ [w] ++ o :: b) := by rw [hq]; simp
          have hnd := (h.ids_split hqy).2.1
          rw [hother p' y (by rw [hqy]; simp) (hao y (by simp)), h.node p' _ y _ hqy]
          · cases m' <;> simp [nodeOf]
          · intro a' u ha e
            have hu : u = w := by
              have ha' : (c ++ y :: m') ++ [w] = a' ++ [u] := by simpa using ha
              simpa using ((append_inj' ha' rfl).2).symm
            exact hnd w (by simp) (hu ▸ e.symm)
          · intro u b' hb e
            exact hnd u (by rw [hb]; simp) e.symm
  · rw [update_of_ne hp] at hsplit
    have hy : y ∈ q p' := by rw [hsplit]; simp
    have hne : ∀ z ∈ q p, y.orderId ≠ z.orderId := fun z hz e => hp (h.price_eq hy hz e)
    rw [hother p' y hy (hne o (by rw [hq]; simp)), h.node p' c y d hsplit]
    · intro a' z ha
      exact hne z (by rw [hq, ha]; simp)
    · intro z b' hb
      exact hne z (by rw [hq, hb]; simp)

/-- The level record of a queue once one order is out of it. -/
theorem level_removed (a : List Order) (o : Order) (b : List Order) :
    (if lastId a = none then firstId b else firstId (a ++ o :: b)) = firstId (a ++ b) ∧
    (if firstId b = none then lastId a else lastId (a ++ o :: b)) = lastId (a ++ b) := by
  constructor
  · cases a with
    | nil => simp
    | cons x a => rw [if_neg (by simp)]; rfl
  · cases b with
    | nil => simp
    | cons x b => rw [if_neg (by simp)]; simp [lastId]

theorem remove_spec (h : Represents sd s q) (hq : q p = a ++ o :: b) : ∃ s', s.remove sd o.orderId = .ok s' ∧
      Represents sd s' (update q p (a ++ b)) ∧
      s'.heap = (compact { s with levels := s'.levels } sd).heap := by
  have hnode : s.nodes.get? o.orderId = some (nodeOf p a o b) := h.node p a o b hq
  have hlevel : s.levels.getItem p = .ok ⟨firstId (a ++ o :: b), lastId (a ++ o :: b), queueQuantity (a ++ o :: b)⟩ :=
    SortedMap.getItem_of_get? (by rw [h.level, hq, levelOf_of_ne_nil (by simp)])
  obtain ⟨nodes, nodes', hn1, hn2, hu⟩ := relink_spec h hq
  obtain ⟨hhead, htail⟩ := level_removed a o b
  unfold remove
  simp only [hnode, nodeOf, hlevel, hn1, hn2, Py.bind_ok, hhead, htail, Py.pure_eq]
  refine ⟨_, rfl, represents_compact ⟨?_, hu.node h hq, ?_, ?_, h.heap, ?_⟩, ?_⟩
  · intro p'
    by_cases hp : p' = p
    · subst hp
      rw [update_self]
      by_cases hnil : a ++ b = []
      · rw [if_pos (firstId_eq_none.mpr hnil), SortedMap.get?_erase, if_pos rfl, hnil, levelOf_nil]
      · rw [if_neg (fun e => hnil (firstId_eq_none.mp e)), SortedMap.get?_insert_self,
          levelOf_of_ne_nil hnil, queueQuantity_split]
        simp
    · rw [update_of_ne hp, ← h.level]
      split
      · rw [SortedMap.get?_erase, if_neg hp]
      · rw [SortedMap.get?_insert_of_ne _ hp]
  · intro id nd hn
    have hold : ∃ nd', s.nodes.get? id = some nd' ∧ nd'.price = nd.price ∧ id ≠ o.orderId := by
      have hid : id ≠ o.orderId := fun e => by rw [e, hu.gone] at hn; cases hn
      by_cases hl : lastId a = some id
      · obtain ⟨a', y, rfl, rfl⟩ := lastId_eq_some hl
        rw [hu.before a' y rfl] at hn
        obtain rfl := Option.some.inj hn
        exact ⟨_, h.node p a' y (o :: b) (by simpa using hq), rfl, hid⟩
      · by_cases hf : firstId b = some id
        · obtain ⟨y, b', rfl, rfl⟩ := firstId_eq_some hf
          rw [hu.after y b' rfl] at hn
          obtain rfl := Option.some.inj hn
          exact ⟨_, h.node p (a ++ [o]) y b' (by simpa using hq), rfl, hid⟩
        · rw [hu.other id hid hl hf] at hn
          exact ⟨nd, hn, rfl, hid⟩
    obtain ⟨nd', hn', hprice, hid⟩ := hold
    obtain ⟨y, hy, hyid⟩ := h.indexed id nd' hn'
    rw [hprice] at hy
    refine ⟨y, ?_, hyid⟩
    by_cases hp : nd.price = p
    · rw [hp] at hy ⊢
      rw [update_self]
      rw [hq] at hy
      have : y ≠ o := fun e => hid (by rw [← hyid, e])
      simpa [this] using hy
    · rwa [update_of_ne hp]
  · refine nodup_update h.nodup ?_
    have hnd := h.nodup p
    rw [hq] at hnd
    exact hnd.sublist (((sublist_cons_self o b).append_left a).map _)
  · intro p' hne
    by_cases hp : p' = p
    · subst hp
      exact h.live p' (by rw [hq]; simp)
    · rw [update_of_ne hp] at hne
      exact h.live p' hne
  · simp only [compact]
    split <;> split <;> simp_all

/-! ### Taking part of an order -/

/-- Replacing an order by one of the same id keeps the neighbours of every other order. -/
theorem split_replaced (hid : o'.orderId = o.orderId) {c d : List Order} {y : Order} (h : a ++ o' :: b = c ++ y :: d)
    (hy : y.orderId ≠ o.orderId) : ∃ c' d', a ++ o :: b = c' ++ y :: d' ∧
      lastId c' = lastId c ∧ firstId d' = firstId d := by
  rcases append_eq_append_iff.mp h with ⟨m, rfl, hm⟩ | ⟨m, rfl, hm⟩
  · cases m with
    | nil => exact absurd (by rw [← (List.cons.inj hm).1, hid]) hy
    | cons z m =>
      obtain ⟨rfl, rfl⟩ := List.cons.inj hm
      refine ⟨a ++ o :: m, d, by simp, ?_, rfl⟩
      cases m with
      | nil => simp [hid]
      | cons w m => simp [lastId]
  · cases m with
    | nil => exact absurd (by rw [(List.cons.inj hm).1, hid]) hy
    | cons z m =>
      obtain ⟨rfl, rfl⟩ := List.cons.inj hm
      refine ⟨c, m ++ o :: b, by simp, rfl, ?_⟩
      cases m with
      | nil => simp [hid]
      | cons w m => rfl

theorem consume_part_spec (h : Represents sd s q) (hq : q p = a ++ o :: b) (hid : o'.orderId = o.orderId)
    {quantity : ℤ} (hrem : o'.remaining = o.remaining - quantity) (hpos : 0 < quantity) (hlt : quantity < o.remaining) :
    ∃ s', s.consume sd o.orderId quantity = .ok s' ∧ Represents sd s' (update q p (a ++ o' :: b)) := by
  have hnode := h.node p a o b hq
  have hlevel : s.levels.get? p = some ⟨firstId (a ++ o :: b), lastId (a ++ o :: b), queueQuantity (a ++ o :: b)⟩ := by
    rw [h.level, hq, levelOf_of_ne_nil (by simp)]
  unfold consume
  simp only [SortedMap.getItem_of_get? hnode, Py.bind_ok, nodeOf, hlt.ne, if_false, hpos, hlt,
    and_self, if_true, SortedMap.getItem_of_get? hlevel, Py.pure_eq]
  refine ⟨_, rfl, ?_, ?_, ?_, nodup_update h.nodup ?_, h.heap, ?_⟩
  · intro p'
    rw [SortedMap.get?_insert]
    rcases eq_or_ne p' p with rfl | hp
    · rw [update_self, if_pos rfl, levelOf_of_ne_nil (by simp)]
      congr 2
      · cases a <;> simp [hid]
      · cases b <;> simp [lastId, hid]
      · rw [queueQuantity_split, queueQuantity_split, hrem]; ring
    · rw [if_neg hp, update_of_ne hp, h.level]
  · intro p' c y d hsplit
    rcases eq_or_ne p' p with rfl | hp
    · rw [update_self] at hsplit
      by_cases hy : y.orderId = o.orderId
      · have hnd : ((a ++ o' :: b).map Order.orderId).Nodup := by
          have := h.nodup p'
          rw [hq] at this
          simpa [hid] using this
        obtain ⟨rfl, rfl, rfl⟩ := split_unique hnd rfl hsplit (by rw [hid, hy])
        rw [hid, SortedMap.get?_insert_self, nodeOf, hrem]
      · obtain ⟨c', d', hold, hc, hd⟩ := split_replaced hid hsplit hy
        rw [SortedMap.get?_insert_of_ne _ hy, h.node p' c' y d' (hq.trans hold), nodeOf, nodeOf, hc, hd]
    · rw [update_of_ne hp] at hsplit
      have hy : y.orderId ≠ o.orderId := fun e => hp (h.price_eq (by rw [hsplit]; simp) (by rw [hq]; simp) e)
      rw [SortedMap.get?_insert_of_ne _ hy, h.node p' c y d hsplit]
  · intro id nd hn
    by_cases hido : id = o.orderId
    · subst hido
      rw [SortedMap.get?_insert_self] at hn
      obtain rfl := Option.some.inj hn
      exact ⟨o', by simp, hid⟩
    · rw [SortedMap.get?_insert_of_ne _ hido] at hn
      obtain ⟨y, hy, rfl⟩ := h.indexed id nd hn
      refine ⟨y, ?_, rfl⟩
      rcases eq_or_ne nd.price p with hp | hp
      · rw [hp, hq] at hy
        rw [hp, update_self]
        have : y ≠ o := fun e => hido (by rw [e])
        rcases mem_append.mp hy with hy | hy
        · simp [hy]
        · simp [(mem_cons.mp hy).resolve_left this]
      · rwa [update_of_ne hp]
  · have hnd := h.nodup p
    rw [hq] at hnd
    simpa [hid] using hnd
  · intro p' hne
    rcases eq_or_ne p' p with rfl | hp
    · exact h.live p' (by rw [hq]; simp)
    · rw [update_of_ne hp] at hne
      exact h.live p' hne

theorem consume_all (h : Represents sd s q) (hq : q p = a ++ o :: b) :
    s.consume sd o.orderId o.remaining = s.remove sd o.orderId := by
  simp [consume, SortedMap.getItem_of_get? (h.node p a o b hq), nodeOf]

/-! ### The best price -/

/-- The head of the queue with the smallest signed price. -/
def IsBest (sd : Side) (q : Queues) : Option String → Prop
  | none => ∀ p, q p = []
  | some id => ∃ p o b, q p = o :: b ∧ o.orderId = id ∧
      ∀ p', q p' ≠ [] → p * sd.sign ≤ p' * sd.sign

theorem bestLoop_spec (h : Represents sd s q) (n : ℕ) {heap : List ℤ} (hn : heap.length ≤ n)
    (hheap : Heapq.IsHeap heap) (hlive : ∀ p, q p ≠ [] → p * sd.sign ∈ heap) :
    Heapq.IsHeap (bestLoop sd s.levels n heap).1 ∧ (∀ p, q p ≠ [] → p * sd.sign ∈ (bestLoop sd s.levels n heap).1) ∧
      IsBest sd q (bestLoop sd s.levels n heap).2 := by
  have hempty : (∀ p, q p ≠ [] → p * sd.sign ∈ ([] : List ℤ)) → ∀ p, q p = [] := by
    intro hl p
    by_contra hne
    exact absurd (hl p hne) not_mem_nil
  induction n generalizing heap with
  | zero =>
    obtain rfl : heap = [] := length_eq_zero_iff.mp (Nat.le_zero.mp hn)
    exact ⟨hheap, hlive, hempty hlive⟩
  | succ n ih =>
    cases heap with
    | nil => exact ⟨hheap, hlive, hempty hlive⟩
    | cons top rest =>
      have hround : ∀ v : ℤ, v * sd.sign * sd.sign = v := by
        intro v; rw [mul_assoc, sd.sign_mul_sign, mul_one]
      simp only [bestLoop]
      cases hlev : s.levels.get? (top * sd.sign) with
      | some level =>
        refine ⟨hheap, hlive, ?_⟩
        rw [h.level] at hlev
        have hne : q (top * sd.sign) ≠ [] := fun e => by rw [e] at hlev; cases hlev
        rw [levelOf_of_ne_nil hne] at hlev
        obtain rfl := Option.some.inj hlev
        obtain ⟨o, b, hob⟩ := exists_cons_of_ne_nil hne
        simp only [hob, firstId_cons]
        refine ⟨_, o, b, hob, rfl, ?_⟩
        intro p' hp'
        rw [hround]
        exact hheap.head_le rfl _ (hlive p' hp')
      | none =>
        obtain ⟨rest', hpop, hheap', hperm⟩ := Heapq.heappop_spec hheap
        simp only [hpop]
        refine ih ?_ hheap' ?_
        · have := hperm.length_eq
          simp only [length_cons] at hn
          omega
        · intro p hp
          have hne : p * sd.sign ≠ top := by
            intro e
            rw [← e, hround, h.level, levelOf_of_ne_nil hp] at hlev
            cases hlev
          have := hlive p hp
          rw [mem_cons] at this
          exact hperm.mem_iff.mpr (this.resolve_left hne)

theorem best_spec (h : Represents sd s q) : Represents sd (s.best sd).1 q ∧ IsBest sd q (s.best sd).2 := by
  obtain ⟨hheap, hlive, hbest⟩ := bestLoop_spec h s.heap.length le_rfl h.heap h.live
  exact ⟨⟨h.level, h.node, h.indexed, h.nodup, hheap, hlive⟩, hbest⟩

end BookSide

end SystemDesign.StockExchange
