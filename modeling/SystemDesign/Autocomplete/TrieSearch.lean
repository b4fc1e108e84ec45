import SystemDesign.Autocomplete.TrieNodes

/-!
Suggestions are what a scan finds.

Of every allowed item of the searched node either it is among the best, or five of the best are before it, or it is below a
pending node whose bound is not behind it (`Search`). Every round takes a node away, so the search ends.
-/

namespace SystemDesign.Autocomplete

open List hiding le_antisymm le_trans
open Heapq Smallest

variable {blocked : Text → Bool} {p p' : Pending} {best : List Match} {items : List Match}

/-! ### Bounds -/

variable {item : Match} {node : Node}

/-- The bound of a node is not behind any allowed item of it. -/
theorem availableBound_le (h : node.Cached) (hmem : item ∈ node.all) (hallowed : blocked item.query = false) :
    ∃ bound, availableBound node blocked = some bound ∧ bound ≤ item := by
  have htop := h.top_eq
  have hsorted : node.top.Pairwise (· ≤ ·) := by
    rw [htop]
    exact pairwise_smallest ..
  have hbeaten (hnot : item ∉ node.top) : topLimit ≤ (node.top.filter (· < item)).length := by
    rw [htop] at hnot ⊢
    exact beaten_smallest.mpr (beaten_of_not_mem hmem hnot)
  unfold availableBound
  cases hfind : node.top.find? fun item => !blocked item.query with
  | some first =>
    refine ⟨first, rfl, ?_⟩
    obtain ⟨-, front, back, hsplit, hfront⟩ := find?_eq_some_iff_append.mp hfind
    rw [hsplit, pairwise_append, pairwise_cons] at hsorted
    by_cases hin : item ∈ node.top
    · rw [hsplit] at hin
      rcases mem_append.mp hin with hin | hin
      · have := hfront item hin
        simp [hallowed] at this
      · rcases mem_cons.mp hin with rfl | hin
        · exact le_rfl
        · exact hsorted.2.1.1 item hin
    · -- the whole list is before the item
      have hlength := hbeaten hin
      have hall : node.top.filter (· < item) = node.top := by
        refine filter_sublist.eq_of_length_le ?_
        refine le_trans ?_ hlength
        rw [htop]
        exact length_smallest_le ..
      have hlt := (filter_eq_self.mp hall) first (mem_of_find?_eq_some hfind)
      exact (of_decide_eq_true hlt).le
  | none =>
    have hin : item ∉ node.top := fun hin => by
      have := find?_eq_none.mp hfind item hin
      simp [hallowed] at this
    have hlength := hbeaten hin
    have hfull : node.top.length = topLimit := by
      refine le_antisymm ?_ (hlength.trans (length_filter_le ..))
      rw [htop]
      exact length_smallest_le ..
    dsimp only
    rw [if_pos hfull]
    have hall : node.top.filter (· < item) = node.top := filter_sublist.eq_of_length_le (hfull.le.trans hlength)
    obtain ⟨init, last, hlast⟩ := (eq_nil_or_concat' node.top).resolve_left fun hnil => by
      rw [hnil] at hfull
      exact absurd hfull (by decide)
    rw [hlast, getLast?_concat]
    refine ⟨last, rfl, ?_⟩
    have hlt := (filter_eq_self.mp hall) last (by rw [hlast]; exact mem_append_right _ mem_cons_self)
    exact (of_decide_eq_true hlt).le

/-! ### Candidates -/

theorem mem_itemsOf {candidates : Dict Text ℕ} :
    item ∈ itemsOf candidates ↔ candidates.get? item.query = some item.count := by
  rw [itemsOf, mem_map, ← Dict.mem_entries]
  constructor
  · rintro ⟨entry, hentry, rfl⟩
    exact hentry
  · exact fun h => ⟨_, h, rfl⟩

theorem nodup_itemsOf (candidates : Dict Text ℕ) : (itemsOf candidates).Nodup := by
  refine Nodup.of_map Match.query ?_
  rw [itemsOf, map_map]
  exact candidates.nodup

/-- Where a query has one count, a dictionary of items is a set of them. -/
theorem mem_foldl_record (hunique : (items.map Match.query).Nodup) (news : List Match) (candidates : Dict Text ℕ)
    (hold : itemsOf candidates ⊆ items) (hnew : news ⊆ items) :
    item ∈ itemsOf (news.foldl record candidates) ↔ item ∈ itemsOf candidates ∨ item ∈ news := by
  induction news generalizing candidates with
  | nil => simp
  | cons first news ih =>
    have hfirst : first ∈ items := hnew mem_cons_self
    have hset {other : Match} : other ∈ itemsOf (record candidates first) ↔ other ∈ itemsOf candidates ∨ other = first := by
      rw [mem_itemsOf, record]
      by_cases heq : other.query = first.query
      · rw [heq, Dict.get?_set_self]
        constructor
        · intro hcount
          refine .inr ?_
          obtain ⟨query, count⟩ := other
          obtain ⟨query', count'⟩ := first
          simp only [Option.some.injEq] at hcount heq
          rw [heq, hcount]
        · rintro (hmem | rfl)
          · rw [inj_on_of_nodup_map hunique (hold hmem) hfirst heq]
          · rfl
      · rw [Dict.get?_set_of_ne _ heq, mem_itemsOf]
        exact ⟨.inl, fun h => h.resolve_right fun hsame => heq (congrArg Match.query hsame)⟩
    rw [foldl_cons, ih _ (fun other hother => (hset.mp hother).elim (fun h => hold h) fun h => h ▸ hfirst)
      (fun other hother => hnew (mem_cons_of_mem _ hother)), hset, mem_cons, or_assoc]

theorem mem_candidatesOf (hunique : (items.map Match.query).Nodup) (hbest : best ⊆ items) (htop : node.top ⊆ items)
    (hterminal : node.terminal.toList ⊆ items) :
    item ∈ candidatesOf best blocked node ↔
      item ∈ best ∨ ((item ∈ node.top ∨ item ∈ node.terminal.toList) ∧ blocked item.query = false) := by
  have hnews : best ++ (node.top ++ node.terminal.toList).filter (fun item => !blocked item.query) ⊆ items := by
    refine append_subset.mpr ⟨hbest, fun other hother => ?_⟩
    exact (append_subset.mpr ⟨htop, hterminal⟩) (mem_of_mem_filter hother)
  rw [candidatesOf, mem_foldl_record hunique _ _ (fun _ h => absurd h not_mem_nil) hnews, mem_append,
    mem_filter, mem_append, Bool.not_eq_true']
  exact or_iff_right not_mem_nil

/-! ### Pushing -/

/-- The number of nodes below the pending ones. -/
def Pending.weight (p : Pending) : ℕ := (p.heap.map fun key => (p.nodes[(ofLex key).2]?).elim 0 Tree.size).sum

/-- Every key of the heap has its node. -/
structure Pending.Valid (p : Pending) : Prop where
  heap : IsHeap p.heap
  known : ∀ key ∈ p.heap, (ofLex key).2 < p.nodes.length

/-- What pushing some nodes changes. -/
structure Pushed (blocked : Text → Bool) (cutoff : Option Match) (p p' : Pending) (nodes : List Node) : Prop where
  valid : p'.Valid
  kept : ∀ key ∈ p.heap, key ∈ p'.heap
  front : p.nodes <+: p'.nodes
  origin : ∀ key ∈ p'.heap, key ∈ p.heap ∨ ∃ node ∈ nodes, p'.nodes[(ofLex key).2]? = some node
  bounds : ∀ node ∈ nodes, ∀ bound, availableBound node blocked = some bound → cutoff.all (bound < ·) = true →
    ∃ key ∈ p'.heap, (ofLex key).1 = bound ∧ p'.nodes[(ofLex key).2]? = some node
  weight : p'.weight ≤ p.weight + (nodes.map Tree.size).sum

theorem getElem?_of_front {α : Type} {front whole : List α} (h : front <+: whole) {i : ℕ} (hi : i < front.length) :
    whole[i]? = front[i]? := by
  obtain ⟨rest, rfl⟩ := h
  exact getElem?_append_left hi

theorem push_weight (h : p.Valid) (bound : Match) (node : Node) : (p.push bound node).weight = node.size + p.weight := by
  obtain ⟨-, hperm⟩ := heappush_spec h.heap (toLex (bound, p.nodes.length))
  have hold : p.heap.map (fun key => ((p.nodes ++ [node])[(ofLex key).2]?).elim 0 Tree.size) =
      p.heap.map (fun key => (p.nodes[(ofLex key).2]?).elim 0 Tree.size) := by
    refine map_congr_left fun key hkey => ?_
    rw [getElem?_append_left (h.known key hkey)]
  show ((heappush p.heap _).map fun key => ((p.nodes ++ [node])[(ofLex key).2]?).elim 0 Tree.size).sum = _
  rw [(hperm.map _).sum_eq, map_cons, sum_cons, hold]
  show ((p.nodes ++ [node])[p.nodes.length]?).elim 0 Tree.size + _ = _
  rw [getElem?_concat_length]
  rfl

theorem pushChild_spec (blocked : Text → Bool) (h : p.Valid) (cutoff : Option Match) (node : Node) :
    Pushed blocked cutoff p (pushChild blocked cutoff p node) [node] := by
  have hsame (hnone : ∀ bound, availableBound node blocked = some bound → cutoff.all (bound < ·) = true → False) :
      Pushed blocked cutoff p p [node] := {
    valid := h
    kept := fun _ hkey => hkey
    front := prefix_refl _
    origin := fun _ hkey => .inl hkey
    bounds := fun other hother bound hbound hcutoff => by
      rw [mem_singleton.mp hother] at hbound
      exact absurd hcutoff fun hcutoff => hnone bound hbound hcutoff
    weight := Nat.le_add_right .. }
  unfold pushChild
  split
  · rename_i hbound
    exact hsame fun bound hbound' => by rw [hbound] at hbound'; cases hbound'
  · rename_i bound hbound
    split
    · obtain ⟨hheap, hperm⟩ := heappush_spec h.heap (toLex (bound, p.nodes.length))
      exact {
        valid := ⟨hheap, fun key hkey => by
          show (ofLex key).2 < (p.nodes ++ [node]).length
          rw [length_append, length_singleton]
          rcases mem_cons.mp (hperm.mem_iff.mp hkey) with rfl | hkey
          · exact Nat.lt_succ_self _
          · exact (h.known key hkey).trans (Nat.lt_succ_self _)⟩
        kept := fun key hkey => hperm.mem_iff.mpr (mem_cons_of_mem _ hkey)
        front := prefix_append ..
        origin := fun key hkey => by
          rcases mem_cons.mp (hperm.mem_iff.mp hkey) with rfl | hkey
          · exact .inr ⟨node, mem_cons_self, getElem?_concat_length ..⟩
          · exact .inl hkey
        bounds := fun other hother bound' hbound' _ => by
          rw [mem_singleton.mp hother] at hbound' ⊢
          obtain rfl : bound = bound' := Option.some.inj (hbound.symm.trans hbound')
          exact ⟨_, hperm.mem_iff.mpr mem_cons_self, rfl, getElem?_concat_length ..⟩
        weight := by
          rw [push_weight h, map_singleton, sum_singleton]
          exact (Nat.add_comm ..).le }
    · rename_i hcutoff
      exact hsame fun bound' hbound' hcutoff' => by
        obtain rfl : bound = bound' := Option.some.inj (hbound.symm.trans hbound')
        exact hcutoff hcutoff'

theorem pushAll_spec (blocked : Text → Bool) (cutoff : Option Match) (nodes : List Node) (h : p.Valid) :
    Pushed blocked cutoff p (nodes.foldl (pushChild blocked cutoff) p) nodes := by
  induction nodes generalizing p with
  | nil => exact ⟨h, fun _ hkey => hkey, prefix_refl _, fun _ hkey => .inl hkey,
      fun _ hmem => absurd hmem not_mem_nil, Nat.le_add_right ..⟩
  | cons node nodes ih =>
    have hfirst := pushChild_spec blocked h cutoff node
    have hrest := ih hfirst.valid
    rw [foldl_cons]
    exact {
      valid := hrest.valid
      kept := fun key hkey => hrest.kept key (hfirst.kept key hkey)
      front := hfirst.front.trans hrest.front
      origin := fun key hkey => by
        rcases hrest.origin key hkey with hkey | ⟨other, hother, hnode⟩
        · refine (hfirst.origin key hkey).imp id fun ⟨other, hother, hnode⟩ => ?_
          obtain rfl := mem_singleton.mp hother
          refine ⟨other, mem_cons_self, ?_⟩
          rw [getElem?_of_front hrest.front (hfirst.valid.known key hkey), hnode]
        · exact .inr ⟨other, mem_cons_of_mem _ hother, hnode⟩
      bounds := fun other hother bound hbound hcutoff => by
        rcases mem_cons.mp hother with rfl | hother
        · obtain ⟨key, hkey, hsame, hnode⟩ := hfirst.bounds other mem_cons_self bound hbound hcutoff
          refine ⟨key, hrest.kept key hkey, hsame, ?_⟩
          rw [getElem?_of_front hrest.front (hfirst.valid.known key hkey), hnode]
        · exact hrest.bounds other hother bound hbound hcutoff
      weight := by
        have hweight := hfirst.weight
        have := hrest.weight
        rw [map_singleton, sum_singleton] at hweight
        rw [map_cons, sum_cons]
        omega }

/-! ### The loop -/

/-- The search among `items`. -/
structure Search (items : List Match) (blocked : Text → Bool) (p : Pending) (best : List Match) : Prop where
  valid : p.Valid
  nodes : ∀ key ∈ p.heap, ∀ node, p.nodes[(ofLex key).2]? = some node → node.Cached ∧ node.all ⊆ items
  nodup : best.Nodup
  sorted : best.Pairwise (· ≤ ·)
  short : best.length ≤ topLimit
  allowed : ∀ item ∈ best, item ∈ items ∧ blocked item.query = false
  covered : ∀ item ∈ items, blocked item.query = false → (item ∈ best ∨ Beaten topLimit best item) ∨
    ∃ key ∈ p.heap, ∃ node, p.nodes[(ofLex key).2]? = some node ∧ item ∈ node.all ∧ (ofLex key).1 ≤ item

/-- With nothing left to search the best are what a scan finds. -/
theorem Search.finish (hunique : items.Nodup) (h : Search items blocked p best)
    (hdone : ∀ item ∈ items, blocked item.query = false → item ∈ best ∨ Beaten topLimit best item) :
    best = ranked (items.filter fun item => !blocked item.query) := by
  rw [← smallest_of_sorted h.sorted h.short]
  refine smallest_eq_of_covered h.nodup (hunique.filter _) (fun item hmem => ?_) fun item hmem => ?_
  · obtain ⟨hin, hallowed⟩ := h.allowed item hmem
    exact mem_filter.mpr ⟨hin, by rw [hallowed]; rfl⟩
  · obtain ⟨hin, hallowed⟩ := mem_filter.mp hmem
    exact hdone item hin (by simpa using hallowed)

theorem Search.finish_nil (hunique : items.Nodup) (h : Search items blocked p best) (hnil : p.heap = []) :
    best = ranked (items.filter fun item => !blocked item.query) := by
  refine h.finish hunique fun item hmem hallowed => (h.covered item hmem hallowed).resolve_right ?_
  rintro ⟨key, hkey, -⟩
  exact absurd (hnil ▸ hkey) not_mem_nil

/-- Behind the last of a full list there is nothing to find. -/
theorem beaten_of_full (hsorted : best.Pairwise (· ≤ ·)) {last : Match} (hfull : full best = some last)
    (hle : last ≤ item) : item ∈ best ∨ Beaten topLimit best item := by
  by_cases hin : item ∈ best
  · exact .inl hin
  · unfold full at hfull
    split at hfull
    · rename_i hlength
      exact .inr (beaten_of_last_le hsorted hlength.ge hfull hle hin)
    · cases hfull

theorem Tree.mem_all_cases (h : item ∈ node.all) :
    item ∈ node.terminal.toList ∨ ∃ child ∈ node.children.nodes, item ∈ child.all := by
  cases node
  exact (mem_append.mp h).imp id Forest.mem_all.mp

theorem Tree.terminal_subset (node : Node) : node.terminal.toList ⊆ node.all := by
  cases node
  exact subset_append_left ..

/-- One round: the items of the node are taken, and its children are pushed. -/
theorem Search.round (hunique : (items.map Match.query).Nodup) (h : Search items blocked p best) {key : Match ×ₗ ℕ}
    {heap : List (Match ×ₗ ℕ)} (hheap : IsHeap heap) (hperm : p.heap.Perm (key :: heap))
    (hnode : p.nodes[(ofLex key).2]? = some node) :
    Search items blocked (node.children.nodes.foldl
      (pushChild blocked (full (ranked (candidatesOf best blocked node)))) { p with heap })
      (ranked (candidatesOf best blocked node)) := by
  have hkey : key ∈ p.heap := hperm.mem_iff.mpr mem_cons_self
  obtain ⟨hcached, hsub⟩ := h.nodes key hkey node hnode
  have htop : node.top ⊆ items := fun item hmem => hsub (mem_of_mem_smallest (hcached.top_eq ▸ hmem))
  have hcandidates {item : Match} : item ∈ candidatesOf best blocked node ↔
      item ∈ best ∨ ((item ∈ node.top ∨ item ∈ node.terminal.toList) ∧ blocked item.query = false) := mem_candidatesOf hunique
    (fun item hmem => (h.allowed item hmem).1) htop (fun item hmem => hsub (node.terminal_subset hmem))
  have hnodup : (candidatesOf best blocked node).Nodup := nodup_itemsOf _
  have hvalid : Pending.Valid { p with heap } :=
    ⟨hheap, fun key hmem => h.valid.known key (hperm.mem_iff.mpr (mem_cons_of_mem _ hmem))⟩
  have hpushed := pushAll_spec blocked (full (ranked (candidatesOf best blocked node))) node.children.nodes hvalid
  -- a candidate is among the new best or beaten by them, and so is what was beaten before
  have htake {item : Match} (hmem : item ∈ candidatesOf best blocked node) :
      item ∈ ranked (candidatesOf best blocked node) ∨ Beaten topLimit (ranked (candidatesOf best blocked node)) item := by
    by_cases hin : item ∈ ranked (candidatesOf best blocked node)
    · exact .inl hin
    · exact .inr (beaten_smallest.mpr (beaten_of_not_mem hmem hin))
  have hbeaten {item : Match} (hbeat : Beaten topLimit best item) :
      Beaten topLimit (ranked (candidatesOf best blocked node)) item :=
    beaten_smallest.mpr (hbeat.mono h.nodup fun other hother => hcandidates.mpr (.inl hother))
  exact {
    valid := hpushed.valid
    nodes := fun key' hmem other hother => by
      rcases hpushed.origin key' hmem with hold | ⟨child, hchild, hnode'⟩
      · refine h.nodes key' (hperm.mem_iff.mpr (mem_cons_of_mem _ hold)) other ?_
        rw [← hother, getElem?_of_front hpushed.front (hvalid.known key' hold)]
      · obtain rfl : child = other := Option.some.inj (hnode'.symm.trans hother)
        refine ⟨hcached.children.nodes child hchild, fun item hitem => hsub ?_⟩
        exact node.children_sublist.subset (Forest.mem_all.mpr ⟨child, hchild, hitem⟩)
    nodup := nodup_smallest hnodup
    sorted := pairwise_smallest ..
    short := length_smallest_le ..
    allowed := fun item hmem => by
      rcases hcandidates.mp (mem_of_mem_smallest hmem) with hold | ⟨hnew, hallowed⟩
      · exact h.allowed item hold
      · exact ⟨hnew.elim (fun hmem => htop hmem) fun hmem => hsub (node.terminal_subset hmem), hallowed⟩
    covered := fun item hmem hallowed => by
      rcases h.covered item hmem hallowed with (hin | hbeat) | ⟨key', hkey', other, hother, hitem, hle⟩
      · exact .inl (htake (hcandidates.mpr (.inl hin)))
      · exact .inl (.inr (hbeaten hbeat))
      · rcases mem_cons.mp (hperm.mem_iff.mp hkey') with rfl | hkey'
        · obtain rfl : node = other := Option.some.inj (hnode.symm.trans hother)
          rcases Tree.mem_all_cases hitem with hterminal | ⟨child, hchild, hitem'⟩
          · exact .inl (htake (hcandidates.mpr (.inr ⟨.inr hterminal, hallowed⟩)))
          · obtain ⟨bound, hbound, hle'⟩ := availableBound_le (hcached.children.nodes child hchild) hitem' hallowed
            by_cases hcutoff : (full (ranked (candidatesOf best blocked node))).all (bound < ·) = true
            · obtain ⟨key'', hmem'', hsame, hnode''⟩ := hpushed.bounds child hchild bound hbound hcutoff
              exact .inr ⟨key'', hmem'', child, hnode'', hitem', hsame ▸ hle'⟩
            · cases hfull : full (ranked (candidatesOf best blocked node)) with
              | none =>
                rw [hfull] at hcutoff
                exact absurd rfl hcutoff
              | some last =>
                rw [hfull] at hcutoff
                have hle'' : last ≤ bound := by simpa using hcutoff
                exact .inl (beaten_of_full (pairwise_smallest ..) hfull (hle''.trans hle'))
        · refine .inr ⟨key', hpushed.kept key' hkey', other, ?_, hitem, hle⟩
          rw [getElem?_of_front hpushed.front (hvalid.known key' hkey'), hother] }

theorem Forest.sum_size : ∀ forest : Forest τ, (forest.nodes.map Tree.size).sum = forest.size
  | .nil => rfl
  | .cons _ child rest => by
    rw [Forest.nodes, map_cons, sum_cons, Forest.sum_size rest, Forest.size]

theorem Tree.size_eq (node : Node) : node.size = (node.children.nodes.map Tree.size).sum + 1 := by
  cases node
  rw [Tree.size, Tree.children, Forest.sum_size]

/-- The search ends, with what a scan finds. -/
theorem refill_spec (hunique : (items.map Match.query).Nodup) (fuel : ℕ) (hfuel : p.weight ≤ fuel)
    (h : Search items blocked p best) :
    refill blocked fuel p best = some (ranked (items.filter fun item => !blocked item.query)) := by
  have hnodup : items.Nodup := Nodup.of_map _ hunique
  induction fuel generalizing p best with
  | zero =>
    have hnil : p.heap = [] := by
      rw [eq_nil_iff_forall_not_mem]
      intro key hkey
      have hpos : 0 < (p.nodes[(ofLex key).2]?).elim 0 Tree.size := by
        rw [getElem?_eq_getElem (h.valid.known key hkey)]
        show 0 < Tree.size _
        rw [Tree.size_eq]
        exact Nat.succ_pos _
      have hle := single_le_sum (fun _ _ => Nat.zero_le _) _
        (mem_map_of_mem (f := fun key => (p.nodes[(ofLex key).2]?).elim 0 Tree.size) hkey)
      have : p.weight = 0 := Nat.le_zero.mp hfuel
      rw [Pending.weight] at this
      omega
    rw [refill, if_pos hnil, h.finish_nil hnodup hnil]
  | succ fuel ih =>
    rw [refill]
    rcases heappop_cases h.valid.heap with ⟨hnil, hpop⟩ | ⟨key, heap, hpop, hheap, hperm, hleast, -⟩
    · rw [hpop, h.finish_nil hnodup hnil]
    · rw [hpop]
      dsimp only
      have hkey : key ∈ p.heap := hperm.mem_iff.mpr mem_cons_self
      split
      · rename_i hstop
        cases hfull : full best with
        | none =>
          rw [hfull] at hstop
          cases hstop
        | some last =>
          rw [hfull] at hstop
          have hle : last ≤ (ofLex key).1 := by simpa using hstop
          refine congrArg some (h.finish hnodup fun item hmem hallowed => ?_)
          rcases h.covered item hmem hallowed with hin | ⟨key', hkey', -, -, -, hle'⟩
          · exact hin
          · have hbound : (ofLex key).1 ≤ (ofLex key').1 :=
              (Prod.Lex.le_iff.mp (hleast key' hkey')).elim (fun hlt => hlt.le) fun heq => heq.1.le
            exact beaten_of_full h.sorted hfull ((hle.trans hbound).trans hle')
      · have hindex := h.valid.known key hkey
        rw [getElem?_eq_getElem hindex]
        dsimp only
        have hnode : p.nodes[(ofLex key).2]? = some p.nodes[(ofLex key).2] := getElem?_eq_getElem hindex
        have hround := h.round hunique hheap hperm hnode
        have hvalid : Pending.Valid { p with heap } :=
          ⟨hheap, fun key hmem => h.valid.known key (hperm.mem_iff.mpr (mem_cons_of_mem _ hmem))⟩
        have hweight := (pushAll_spec blocked (full (ranked (candidatesOf best blocked p.nodes[(ofLex key).2])))
          p.nodes[(ofLex key).2].children.nodes hvalid).weight
        have hsplit : p.weight = p.nodes[(ofLex key).2].size + Pending.weight { p with heap } := by
          rw [Pending.weight, (hperm.map _).sum_eq, map_cons, sum_cons, hnode]
          rfl
        have hsize := Tree.size_eq p.nodes[(ofLex key).2]
        exact ih (by omega) hround

/-- `_filtered_top` of any published node. -/
theorem filteredTop_spec (hcached : node.Cached) (hunique : (node.all.map Match.query).Nodup) (blocked : Text → Bool) :
    filteredTop node blocked = some (ranked (node.all.filter fun item => !blocked item.query)) := by
  have hempty : Pending.Valid ⟨[], []⟩ := ⟨isHeap_nil, fun _ hkey => absurd hkey not_mem_nil⟩
  have hpushed := pushChild_spec blocked hempty none node
  refine refill_spec hunique node.size ?_ {
    valid := hpushed.valid
    nodes := fun key hkey other hother => ?_
    nodup := nodup_nil
    sorted := List.Pairwise.nil
    short := Nat.zero_le _
    allowed := fun _ hmem => absurd hmem not_mem_nil
    covered := fun item hmem hallowed => ?_ }
  · refine hpushed.weight.trans ?_
    rw [map_singleton, sum_singleton]
    exact (Nat.zero_add _).le
  · obtain ⟨child, hchild, hnode⟩ := (hpushed.origin key hkey).resolve_left not_mem_nil
    obtain rfl : child = other := Option.some.inj (hnode.symm.trans hother)
    rw [mem_singleton.mp hchild]
    exact ⟨hcached, fun _ hmem => hmem⟩
  · obtain ⟨bound, hbound, hle⟩ := availableBound_le hcached hmem hallowed
    obtain ⟨key, hkey, hsame, hnode⟩ := hpushed.bounds node mem_cons_self bound hbound rfl
    exact .inr ⟨key, hkey, node, hnode, hmem, hsame ▸ hle⟩

/-- Where no cached item is blocked the cache is what a scan finds. -/
theorem ranked_of_free (items : List Match) (hnodup : items.Nodup)
    (hfree : ∀ item ∈ ranked items, blocked item.query = false) :
    ranked items = ranked (items.filter fun item => !blocked item.query) := by
  refine (smallest_ext hnodup (hnodup.filter _) fun item => ?_)
  rw [mem_smallest, mem_smallest, mem_filter]
  constructor
  · rintro ⟨hmem, hnot⟩
    have hallowed := hfree item (mem_smallest.mpr ⟨hmem, hnot⟩)
    exact ⟨⟨hmem, by rw [hallowed]; rfl⟩, fun hbeat => hnot (hbeat.mono (hnodup.filter _) filter_sublist.subset)⟩
  · rintro ⟨⟨hmem, -⟩, hnot⟩
    refine ⟨hmem, fun hbeat => hnot ?_⟩
    -- the five before it are the cached ones
    have hbest : Beaten topLimit (ranked items) item := beaten_smallest.mpr hbeat
    refine hbest.mono (nodup_smallest hnodup) fun other hother => ?_
    refine mem_filter.mpr ⟨mem_of_mem_smallest hother, ?_⟩
    rw [hfree other hother]
    rfl

/-- For a prefix that is not empty the suggestions are the five best allowed queries that begin with it. -/
theorem suggest_exact (frequencies : List Match) (pfx p : Text) (blocked : Text → Bool)
    (hdistinct : (frequencies.map Match.query).Nodup)
    (hvalid : ∀ item ∈ frequencies, normalize item.query false = .ok item.query ∧ 0 < item.count)
    (hnormal : normalize pfx true = .ok p) :
    ∃ root, build frequencies = .ok root ∧ (p ≠ [] → suggest root pfx blocked =
      .ok (some (ranked (frequencies.filter fun item => p.isPrefixOf item.query && !blocked item.query)))) ∧
      (p = [] → suggest root pfx blocked = .ok (some [])) := by
  obtain ⟨root, hbuild, hrooted, hperm, hcached⟩ := build_spec hdistinct hvalid
  refine ⟨root, hbuild, fun hne => ?_, fun hnil => ?_⟩
  · have hunique : (root.all.map Match.query).Nodup := (hperm.map _).nodup_iff.mpr hdistinct
    have hscan : ranked (frequencies.filter fun item => p.isPrefixOf item.query && !blocked item.query) =
        ranked ((root.all.filter fun item => p.isPrefixOf item.query).filter fun item => !blocked item.query) := by
      rw [filter_filter]
      refine smallest_congr topLimit ((hperm.symm.filter _).trans (Perm.of_eq ?_))
      exact filter_congr fun item _ => Bool.and_comm ..
    have hwalk := walk_spec p hrooted
    rw [nil_append] at hwalk
    rw [hscan, hwalk, suggest, hnormal, Py.bind_ok, if_neg hne]
    cases hfound : walk p root with
    | none =>
      have hempty : ranked [] = [] := smallest_of_sorted List.Pairwise.nil (Nat.zero_le _)
      show Except.ok (some []) = Except.ok (some (ranked []))
      rw [hempty]
    | some node =>
      have hnode := walk_cached p hcached hfound
      rw [hfound] at hwalk
      have hnode' : (node.all.map Match.query).Nodup := by
        show ((((some node).map Tree.all).getD []).map Match.query).Nodup
        rw [← hwalk]
        exact hunique.sublist (filter_sublist.map _)
      show (if _ then _ else _) = Except.ok (some (ranked (node.all.filter _)))
      split
      · rename_i hfree
        rw [← ranked_of_free node.all (Nodup.of_map _ hnode'), ← hnode.top_eq]
        · rfl
        · intro item hmem
          rw [← hnode.top_eq] at hmem
          by_contra hblocked
          exact hfree (any_eq_true.mpr ⟨item, hmem, by simpa using hblocked⟩)
      · rw [filteredTop_spec hnode hnode']
        rfl
  · rw [suggest, hnormal, Py.bind_ok, if_pos hnil]
    rfl

/-- Seven queries that begin alike. -/
def teas : List Match :=
  [⟨"tea".toList, 5⟩, ⟨"ten".toList, 7⟩, ⟨"to".toList, 7⟩, ⟨"te".toList, 1⟩, ⟨"teal".toList, 2⟩, ⟨"tear".toList, 3⟩,
    ⟨"team".toList, 9⟩]

theorem suggest_exact_teas : ∃ root, build teas = .ok root ∧
    ("te".toList ≠ [] → suggest root "TE".toList (· == "team".toList) = .ok (some (ranked (teas.filter fun item =>
      "te".toList.isPrefixOf item.query && !(item.query == "team".toList))))) ∧
    ("te".toList = [] → suggest root "TE".toList (· == "team".toList) = .ok (some [])) :=
  suggest_exact teas "TE".toList "te".toList (· == "team".toList) (by decide +kernel) (by decide +kernel) (by decide +kernel)

/-- For the empty prefix nothing is suggested, whatever there is. -/
theorem suggest_empty_prefix : ∃ root, build [⟨"a".toList, 1⟩] = .ok root ∧ normalize [] true = .ok [] ∧
    suggest root [] (fun _ => false) = .ok (some []) ∧
    ranked ([⟨"a".toList, 1⟩].filter fun item : Match => ([] : Text).isPrefixOf item.query && !false) =
      [⟨"a".toList, 1⟩] := by
  refine ⟨_, rfl, rfl, rfl, by decide +kernel⟩

end SystemDesign.Autocomplete
