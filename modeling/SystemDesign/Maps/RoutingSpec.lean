import SystemDesign.Maps.Routing

/-!
Routes are optimal.

While a search runs, the costs of the visited nodes are final and none is above the frontier, every other known cost stands
in the frontier, and parents lead back to nodes visited before (`Sound`). Stale entries stay in the frontier: they are never
below the cost of their node.
-/

namespace SystemDesign.Maps.Routing

open List hiding le_antisymm le_total le_trans
open Dict
open Heapq

variable {call : Call} {source : String} {banned : List String}

/-! ### Permitted paths -/

/-- The edge may be used, in so much time: not banned, of the mode, not closed, and no toll when these are avoided. -/
def Takes (call : Call) (banned : List String) (edge : Edge) (duration : ℚ) : Prop :=
  edge ∈ call.roads.edges ∧ call.time banned edge = some duration

/-- The edges are a permitted path of this price from the source to the target. -/
abbrev Path (call : Call) (banned : List String) (edges : List Edge) (cost : ℚ) : Prop :=
  Walk Edge.source Edge.target (Takes call banned) call.source edges call.target cost

variable {edge : Edge}

theorem speed_pos {value : ℚ} (h : call.speed banned edge = some value) : 0 < value := by
  unfold Call.speed at h
  split at h
  · cases h
  · split at h
    · cases h
    · rename_i usual husual
      have hpos := edge.speeds_pos _ _ husual
      split at h
      · cases h
      · split at h
        · cases h
          exact hpos
        · rename_i state hstate
          split at h
          · cases h
          · cases h
            cases hspeed : state.speed with
            | none => exact hpos
            | some current =>
              unfold Call.state at hstate
              split at hstate
              · exact call.roads.traffic_pos _ _ _ (Option.filter_eq_some_iff.mp hstate).1 hspeed
              · cases hstate

theorem time_pos {duration : ℚ} (h : call.time banned edge = some duration) : 0 < duration := by
  obtain ⟨value, hvalue, rfl⟩ := Option.map_eq_some_iff.mp h
  exact div_pos edge.length_pos (speed_pos hvalue)

theorem Takes.lift {duration : ℚ} (h : Takes call banned edge duration) : Takes call [] edge duration := by
  refine ⟨h.1, ?_⟩
  have htime := h.2
  obtain ⟨value, hvalue, rfl⟩ := Option.map_eq_some_iff.mp htime
  refine Option.map_eq_some_iff.mpr ⟨value, ?_, rfl⟩
  unfold Call.speed at hvalue ⊢
  rw [if_neg not_mem_nil]
  split at hvalue
  · cases hvalue
  · exact hvalue

theorem mem_outgoing {node : String} : edge ∈ call.outgoing node ↔ edge ∈ call.roads.edges ∧ edge.source = node := by
  rw [Call.outgoing, mem_mergeSort, mem_filter, decide_eq_true_eq]

/-! ### What a search keeps -/

/-- The source, or a node whose parent is among `seen` and accounts for its cost. -/
def Reached (takes : Edge → ℚ → Prop) (source : String) (s : Search) (seen : List String) (node : String) : Prop :=
  node = source ∧ s.costs.get? node = some 0 ∨
    ∃ edge d cost, s.parents.get? node = some (edge.source, edge) ∧ edge.source ∈ seen ∧ takes edge d ∧
      edge.target = node ∧ node ≠ source ∧ s.costs.get? edge.source = some cost ∧ s.costs.get? node = some (cost + d)

structure Sound (takes : Edge → ℚ → Prop) (source : String) (s : Search) (bound : ℚ) : Prop where
  heap : IsHeap s.frontier
  start : s.costs.get? source = some 0
  nonneg : 0 ≤ bound
  settled : ∀ node ∈ s.visited, ∃ cost, s.costs.get? node = some cost ∧ cost ≤ bound
  ahead : ∀ entry ∈ s.frontier, bound ≤ (ofLex entry).1 ∧
    ∃ cost, s.costs.get? (ofLex entry).2 = some cost ∧ cost ≤ (ofLex entry).1
  queued : ∀ node cost, s.costs.get? node = some cost → node ∉ s.visited → toLex (cost, node) ∈ s.frontier
  reached : ∀ node cost, s.costs.get? node = some cost → node ∉ s.visited → Reached takes source s s.visited node
  linked : ∀ node seen, node :: seen <:+ s.visited → Reached takes source s seen node

/-- The edge leads nowhere cheaper than known. -/
def Relaxed (takes : Edge → ℚ → Prop) (s : Search) (edge : Edge) : Prop := ∀ d cost, takes edge d →
  s.costs.get? edge.source = some cost → ∃ known, s.costs.get? edge.target = some known ∧ known ≤ cost + d

/-- Costs of visited nodes stay, and no cost grows. -/
structure Extends (s s' : Search) : Prop where
  visited : s'.visited = s.visited
  settled : ∀ node ∈ s.visited, s'.costs.get? node = s.costs.get? node ∧ s'.parents.get? node = s.parents.get? node
  cheaper : ∀ node cost, s.costs.get? node = some cost → ∃ cost', s'.costs.get? node = some cost' ∧ cost' ≤ cost

variable {takes : Edge → ℚ → Prop} {s s' s'' : Search} {bound : ℚ} {node : String} {seen : List String} {edge : Edge}

theorem Extends.refl (s : Search) : Extends s s := ⟨rfl, fun _ _ => ⟨rfl, rfl⟩, fun _ cost h => ⟨cost, h, le_rfl⟩⟩

theorem Extends.trans (h : Extends s s') (h' : Extends s' s'') : Extends s s'' where
  visited := h'.visited.trans h.visited
  settled node hnode := by
    obtain ⟨hcost, hparent⟩ := h.settled node hnode
    obtain ⟨hcost', hparent'⟩ := h'.settled node (h.visited ▸ hnode)
    exact ⟨hcost'.trans hcost, hparent'.trans hparent⟩
  cheaper node cost hcost := by
    obtain ⟨cost', hcost', hle⟩ := h.cheaper node cost hcost
    obtain ⟨cost'', hcost'', hle'⟩ := h'.cheaper node cost' hcost'
    exact ⟨cost'', hcost'', hle'.trans hle⟩

theorem Relaxed.extends (h : Relaxed takes s edge) (hs : Extends s s') (hmem : edge.source ∈ s.visited) :
    Relaxed takes s' edge := by
  intro d cost htakes hcost
  obtain ⟨known, hknown, hle⟩ := h d cost htakes ((hs.settled _ hmem).1 ▸ hcost)
  obtain ⟨known', hknown', hle'⟩ := hs.cheaper _ known hknown
  exact ⟨known', hknown', hle'.trans hle⟩

theorem Reached.mono {seen' : List String} (h : Reached takes source s seen node) (hsub : seen ⊆ seen') :
    Reached takes source s seen' node := by
  obtain h | ⟨edge, d, cost, hparent, hmem, hrest⟩ := h
  · exact .inl h
  · exact .inr ⟨edge, d, cost, hparent, hsub hmem, hrest⟩

/-- The chain of a node is kept where its cost and parent are. -/
theorem Reached.extends (h : Reached takes source s seen node) (hs : Extends s s') (hsub : seen ⊆ s.visited)
    (hcost : s'.costs.get? node = s.costs.get? node) (hparent : s'.parents.get? node = s.parents.get? node) :
    Reached takes source s' seen node := by
  obtain ⟨hsource, hzero⟩ | ⟨edge, d, cost, hknown, hmem, htakes, htarget, hne, hprevious, htotal⟩ := h
  · exact .inl ⟨hsource, hcost.trans hzero⟩
  · exact .inr ⟨edge, d, cost, hparent.trans hknown, hmem, htakes, htarget, hne,
      (hs.settled _ (hsub hmem)).1.trans hprevious, hcost.trans htotal⟩

/-! ### Relaxing an edge -/

/-- An edge that is used improves the cost of its target, which is not visited. -/
theorem Sound.improve (h : Sound takes source s bound) {d : ℚ} (htakes : takes edge d) (hd : 0 < d)
    (hnode : edge.source ∈ s.visited) (hcost : s.costs.get? edge.source = some bound)
    (hbetter : ∀ known ∈ s.costs.get? edge.target, bound + d < known) :
    Sound takes source (s.improve edge.source edge (bound + d)) bound ∧
      Extends s (s.improve edge.source edge (bound + d)) := by
  have hunvisited {node : String} (hmem : node ∈ s.visited) : node ≠ edge.target := by
    rintro rfl
    obtain ⟨known, hknown, hle⟩ := h.settled _ hmem
    have hlt := hbetter known hknown
    linarith
  have hsource : source ≠ edge.target := by
    rintro heq
    have hlt := hbetter 0 (heq ▸ h.start)
    have hnonneg := h.nonneg
    linarith
  obtain ⟨hheap, hperm⟩ := heappush_spec h.heap (toLex (bound + d, edge.target))
  have hmem {entry : ℚ ×ₗ String} : entry ∈ heappush s.frontier (toLex (bound + d, edge.target)) ↔
      entry = toLex (bound + d, edge.target) ∨ entry ∈ s.frontier := by
    rw [hperm.mem_iff, mem_cons]
  have hextends : Extends s (s.improve edge.source edge (bound + d)) := by
    refine ⟨rfl, fun node hvisited => ⟨?_, ?_⟩, fun node cost hknown => ?_⟩
    · exact get?_set_of_ne _ (hunvisited hvisited) _
    · exact get?_set_of_ne _ (hunvisited hvisited) _
    · by_cases heq : node = edge.target
      · subst heq
        exact ⟨_, get?_set_self .., (hbetter cost hknown).le⟩
      · exact ⟨cost, (get?_set_of_ne _ heq _).trans hknown, le_rfl⟩
  refine ⟨⟨hheap, (get?_set_of_ne _ hsource _).trans h.start, h.nonneg, fun node hvisited => ?_, ?_, ?_, ?_, ?_⟩, hextends⟩
  · obtain ⟨cost, hknown, hle⟩ := h.settled node hvisited
    exact ⟨cost, (hextends.settled node hvisited).1.trans hknown, hle⟩
  · intro entry hentry
    rcases hmem.mp hentry with rfl | hentry
    · exact ⟨show bound ≤ bound + d by linarith, _, get?_set_self .., le_rfl⟩
    · obtain ⟨hahead, cost, hknown, hle⟩ := h.ahead entry hentry
      obtain ⟨cost', hknown', hle'⟩ := hextends.cheaper _ cost hknown
      exact ⟨hahead, cost', hknown', hle'.trans hle⟩
  · intro node cost hknown hout
    rcases get?_set_cases hknown with ⟨rfl, rfl⟩ | ⟨hne, hknown⟩
    · exact hmem.mpr (.inl rfl)
    · exact hmem.mpr (.inr (h.queued node cost hknown hout))
  · intro node cost hknown hout
    rcases get?_set_cases hknown with ⟨rfl, rfl⟩ | ⟨hne, hknown⟩
    · refine .inr ⟨edge, d, bound, get?_set_self .., hnode, htakes, rfl, hsource.symm, ?_, hknown⟩
      exact (hextends.settled _ hnode).1.trans hcost
    · exact (h.reached node cost hknown hout).extends hextends (Subset.refl _) (get?_set_of_ne _ hne _)
        (get?_set_of_ne _ hne _)
  · intro node seen hsuffix
    have hvisited : node ∈ s.visited := hsuffix.subset mem_cons_self
    obtain ⟨hcosts, hparents⟩ := hextends.settled node hvisited
    exact (h.linked node seen hsuffix).extends hextends (fun p hp => hsuffix.subset (mem_cons_of_mem _ hp)) hcosts
      hparents

theorem relax_spec {duration : Edge → Option ℚ} (htakes : ∀ d, duration edge = some d → takes edge d ∧ 0 < d)
    (honly : ∀ d, takes edge d → duration edge = some d) (h : Sound takes source s bound)
    (hnode : edge.source ∈ s.visited) (hcost : s.costs.get? edge.source = some bound) :
    (Sound takes source (relax duration edge.source bound s edge) bound ∧
      Relaxed takes (relax duration edge.source bound s edge) edge ∧
      Extends s (relax duration edge.source bound s edge)) ∧
      (relax duration edge.source bound s edge).frontier.length ≤ s.frontier.length + 1 := by
  unfold relax
  cases hduration : duration edge with
  | none =>
    refine ⟨⟨h, fun d cost hd => ?_, .refl s⟩, Nat.le_succ _⟩
    rw [honly d hd] at hduration
    cases hduration
  | some d =>
    obtain ⟨hused, hpos⟩ := htakes d hduration
    have hsame {d' cost : ℚ} (hd' : takes edge d') (hcost' : s.costs.get? edge.source = some cost) :
        d' = d ∧ cost = bound :=
      ⟨Option.some.inj ((honly d' hd').symm.trans hduration), Option.some.inj (hcost'.symm.trans hcost)⟩
    dsimp only
    split
    · rename_i hbetter
      obtain ⟨hsound, hextends⟩ := h.improve hused hpos hnode hcost hbetter
      refine ⟨⟨hsound, fun d' cost hd' hcost' => ?_, hextends⟩, ?_⟩
      · obtain ⟨rfl, rfl⟩ := hsame hd' ((hextends.settled _ hnode).1.symm.trans hcost')
        exact ⟨_, get?_set_self .., le_rfl⟩
      · exact (heappush_spec h.heap _).2.length_eq.le
    · rename_i hworse
      refine ⟨⟨h, fun d' cost hd' hcost' => ?_, .refl s⟩, Nat.le_succ _⟩
      obtain ⟨rfl, rfl⟩ := hsame hd' hcost'
      push Not at hworse
      exact hworse

theorem relax_all (duration : Edge → Option ℚ) (edges : List Edge) (hpos : ∀ edge d, takes edge d → 0 < d)
    (htakes : ∀ edge ∈ edges, ∀ d, duration edge = some d ↔ takes edge d) (hsources : ∀ edge ∈ edges, edge.source = node)
    (h : Sound takes source s bound) (hnode : node ∈ s.visited) (hcost : s.costs.get? node = some bound) :
    (Sound takes source (edges.foldl (relax duration node bound) s) bound ∧
      (∀ edge ∈ edges, Relaxed takes (edges.foldl (relax duration node bound) s) edge) ∧
      Extends s (edges.foldl (relax duration node bound) s)) ∧
      (edges.foldl (relax duration node bound) s).frontier.length ≤ s.frontier.length + edges.length := by
  induction edges generalizing s with
  | nil => exact ⟨⟨h, fun _ hedge => absurd hedge not_mem_nil, .refl s⟩, le_rfl⟩
  | cons edge edges ih =>
    obtain rfl := hsources edge mem_cons_self
    have hedge := htakes edge mem_cons_self
    obtain ⟨⟨hsound, hrelaxed, hextends⟩, hlength⟩ := relax_spec (fun d hd => ⟨(hedge d).mp hd, hpos _ _ ((hedge d).mp hd)⟩)
      (fun d => (hedge d).mpr) h hnode hcost
    have hvisited : edge.source ∈ (relax duration edge.source bound s edge).visited := hextends.visited ▸ hnode
    obtain ⟨⟨hsound', hrelaxed', hextends'⟩, hlength'⟩ := ih (fun e he => htakes e (mem_cons_of_mem _ he))
      (fun e he => hsources e (mem_cons_of_mem _ he)) hsound hvisited ((hextends.settled _ hnode).1.trans hcost)
    refine ⟨⟨hsound', fun e he => ?_, hextends.trans hextends'⟩, ?_⟩
    · rcases mem_cons.mp he with rfl | he
      · exact hrelaxed.extends hextends' hvisited
      · exact hrelaxed' e he
    · rw [foldl_cons, length_cons]
      omega

/-! ### Visiting a node -/

variable {entry : ℚ ×ₗ String}

/-- Outside of the visited nodes the least entry has the cost of its node. -/
theorem Sound.pop {frontier : List (ℚ ×ₗ String)} (h : Sound takes source s bound)
    (hperm : s.frontier.Perm (entry :: frontier)) (hleast : ∀ e ∈ s.frontier, entry ≤ e)
    (hout : (ofLex entry).2 ∉ s.visited) : s.costs.get? (ofLex entry).2 = some (ofLex entry).1 := by
  obtain ⟨-, cost, hcost, hle⟩ := h.ahead entry (hperm.mem_iff.mpr mem_cons_self)
  have hge := Prod.Lex.monotone_fst _ _ (hleast _ (h.queued _ _ hcost hout))
  rwa [le_antisymm hle hge] at hcost

theorem Sound.skip {frontier : List (ℚ ×ₗ String)} (h : Sound takes source s bound)
    (hperm : s.frontier.Perm (entry :: frontier)) (hheap : IsHeap frontier) (hin : (ofLex entry).2 ∈ s.visited) :
    Sound takes source { s with frontier } bound := by
  refine { h with heap := hheap, ahead := fun e he => h.ahead e (hperm.mem_iff.mpr (mem_cons_of_mem _ he)), queued := ?_ }
  intro node cost hcost hout
  rcases mem_cons.mp (hperm.mem_iff.mp (h.queued node cost hcost hout)) with rfl | hmem
  · exact absurd hin hout
  · exact hmem

theorem Sound.visit {frontier : List (ℚ ×ₗ String)} (h : Sound takes source s bound)
    (hperm : s.frontier.Perm (entry :: frontier)) (hheap : IsHeap frontier) (hleast : ∀ e ∈ s.frontier, entry ≤ e)
    (hout : (ofLex entry).2 ∉ s.visited) :
    Sound takes source { s with frontier, visited := (ofLex entry).2 :: s.visited } (ofLex entry).1 where
  heap := hheap
  start := h.start
  nonneg := h.nonneg.trans (h.ahead entry (hperm.mem_iff.mpr mem_cons_self)).1
  settled node hnode := by
    rcases mem_cons.mp hnode with rfl | hnode
    · exact ⟨_, h.pop hperm hleast hout, le_rfl⟩
    · obtain ⟨cost, hcost, hle⟩ := h.settled node hnode
      exact ⟨cost, hcost, hle.trans (h.ahead entry (hperm.mem_iff.mpr mem_cons_self)).1⟩
  ahead e he := by
    have hmem : e ∈ s.frontier := hperm.mem_iff.mpr (mem_cons_of_mem _ he)
    exact ⟨Prod.Lex.monotone_fst _ _ (hleast e hmem), (h.ahead e hmem).2⟩
  queued node cost hcost hnode := by
    obtain ⟨hne, hnode⟩ := not_or.mp (mt mem_cons.mpr hnode)
    rcases mem_cons.mp (hperm.mem_iff.mp (h.queued node cost hcost hnode)) with rfl | hmem
    · exact absurd rfl hne
    · exact hmem
  reached node cost hcost hnode :=
    (h.reached node cost hcost (mt (mem_cons_of_mem _) hnode)).mono (subset_cons_self _ _)
  linked node seen hsuffix := by
    rcases suffix_cons_iff.mp hsuffix with heq | hsuffix
    · obtain ⟨rfl, rfl⟩ := List.cons.inj heq
      exact h.reached _ _ (h.pop hperm hleast hout) hout
    · exact h.linked node seen hsuffix

/-! ### The way back -/

/-- The trace of a node succeeds, with a path of its cost. -/
def Traced (takes : Edge → ℚ → Prop) (source : String) (s : Search) (fuel : ℕ) (node : String) : Prop :=
  ∃ nodes edges cost, trace s.parents source fuel node = .ok (nodes, edges) ∧ s.costs.get? node = some cost ∧
    Walk Edge.source Edge.target takes source edges node cost ∧ nodes = source :: edges.map Edge.target

theorem Reached.traced {fuel : ℕ} (h : Reached takes source s seen node) (hseen : ∀ p ∈ seen, Traced takes source s fuel p) :
    Traced takes source s (fuel + 1) node := by
  obtain ⟨rfl, hzero⟩ | ⟨edge, d, cost, hparent, hmem, htakes, rfl, hne, hprevious, htotal⟩ := h
  · exact ⟨[node], [], 0, by rw [trace, if_pos rfl], hzero, .nil node, rfl⟩
  · obtain ⟨nodes, edges, cost', htrace, hcost', hwalk, hnodes⟩ := hseen _ hmem
    obtain rfl := Option.some.inj (hprevious.symm.trans hcost')
    refine ⟨nodes ++ [edge.target], edges ++ [edge], cost + d, ?_, htotal, hwalk.concat htakes rfl, ?_⟩
    · rw [trace, if_neg hne, hparent]
      dsimp only
      rw [htrace]
      rfl
    · rw [hnodes, map_append, cons_append]
      rfl

theorem Sound.traced (h : Sound takes source s bound) {fuel : ℕ} (hsuffix : seen <:+ s.visited) (hfuel : seen.length ≤ fuel) :
    ∀ node ∈ seen, Traced takes source s fuel node := by
  induction seen generalizing fuel with
  | nil => exact fun _ hnode => absurd hnode not_mem_nil
  | cons first seen ih =>
    obtain ⟨fuel, rfl⟩ := Nat.exists_eq_add_of_le' (Nat.one_le_of_lt hfuel)
    have hrest : seen <:+ s.visited := (suffix_cons first seen).trans hsuffix
    intro node hnode
    rcases mem_cons.mp hnode with rfl | hnode
    · exact (h.linked node seen hsuffix).traced (ih hrest (Nat.le_of_succ_le_succ hfuel))
    · exact ih hrest (Nat.le_of_succ_le hfuel) node hnode

/-! ### A search -/

/-- A route over permitted edges, with its price and the nodes it passes. -/
structure Leads (call : Call) (banned : List String) (route : Route) : Prop where
  path : Path call banned route.edges route.eta
  nodes : route.nodes = call.source :: route.edges.map Edge.target
  distance : route.distance = (route.edges.map Edge.length).sum

/-- No permitted path is faster. -/
structure Optimal (call : Call) (banned : List String) (route : Route) : Prop extends Leads call banned route where
  least : ∀ edges cost, Path call banned edges cost → route.eta ≤ cost

/-- The budget is exceeded, there is no permitted path, or the route found is optimal. -/
def Searched (call : Call) (banned : List String) (answer : Except Error (Option Route × ℤ)) : Prop :=
  answer = .error .searchBudget ∨
    (∃ total, answer = .ok (none, total)) ∧ (∀ edges cost, ¬ Path call banned edges cost) ∨
    ∃ route total, answer = .ok (some route, total) ∧ Optimal call banned route

/-- What is left to do: the entries, and the edges of nodes that were not visited. -/
def Search.left (call : Call) (s : Search) : ℕ :=
  s.frontier.length + (call.roads.edges.filter fun edge => edge.source ∉ s.visited).length

theorem length_outgoing {visited : List String} (hout : node ∉ visited) (edges : List Edge) :
    (edges.filter fun edge => edge.source ∉ node :: visited).length + (edges.filter fun edge => edge.source = node).length =
      (edges.filter fun edge => edge.source ∉ visited).length := by
  induction edges with
  | nil => rfl
  | cons edge edges ih =>
    by_cases heq : edge.source = node
    · subst heq
      simp [hout] at ih ⊢
      omega
    · by_cases hmem : edge.source ∈ visited
      · simpa [heq, hmem] using ih
      · simp [heq, hmem] at ih ⊢
        omega

/-- Any permitted path leaves the visited nodes over an entry of the frontier that it does not beat. -/
theorem Sound.leaves (h : Sound (Takes call banned) call.source s bound)
    (hrelaxed : ∀ edge ∈ call.roads.edges, edge.source ∈ s.visited → Relaxed (Takes call banned) s edge)
    (htarget : call.target ∉ s.visited) {edges : List Edge} {cost : ℚ} (hpath : Path call banned edges cost) :
    ∃ entry ∈ s.frontier, (ofLex entry).1 ≤ cost := by
  obtain ⟨node, known, hout, hknown, hle⟩ := hpath.leaves (· ∈ s.visited) s.costs.get? (fun _ _ htakes => (time_pos htakes.2).le)
    (fun edge d c htakes hmem hcost => hrelaxed edge htakes.1 hmem d c htakes hcost) htarget h.start
  exact ⟨_, h.queued node known hknown hout, hle.trans_eq (zero_add cost)⟩

theorem Sound.exhausted (h : Sound (Takes call banned) call.source s bound)
    (hrelaxed : ∀ edge ∈ call.roads.edges, edge.source ∈ s.visited → Relaxed (Takes call banned) s edge)
    (htarget : call.target ∉ s.visited) (hnil : s.frontier = []) (edges : List Edge) (cost : ℚ) :
    ¬ Path call banned edges cost := by
  intro hpath
  obtain ⟨entry, hentry, -⟩ := h.leaves hrelaxed htarget hpath
  exact absurd (hnil ▸ hentry) not_mem_nil

theorem explore_spec {fuel : ℕ} {total : ℤ} (h : Sound (Takes call banned) call.source s bound)
    (hrelaxed : ∀ edge ∈ call.roads.edges, edge.source ∈ s.visited → Relaxed (Takes call banned) s edge)
    (htarget : call.target ∉ s.visited) (hfuel : s.left call ≤ fuel) :
    Searched call banned (explore call (call.time banned) fuel s total) := by
  induction fuel generalizing s bound total with
  | zero =>
    have hnil : s.frontier = [] := eq_nil_of_length_eq_zero (by unfold Search.left at hfuel; omega)
    exact .inr (.inl ⟨⟨total, rfl⟩, h.exhausted hrelaxed htarget hnil⟩)
  | succ fuel ih =>
    unfold explore
    obtain ⟨hnil, hpop⟩ | ⟨entry, frontier, hpop, hheap, hperm, hleast, -⟩ := heappop_cases h.heap
    · rw [hpop]
      exact .inr (.inl ⟨⟨total, rfl⟩, h.exhausted hrelaxed htarget hnil⟩)
    · rw [hpop]
      dsimp only
      have hlength := hperm.length_eq
      rw [length_cons] at hlength
      unfold Search.left at hfuel
      split
      · rename_i hin
        refine ih (h.skip hperm hheap hin) hrelaxed htarget ?_
        unfold Search.left
        dsimp only
        omega
      · rename_i hout
        have hvisit := h.visit hperm hheap hleast hout
        split
        · exact .inl rfl
        · split
          · -- the target has the least cost, so no path beats it
            rename_i heq
            obtain ⟨nodes, edges, cost, htrace, hcost, hwalk, hnodes⟩ :=
              (h.reached _ _ (h.pop hperm hleast hout) hout).traced (h.traced (suffix_refl _) le_rfl)
            obtain rfl := Option.some.inj ((h.pop hperm hleast hout).symm.trans hcost)
            rw [htrace]
            rw [heq] at hwalk
            refine .inr (.inr ⟨_, _, rfl, ⟨hwalk, hnodes, rfl⟩, fun edges' cost' hpath => ?_⟩)
            obtain ⟨other, hother, hle⟩ := h.leaves hrelaxed htarget hpath
            exact (Prod.Lex.monotone_fst _ _ (hleast other hother)).trans hle
          · rename_i hne
            have hcost := h.pop hperm hleast hout
            obtain ⟨⟨hsound, hall, hextends⟩, hgrowth⟩ := relax_all (call.time banned)
              (call.outgoing (ofLex entry).2) (fun _ _ htakes => time_pos htakes.2)
              (fun edge hedge d => ⟨fun ht => ⟨(mem_outgoing.mp hedge).1, ht⟩, fun htakes => htakes.2⟩)
              (fun edge hedge => (mem_outgoing.mp hedge).2) hvisit mem_cons_self hcost
            refine ih hsound (fun edge hedge hmem => ?_) ?_ ?_
            · rw [hextends.visited] at hmem
              rcases mem_cons.mp hmem with heq | hmem
              · exact hall edge (mem_outgoing.mpr ⟨hedge, heq⟩)
              · have hkept : Relaxed (Takes call banned)
                    { s with frontier, visited := (ofLex entry).2 :: s.visited } edge := hrelaxed edge hedge hmem
                exact hkept.extends hextends (mem_cons_of_mem _ hmem)
            · rw [hextends.visited]
              exact not_mem_cons_of_ne_of_not_mem (Ne.symm hne) htarget
            · have hsplit := length_outgoing hout call.roads.edges
              have hout_length : (call.outgoing (ofLex entry).2).length =
                  (call.roads.edges.filter fun edge => edge.source = (ofLex entry).2).length := by
                rw [Call.outgoing, length_mergeSort]
              unfold Search.left
              rw [hextends.visited]
              dsimp only at hgrowth ⊢
              omega

theorem sound_start (takes : Edge → ℚ → Prop) (source : String) : Sound takes source (Search.start source) 0 where
  heap := (heappush_spec isHeap_nil (toLex ((0 : ℚ), source))).1
  start := get?_set_self ..
  nonneg := le_rfl
  settled _ hnode := absurd hnode not_mem_nil
  ahead entry hentry := by
    obtain rfl := mem_singleton.mp hentry
    exact ⟨le_rfl, 0, get?_set_self .., le_rfl⟩
  queued node cost hcost _ := by
    rcases get?_set_cases hcost with ⟨rfl, rfl⟩ | ⟨-, hcost⟩
    · exact mem_singleton_self _
    · cases hcost
  reached node cost hcost _ := by
    rcases get?_set_cases hcost with ⟨rfl, rfl⟩ | ⟨-, hcost⟩
    · exact .inl ⟨rfl, hcost⟩
    · cases hcost
  linked node seen hsuffix := absurd (suffix_nil.mp hsuffix) (cons_ne_nil _ _)

/-- Every search ends with the budget or with its answer. -/
theorem shortest_spec (call : Call) (banned : List String) (total : ℤ) :
    Searched call banned (shortest call banned total) := by
  refine explore_spec (sound_start _ call.source) (fun _ _ hmem => absurd hmem not_mem_nil) not_mem_nil ?_
  have hfilter := length_filter_le (fun edge : Edge => decide (edge.source ∉ (Search.start call.source).visited)) call.roads.edges
  show 1 + _ ≤ _
  omega

/-! ### Alternatives -/

/-- Candidates lead to the target over permitted edges and are stored under the ids of their edges. -/
def Candidates (call : Call) (found : Dict (List String) Route) : Prop :=
  ∀ names route, found.get? names = some route → route.names = names ∧ Leads call [] route

theorem Leads.lift {route : Route} (h : Leads call banned route) :
    Leads call [] route := ⟨h.path.mono fun _ _ => Takes.lift, h.nodes, h.distance⟩

variable {found : Dict (List String) Route}

theorem Candidates.set {route : Route} (h : Candidates call found) (hroute : Leads call [] route) :
    Candidates call (found.set route.names route) := by
  intro names other hother
  rcases get?_set_cases hother with ⟨rfl, rfl⟩ | ⟨-, hother⟩
  · exact ⟨rfl, hroute⟩
  · exact h names other hother

theorem edge_eq_of_id {edge' : Edge} (h : edge ∈ call.roads.edges) (h' : edge' ∈ call.roads.edges)
    (hid : edge.id = edge'.id) : edge = edge' := inj_on_of_nodup_map call.roads.ids_nodup h h' hid

/-- The ids of a path give its edges, and its price. -/
theorem path_unique {first first' last last' : String} {edges edges' : List Edge} {banned' : List String} {cost cost' : ℚ}
    (h : Walk Edge.source Edge.target (Takes call banned) first edges last cost)
    (h' : Walk Edge.source Edge.target (Takes call banned') first' edges' last' cost')
    (hnames : edges.map Edge.id = edges'.map Edge.id) : edges = edges' ∧ cost = cost' := by
  induction h generalizing first' edges' cost' with
  | nil node =>
    obtain rfl := map_eq_nil_iff.mp hnames.symm
    cases h'
    exact ⟨rfl, rfl⟩
  | cons htakes hrest ih =>
    cases h' with
    | nil node => cases hnames
    | cons htakes' hrest' =>
      obtain ⟨hid, htail⟩ := List.cons.inj hnames
      obtain rfl := edge_eq_of_id htakes.1 htakes'.1 hid
      obtain rfl := Option.some.inj (htakes.lift.2.symm.trans htakes'.lift.2)
      obtain ⟨rfl, rfl⟩ := ih hrest' htail
      exact ⟨rfl, rfl⟩

theorem Leads.unique {route route' : Route} {banned' : List String} (h : Leads call banned route)
    (h' : Leads call banned' route') (hnames : route.names = route'.names) : route = route' := by
  obtain ⟨hpath, hnodes, hdistance⟩ := h
  obtain ⟨hpath', hnodes', hdistance'⟩ := h'
  obtain ⟨hedges, heta⟩ := path_unique hpath hpath' hnames
  cases route
  cases route'
  simp only at hedges heta hnodes hnodes' hdistance hdistance'
  subst hedges heta hnodes hdistance
  rw [hnodes', hdistance']

/-- A candidate found again replaces itself. -/
theorem Candidates.keeps {route route' : Route} (h : Candidates call found) (hroute : Leads call banned route)
    {names : List String} (hget : found.get? names = some route') :
    (found.set route.names route).get? names = some route' := by
  obtain ⟨hnames, hleads⟩ := h names route' hget
  by_cases heq : names = route.names
  · rw [heq, get?_set_self, hroute.unique hleads (heq.symm.trans hnames.symm)]
  · rwa [get?_set_of_ne _ heq]

/-- Some candidate is the best path that avoids the edge. -/
def Avoided (call : Call) (found : Dict (List String) Route) (edge : Edge) :
    Prop := ∀ edges cost, Path call [edge.id] edges cost →
  ∃ route ∈ found.values, Optimal call [edge.id] route

theorem detours_spec (edges : List Edge) (total : ℤ) (h : Candidates call found) :
    detours call edges found total = .error .searchBudget ∨ ∃ answer, detours call edges found total = .ok answer ∧
        Candidates call answer.1 ∧
        (∀ names route, found.get? names = some route → answer.1.get? names = some route) ∧
        ∀ edge ∈ edges, Avoided call answer.1 edge := by
  induction edges generalizing found total with
  | nil => exact .inr ⟨_, rfl, h, fun _ _ hget => hget, fun _ hedge => absurd hedge not_mem_nil⟩
  | cons edge edges ih =>
    rw [detours]
    obtain hbudget | ⟨⟨total', hnone⟩, hno⟩ | ⟨route, total', hsome, hoptimal⟩ := shortest_spec call [edge.id] total
    · rw [hbudget]
      exact .inl rfl
    · rw [hnone]
      obtain hbudget | ⟨answer, hanswer, hcandidates, hkeeps, havoided⟩ := ih total' h
      · exact .inl hbudget
      · refine .inr ⟨answer, hanswer, hcandidates, hkeeps, fun other hother => ?_⟩
        rcases mem_cons.mp hother with rfl | hother
        · exact fun edges cost hpath => absurd hpath (hno edges cost)
        · exact havoided other hother
    · rw [hsome]
      obtain hbudget | ⟨answer, hanswer, hcandidates, hkeeps, havoided⟩ := ih total' (h.set hoptimal.lift)
      · exact .inl hbudget
      · refine .inr ⟨answer, hanswer, hcandidates, fun names other hget => hkeeps _ _ (h.keeps hoptimal.toLeads hget),
          fun other hother => ?_⟩
        rcases mem_cons.mp hother with rfl | hother
        · exact fun _ _ _ => ⟨route, mem_values.mpr ⟨_, hkeeps _ _ (get?_set_self ..)⟩, hoptimal⟩
        · exact havoided other hother

/-- The routes that `route` ranks: the best path, and with alternatives the best paths around each of its first 64 edges. -/
structure Pool (call : Call) (best : Route)
    (found : Dict (List String) Route) : Prop where
  optimal : Optimal call [] best
  mem : best ∈ found.values
  candidates : Candidates call found
  avoided : 1 < call.alternatives → ∀ edge ∈ best.edges.take 64, Avoided call found edge

theorem candidates_spec (call : Call) : candidates call = .error .searchBudget ∨
    candidates call = .error .unreachable ∧ (∀ edges cost, ¬ Path call [] edges cost) ∨
    ∃ best found, candidates call = .ok (best, found) ∧ Pool call best found.1 := by
  unfold candidates
  obtain hbudget | ⟨⟨total, hnone⟩, hno⟩ | ⟨best, total, hsome, hoptimal⟩ := shortest_spec call [] 0
  · rw [hbudget]
    exact .inl rfl
  · rw [hnone]
    exact .inr (.inl ⟨rfl, hno⟩)
  · rw [hsome]
    have hempty : Candidates call Dict.empty := fun _ _ hget => by cases hget
    obtain hbudget | ⟨answer, hanswer, hcandidates, hkeeps, havoided⟩ :=
      detours_spec (if 1 < call.alternatives then best.edges.take 64 else []) total (hempty.set hoptimal.toLeads)
    · refine .inl ?_
      show (detours call _ _ total >>= _) = _
      rw [hbudget]
      rfl
    · refine .inr (.inr ⟨best, answer, ?_, hoptimal, ?_, hcandidates, fun hmany edge hedge => havoided edge ?_⟩)
      · show (detours call _ _ total >>= _) = _
        rw [hanswer]
        rfl
      · exact mem_values.mpr ⟨_, hkeeps _ _ (get?_set_self ..)⟩
      · rwa [if_pos hmany]

/-! ### Ranking -/

theorem names_nodup (h : Candidates call found) : (found.values.map Route.names).Nodup := by
  have hkeys : found.values.map Route.names = found.keys := by
    rw [Dict.values, Dict.keys, map_map]
    refine map_congr_left fun entry hentry => ?_
    exact (h entry.1 entry.2 (mem_entries.mp hentry)).1
  rw [hkeys]
  exact found.nodup

/-- What a successful call answers: the first routes of the ranked pool. -/
structure Answers (call : Call) (response : Response) : Prop where
  first : ∃ best rest, response.routes = best :: rest ∧ Optimal call [] best
  leads : ∀ route ∈ response.routes, Leads call [] route
  different : response.routes.Pairwise fun a b => a.edges ≠ b.edges
  sorted : response.routes.Pairwise fun a b => a.eta ≤ b.eta
  pool : ∃ best found, candidates call = .ok (best, found) ∧ Pool call best found.1 ∧ response.routes ⊆ found.1.values

theorem answers {best : Route} {found : Dict (List String) Route × ℤ}
    (hcandidates : candidates call = .ok (best, found))
    (hpool : Pool call best found.1) (halternatives : 1 ≤ call.alternatives) :
    Answers call
      ⟨(found.1.values.mergeSort fun a b => decide (a.rank ≤ b.rank)).take call.alternatives.toNat, found.2⟩ := by
  have hperm := List.mergeSort_perm found.1.values fun a b => decide (a.rank ≤ b.rank)
  have hsorted : (found.1.values.mergeSort fun a b => decide (a.rank ≤ b.rank)).Pairwise fun a b => a.rank ≤ b.rank := by
    have htrans (a b c : Route) (hab : decide (a.rank ≤ b.rank) = true) (hbc : decide (b.rank ≤ c.rank) = true) :
        decide (a.rank ≤ c.rank) = true := decide_eq_true ((of_decide_eq_true hab).trans (of_decide_eq_true hbc))
    have htotal (a b : Route) : (decide (a.rank ≤ b.rank) || decide (b.rank ≤ a.rank)) = true := by
      simpa using le_total a.rank b.rank
    exact (List.pairwise_mergeSort htrans htotal found.1.values).imp of_decide_eq_true
  have hnodup := (hperm.map Route.names).nodup_iff.mpr (names_nodup hpool.candidates)
  generalize (found.1.values.mergeSort fun a b => decide (a.rank ≤ b.rank)) = ranked at hperm hsorted hnodup ⊢
  have hmem {route : Route} (hroute : route ∈ ranked.take call.alternatives.toNat) : route ∈ found.1.values :=
    hperm.mem_iff.mp (mem_of_mem_take hroute)
  have hleads {route : Route} (hroute : route ∈ found.1.values) : Leads call [] route := by
    obtain ⟨names, hget⟩ := mem_values.mp hroute
    exact (hpool.candidates names route hget).2
  refine ⟨?_, fun route hroute => hleads (hmem hroute), ?_, ?_, best, found, hcandidates, hpool, fun _ => hmem⟩
  · have hbest : best ∈ ranked := hperm.mem_iff.mpr hpool.mem
    obtain ⟨count, hcount⟩ : ∃ count, call.alternatives.toNat = count + 1 := ⟨call.alternatives.toNat - 1, by omega⟩
    cases ranked with
    | nil => cases hbest
    | cons first rest =>
      refine ⟨first, rest.take count, by rw [hcount, take_succ_cons],
        hleads (hperm.mem_iff.mp mem_cons_self), fun edges cost hpath => ?_⟩
      refine le_trans ?_ (hpool.optimal.least edges cost hpath)
      rcases mem_cons.mp hbest with rfl | hbest
      · exact le_rfl
      · exact Prod.Lex.monotone_fst _ _ ((pairwise_cons.mp hsorted).1 best hbest)
  · exact ((pairwise_map.mp hnodup).sublist (take_sublist _ _)).imp fun hne heq => hne (congrArg (List.map Edge.id) heq)
  · exact (hsorted.sublist (take_sublist _ _)).imp fun hle => Prod.Lex.monotone_fst _ _ hle

end SystemDesign.Maps.Routing
