import SystemDesign.Leaderboard.Ranking
import SystemDesign.Lib.Smallest

/-!
What the merged answers are.

The members of a shard are ordered as its players are (`lex_lt`), so each answer is a part of the sorted players of its
shard, and merging them is sorting all players (`sharded_ranking`).
-/

namespace SystemDesign.Leaderboard

open List hiding lt_irrefl not_lt
open Smallest

/-! ### The order of players -/

/-- By score from the highest on, then by user. -/
def Player.key (player : Player) : ℕᵒᵈ ×ₗ List Char := toLex (OrderDual.toDual player.score, player.user)

theorem Player.key_injective : Function.Injective Player.key := by
  rintro ⟨user, score⟩ ⟨user', score'⟩ h
  simp only [Player.key, toLex_inj, Prod.mk.injEq, OrderDual.toDual_inj] at h
  rw [h.1, h.2]

instance : LinearOrder Player := LinearOrder.lift' Player.key Player.key_injective

def Player.lex (player : Player) : Text := lexMember player.user player.score

def Player.candidate (player : Player) : Candidate := ⟨player.user, player.score, player.lex⟩

theorem Player.lt_iff {p q : Player} : p < q ↔ q.score < p.score ∨ p.score = q.score ∧ p.user < q.user := by
  rw [show p < q ↔ p.key < q.key from Iff.rfl, Prod.Lex.lt_iff]
  exact Iff.rfl

theorem Player.score_le {p q : Player} (h : p ≤ q) : q.score ≤ p.score := by
  rcases h.lt_or_eq with hlt | rfl
  · rcases Player.lt_iff.mp hlt with hscore | ⟨hscore, -⟩
    · exact hscore.le
    · exact hscore.ge
  · exact le_rfl

theorem lex_lt {p q : Player} (hp : p.score ≤ maxScore) (hq : q.score ≤ maxScore) : p.lex < q.lex ↔ p < q := by
  have hmax : maxScore < 10 ^ 10 := by decide
  rw [Player.lt_iff, Player.lex, Player.lex, lexMember, lexMember,
    zeroPadded_append_lt ((Nat.sub_le ..).trans_lt hmax) ((Nat.sub_le ..).trans_lt hmax), cons_lt_cons_iff]
  have hcolon : ((':' : Char) < ':' ∨ ':' = ':' ∧ p.user < q.user) ↔ p.user < q.user :=
    ⟨fun h => (h.resolve_left (lt_irrefl _)).2, fun h => .inr ⟨rfl, h⟩⟩
  rw [hcolon]
  have hlt : maxScore - p.score < maxScore - q.score ↔ q.score < p.score := by omega
  have heq : maxScore - p.score = maxScore - q.score ↔ p.score = q.score := by omega
  rw [hlt, heq]

theorem lex_le {p q : Player} (hp : p.score ≤ maxScore) (hq : q.score ≤ maxScore) : p.lex ≤ q.lex ↔ p ≤ q := by
  rw [← not_lt, ← not_lt, lex_lt hq hp]

/-- The scores of a season are in range. -/
def Bounded (players : List Player) : Prop := ∀ player ∈ players, player.score ≤ maxScore

variable {players part : List Player} {target : Player}

theorem Bounded.perm (h : Bounded players) (hperm : part.Perm players) : Bounded part := fun p hp => h p (hperm.mem_iff.mp hp)

theorem sortedCandidates_map (h : Bounded players) :
    sortedCandidates (players.map Player.candidate) = (ordered players).map Player.candidate := by
  rw [sortedCandidates, ordered]
  refine (map_mergeSort fun p hp q hq => ?_).symm
  exact decide_eq_decide.mpr (lex_le (h p hp) (h q hq)).symm

theorem order_eq (h : Bounded players) : (Shard.of players).order = (ordered players).map Player.lex := by
  show (players.map Player.lex).mergeSort _ = _
  refine (map_mergeSort fun p hp q hq => ?_).symm
  exact decide_eq_decide.mpr (lex_le (h p hp) (h q hq)).symm

/-! ### Answers of a shard -/

theorem mapM_map_ok {ε α β γ : Type} {f : β → Except ε γ} {e : α → β} {g : α → γ} {l : List α}
    (h : ∀ a ∈ l, f (e a) = .ok (g a)) : (l.map e).mapM f = .ok (l.map g) := by
  induction l with
  | nil => rfl
  | cons a l ih =>
    rw [map_cons, mapM_cons, h a mem_cons_self, ih fun b hb => h b (mem_cons_of_mem _ hb)]
    rfl

theorem lookup_score (hnodup : (players.map Player.user).Nodup) (hmem : target ∈ players) :
    (Shard.of players).scores.lookup target.user = some (-(target.score : ℤ)) := by
  show (players.map fun player => (player.user, -(player.score : ℤ))).lookup target.user = _
  induction players with
  | nil => exact absurd hmem not_mem_nil
  | cons player players ih =>
    rw [map_cons, nodup_cons] at hnodup
    rw [map_cons, List.lookup_cons]
    rcases mem_cons.mp hmem with rfl | hmem
    · rw [beq_self_eq_true]
    · have hne : target.user ≠ player.user := fun heq => hnodup.1 (heq ▸ mem_map_of_mem hmem)
      rw [beq_eq_false_iff_ne.mpr hne]
      exact ih hnodup.2 hmem

theorem candidate_lex (hnodup : (players.map Player.user).Nodup) (h : Bounded players) (hmem : target ∈ players) :
    (Shard.of players).candidate target.lex = .ok target.candidate := by
  have hscore := h target hmem
  have hwidth : maxScore - target.score < 10 ^ 10 := (Nat.sub_le ..).trans_lt (by decide)
  have hlength := length_zeroPadded 10 (maxScore - target.score)
  have htake : target.lex.take 10 = zeroPadded 10 (maxScore - target.score) := take_left' hlength
  have hdrop : target.lex.drop 11 = target.user := by
    rw [Player.lex, lexMember, append_cons]
    exact drop_left' (by rw [length_append, hlength]; rfl)
  have hcolon : target.lex[10]? = some ':' := by
    rw [Player.lex, lexMember, getElem?_append_right hlength.le, hlength]
    rfl
  have hnumber : tonumber (target.lex.take 10) = some (maxScore - target.score) := by
    rw [htake, tonumber, if_pos, decimalValue_zeroPadded hwidth]
    exact ⟨fun hnil => (by rw [hnil] at hlength; cases hlength), all_eq_true.mpr (zeroPadded_isDigit hwidth)⟩
  have hback : maxScore - (maxScore - target.score) = target.score := by omega
  rw [Shard.candidate, hnumber]
  dsimp only
  rw [if_pos ⟨⟨hcolon, Nat.sub_le ..⟩, by rw [hdrop, hback]; exact lookup_score hnodup hmem⟩, hdrop, hback]
  rfl

theorem mapM_candidate (hnodup : (players.map Player.user).Nodup) (h : Bounded players) (hsub : part ⊆ players) :
    (part.map Player.lex).mapM (Shard.of players).candidate = .ok (part.map Player.candidate) :=
  mapM_map_ok fun _ hp => candidate_lex hnodup h (hsub hp)

theorem ordered_filter (players : List Player) (p : Player → Bool) :
    (ordered players).filter p = ordered (players.filter p) :=
  (ordered_eq ((pairwise_ordered players).filter p) ((ordered_perm players).symm.filter p)).symm

/-- The members that a shard filters are those of the players it would filter. -/
theorem filter_order (h : Bounded players) {p : Text → Bool} {q : Player → Bool}
    (hfilter : ∀ player ∈ players, p player.lex = q player) :
    (Shard.of players).order.filter p = (ordered (players.filter q)).map Player.lex := by
  rw [order_eq h, filter_map, ← ordered_filter]
  congr 1
  exact filter_congr fun player hp => hfilter player ((ordered_perm players).mem_iff.mp hp)

theorem top_answer (hnodup : (players.map Player.user).Nodup) (h : Bounded players) (limit : ℕ) :
    (Shard.of players).top limit = .ok ((smallest limit players).map Player.candidate) := by
  rw [Shard.top, order_eq h, ← map_take]
  exact mapM_candidate hnodup h fun p hp => mem_of_mem_smallest hp

/-- The number of players with a higher score. -/
def higher (players : List Player) (score : ℕ) : ℕ := (players.filter (score < ·.score)).length

theorem count_scores (players : List Player) (score : ℕ) :
    ((Shard.of players).scores.filter fun entry => entry.2 < -(score : ℤ)).length = higher players score := by
  rw [Shard.of, filter_map, length_map, higher]
  congr 2
  funext p
  exact decide_eq_decide.mpr (by show -(p.score : ℤ) < -(score : ℤ) ↔ _; omega)

theorem around_answer (hnodup : (players.map Player.user).Nodup) (h : Bounded players) (ht : target.score ≤ maxScore)
    (radius : ℕ) : (Shard.of players).around target.lex target.score radius = .ok {
      higher := higher players target.score
      before := (players.filter (· < target)).length
      above := (greatest radius (players.filter (· < target))).map Player.candidate
      below := (smallest radius (players.filter (target < ·))).map Player.candidate } := by
  have hlt := filter_order (p := (decide <| · < target.lex)) (q := (decide <| · < target)) h fun p hp =>
    decide_eq_decide.mpr (lex_lt (h p hp) ht)
  have hgt := filter_order (p := (decide <| target.lex < ·)) (q := (decide <| target < ·)) h fun p hp =>
    decide_eq_decide.mpr (lex_lt ht (h p hp))
  have habove : (((Shard.of players).order.filter (· < target.lex)).reverse.take radius).mapM (Shard.of players).candidate =
      .ok ((greatest radius (players.filter (· < target))).map Player.candidate) := by
    rw [hlt, ← map_reverse, ← map_take, greatest, mergeSort_ge]
    refine mapM_candidate hnodup h fun p hp => ?_
    exact mem_of_mem_filter ((ordered_perm _).mem_iff.mp (mem_reverse.mp (mem_of_mem_take hp)))
  have hbelow : (((Shard.of players).order.filter (target.lex < ·)).take radius).mapM (Shard.of players).candidate =
      .ok ((smallest radius (players.filter (target < ·))).map Player.candidate) := by
    rw [hgt, ← map_take]
    exact mapM_candidate hnodup h fun p hp => mem_of_mem_filter (mem_of_mem_smallest hp)
  have hbefore : ((Shard.of players).order.filter (· < target.lex)).length = (players.filter (· < target)).length := by
    rw [hlt, length_map, (ordered_perm _).length_eq]
  rw [Shard.around, habove, hbelow, hbefore, count_scores]
  rfl

theorem target_answer (hnodup : (players.map Player.user).Nodup) (h : Bounded players) (hmem : target ∈ players) :
    (Shard.of players).target target.user = .ok (some target.candidate) := by
  have hscore := h target hmem
  have hsum : ((maxScore : ℤ) + -(target.score : ℤ)).toNat = maxScore - target.score := by omega
  have horder : target.lex ∈ (Shard.of players).order := by
    rw [order_eq h]
    exact mem_map_of_mem ((ordered_perm players).mem_iff.mpr hmem)
  have hmember : zeroPadded 10 (maxScore - target.score) ++ ':' :: target.user = target.lex := rfl
  rw [Shard.target, lookup_score hnodup hmem]
  dsimp only
  rw [hsum, hmember, candidate_lex hnodup h hmem, require, if_pos horder]
  rfl

/-! ### Checks of the merging -/

variable (hash : Text → ℕ) {n : ℕ}

/-- A season: different users with identifiers, scores in range, and not too many of them. -/
structure Season (players : List Player) : Prop where
  nodup : (players.map Player.user).Nodup
  identifiers : ∀ player ∈ players, isIdentifier player.user = true
  bounded : Bounded players
  few : players.length ≤ 10000

/-- The players of a shard. -/
def shardOf (n : ℕ) (players : List Player) (shard : ℕ) : List Player :=
  players.filter fun player => shardFor hash player.user n = shard

theorem row_candidate {shard : ℕ} (h : Season players) (hmem : target ∈ shardOf hash n players shard) :
    row hash target.candidate shard n = .ok target.candidate := by
  obtain ⟨hplayer, hshard⟩ := mem_filter.mp hmem
  rw [row, require, if_pos ⟨h.identifiers target hplayer, h.bounded target hplayer, of_decide_eq_true hshard, rfl⟩]
  rfl

theorem Bounded.shardOf (h : Bounded players) (shard : ℕ) : Bounded (shardOf hash n players shard) := fun p hp =>
  h p (mem_of_mem_filter hp)

theorem nodup_shardOf (h : (players.map Player.user).Nodup) (shard : ℕ) :
    ((shardOf hash n players shard).map Player.user).Nodup := h.sublist (filter_sublist.map _)

theorem pairwise_lex (h : Bounded part) (hsorted : part.Pairwise (· ≤ ·)) : (part.map Player.lex).Pairwise (· ≤ ·) := by
  rw [pairwise_map]
  exact hsorted.imp_of_mem fun ha hb hab => (lex_le (h _ ha) (h _ hb)).mpr hab

/-- Sorted players of a shard pass the checks. -/
theorem rows_map {shard maximum : ℕ} {descending : Bool} (h : Season players)
    (hsub : part ⊆ shardOf hash n players shard) (hlength : part.length ≤ maximum) (hnodup : part.Nodup)
    (hsorted : if descending then part.reverse.Pairwise (· ≤ ·) else part.Pairwise (· ≤ ·)) :
    rows hash (part.map Player.candidate) shard n maximum descending = .ok (part.map Player.candidate) := by
  have hbounded : Bounded part := fun p hp => h.bounded p (mem_of_mem_filter (hsub hp))
  have hrows : (part.map Player.candidate).mapM (fun value => row hash value shard n) = .ok (part.map Player.candidate) :=
    mapM_map_ok fun p hp => row_candidate hash h (hsub hp)
  have husers : ((part.map Player.candidate).map Candidate.user).Nodup := by
    rw [map_map]
    refine (nodup_map_iff_inj_on hnodup).mpr fun p hp q hq heq => ?_
    exact inj_on_of_nodup_map h.nodup (mem_of_mem_filter (hsub hp)) (mem_of_mem_filter (hsub hq)) heq
  have hkeys : (part.map Player.candidate).map Candidate.lex =
      sortedKeys ((part.map Player.candidate).map Candidate.lex) descending := by
    rw [map_map]
    show part.map Player.lex = sortedKeys (part.map Player.lex) descending
    cases descending with
    | false => exact (ordered_eq (pairwise_lex hbounded hsorted) (Perm.refl _)).symm
    | true =>
      have hreverse : Bounded part.reverse := hbounded.perm (reverse_perm part)
      show _ = (part.map Player.lex).mergeSort fun a b => decide (b ≤ a)
      rw [mergeSort_ge, ordered_eq (pairwise_lex hreverse hsorted) ((reverse_perm part).symm.map _), map_reverse,
        reverse_reverse]
  rw [rows, require, if_pos (by rwa [length_map]), hrows]
  show (require _ _ >>= fun _ => _) = _
  rw [require, if_pos ⟨husers, hkeys⟩]
  rfl

theorem Season.nodup_players (h : Season players) : players.Nodup := Nodup.of_map _ h.nodup

theorem nodup_shards (h : players.Nodup) : ((List.range n).map (shardOf hash n players)).flatten.Nodup := by
  rw [nodup_flatten]
  refine ⟨fun part hpart => ?_, pairwise_map.mpr (nodup_range.imp fun hne p hp hq => hne ?_)⟩
  · obtain ⟨k, -, rfl⟩ := mem_map.mp hpart
    exact h.filter _
  · exact (of_decide_eq_true (mem_filter.mp hp).2).symm.trans (of_decide_eq_true (mem_filter.mp hq).2)

theorem flatten_shards (hn : 0 < n) (h : players.Nodup) :
    ((List.range n).map (shardOf hash n players)).flatten.Perm players := by
  refine (perm_ext_iff_of_nodup (nodup_shards hash h) h).mpr fun p => ?_
  rw [mem_flatten]
  constructor
  · rintro ⟨part, hpart, hp⟩
    obtain ⟨k, -, rfl⟩ := mem_map.mp hpart
    exact mem_of_mem_filter hp
  · intro hp
    refine ⟨shardOf hash n players (shardFor hash p.user n), mem_map_of_mem ?_, ?_⟩
    · exact mem_range.mpr (Nat.mod_lt _ hn)
    · exact mem_filter.mpr ⟨hp, by simp⟩

theorem flatten_filter (hn : 0 < n) (h : players.Nodup) (p : Player → Bool) :
    (((List.range n).map fun k => (shardOf hash n players k).filter p).flatten).Perm (players.filter p) := by
  have := (flatten_shards hash hn h).filter p
  rwa [filter_flatten, map_map] at this

theorem zipIdx_map_range {α : Type} (f : ℕ → α) (n : ℕ) :
    ((List.range n).map f).zipIdx = (List.range n).map fun k => (f k, k) := by
  refine ext_getElem (by simp) fun i h h' => ?_
  simp

/-- The shards of a season. -/
def store (n : ℕ) (players : List Player) : List Shard := (List.range n).map fun k => Shard.of (shardOf hash n players k)

theorem length_store (n : ℕ) (players : List Player) : (store hash n players).length = n := by
  rw [store, length_map, length_range]

/-! ### The best ten -/

/-- The rows of all players: their positions in the order, and one more than the players with higher scores. -/
def ranking (players : List Player) : List Row :=
  ((ordered players).zipIdx 1).map fun entry =>
    ⟨entry.1.user, entry.1.score, 1 + (higher players entry.1.score : ℤ), entry.2⟩

theorem higher_perm (h : part.Perm players) (score : ℕ) : higher part score = higher players score :=
  (h.filter _).length_eq

/-- All before have higher scores if the last one has. -/
theorem higher_of_sorted {done rest : List Player} (hsorted : (done ++ target :: rest).Pairwise (· ≤ ·))
    (hlast : ∀ last ∈ done.getLast?, last.score ≠ target.score) :
    higher (done ++ target :: rest) target.score = done.length := by
  rw [pairwise_append, pairwise_cons] at hsorted
  have hrest : (target :: rest).filter (target.score < ·.score) = [] := by
    refine filter_eq_nil_iff.mpr fun p hp hlt => ?_
    have hscore : p.score ≤ target.score := by
      rcases mem_cons.mp hp with rfl | hp
      · exact le_rfl
      · exact Player.score_le (hsorted.2.1.1 p hp)
    exact absurd (of_decide_eq_true hlt) (not_lt.mpr hscore)
  have hdone : done.filter (target.score < ·.score) = done := by
    refine filter_eq_self.mpr fun p hp => decide_eq_true ?_
    obtain ⟨init, last, rfl⟩ := (eq_nil_or_concat' done).resolve_left (ne_nil_of_mem hp)
    have hne := hlast last (getLast?_concat ..)
    have hlt : target.score < last.score :=
      lt_of_le_of_ne (Player.score_le (hsorted.2.2 last (mem_append_right _ mem_cons_self) target mem_cons_self))
        hne.symm
    rcases mem_append.mp hp with hp | hp
    · exact hlt.trans_le (Player.score_le ((pairwise_append.mp hsorted.1).2.2 p hp last mem_cons_self))
    · rw [mem_singleton.mp hp]
      exact hlt
  rw [higher, filter_append, hdone, hrest, append_nil]

theorem competition_eq (done rest : List Player) (hsorted : (done ++ rest).Pairwise (· ≤ ·)) (rank : ℕ)
    (hrank : ∀ last ∈ done.getLast?, rank = 1 + higher (done ++ rest) last.score) :
    competition (done.length + 1) rank (done.getLast?.map Player.score) (rest.map Player.candidate) =
      (rest.zipIdx (done.length + 1)).map fun entry =>
        ⟨entry.1.user, entry.1.score, 1 + (higher (done ++ rest) entry.1.score : ℤ), entry.2⟩ := by
  induction rest generalizing done rank with
  | nil => rfl
  | cons p rest ih =>
    have hconcat : done ++ p :: rest = (done ++ [p]) ++ rest := by rw [append_assoc]; rfl
    have htail {next : ℕ} (hnext : next = 1 + higher (done ++ p :: rest) p.score) :
        (⟨p.user, p.score, next, (done.length + 1 : ℕ)⟩ : Row) ::
          competition (done.length + 1 + 1) next (some p.score) (rest.map Player.candidate) =
        ((p :: rest).zipIdx (done.length + 1)).map fun entry =>
          ⟨entry.1.user, entry.1.score, 1 + (higher (done ++ p :: rest) entry.1.score : ℤ), entry.2⟩ := by
      have hrest := ih (done ++ [p]) (hconcat ▸ hsorted) next fun last hlast => by
        rw [getLast?_concat] at hlast
        rw [← Option.some.inj hlast, ← hconcat, hnext]
      rw [length_append, length_singleton, getLast?_concat, ← hconcat] at hrest
      rw [zipIdx_cons, map_cons]
      refine congrArg₂ List.cons ?_ hrest
      rw [hnext]
      simp
    rw [map_cons, competition]
    split
    · rename_i hne
      refine htail ?_
      rw [higher_of_sorted hsorted, Nat.add_comm]
      intro last hlast heq
      refine hne ?_
      rw [hlast, Option.map_some, heq]
      rfl
    · rename_i heq
      rw [not_not] at heq
      obtain ⟨last, hlast, hscore⟩ := Option.map_eq_some_iff.mp heq.symm
      refine htail ?_
      rw [hrank last hlast, hscore]
      rfl

theorem competition_take (k position rank : ℕ) (previous : Option ℕ) (values : List Candidate) :
    competition position rank previous (values.take k) = (competition position rank previous values).take k := by
  induction values generalizing k position rank previous with
  | nil => simp [competition]
  | cons value values ih =>
    cases k with
    | zero => rfl
    | succ k =>
      rw [take_succ_cons, competition, competition, take_succ_cons]
      exact congrArg _ (ih ..)

theorem competition_ordered (players : List Player) :
    competition 1 0 none ((ordered players).map Player.candidate) = ranking players := by
  have h := competition_eq [] (ordered players) (pairwise_ordered players) 0 fun _ hlast => by cases hlast
  refine h.trans ?_
  rw [ranking, nil_append]
  refine map_congr_left fun entry _ => ?_
  rw [higher_perm (ordered_perm players)]

theorem queryTop_eq (h : Season players) (hn : 0 < n) :
    queryTop hash (store hash n players) = .ok ((ranking players).take 10) := by
  have hanswers : (store hash n players).mapM (fun shard => shard.top 10) =
      .ok ((List.range n).map fun k => (smallest 10 (shardOf hash n players k)).map Player.candidate) :=
    mapM_map_ok fun k _ => top_answer (nodup_shardOf hash h.nodup k) (h.bounded.shardOf hash k) 10
  have hrows : ((List.range n).map fun k => ((smallest 10 (shardOf hash n players k)).map Player.candidate, k)).mapM
      (fun part => rows hash part.1 part.2 n 10 false) =
      .ok ((List.range n).map fun k => (smallest 10 (shardOf hash n players k)).map Player.candidate) :=
    mapM_map_ok fun k _ => rows_map hash h (fun p hp => mem_of_mem_smallest hp) (length_smallest_le ..)
      (nodup_smallest (h.nodup_players.filter _)) (pairwise_smallest ..)
  have hflatten : ((List.range n).map fun k => (smallest 10 (shardOf hash n players k)).map Player.candidate).flatten =
      ((((List.range n).map (shardOf hash n players)).map (smallest 10)).flatten).map Player.candidate := by
    rw [map_flatten, map_map, map_map]
    rfl
  have hbounded : Bounded (((List.range n).map (shardOf hash n players)).map (smallest 10)).flatten := by
    intro p hp
    obtain ⟨part, hpart, hp⟩ := mem_flatten.mp hp
    obtain ⟨whole, hwhole, rfl⟩ := mem_map.mp hpart
    obtain ⟨k, -, rfl⟩ := mem_map.mp hwhole
    exact h.bounded p (mem_of_mem_filter (mem_of_mem_smallest hp))
  have hten : (ordered (((List.range n).map (shardOf hash n players)).map (smallest 10)).flatten).take 10 =
      (ordered players).take 10 :=
    (smallest_flatten 10 _ (nodup_shards hash h.nodup_players)).trans
      (smallest_congr 10 (flatten_shards hash hn h.nodup_players))
  have htop : top hash ((List.range n).map fun k => (smallest 10 (shardOf hash n players k)).map Player.candidate) n =
      .ok ((ranking players).take 10) := by
    rw [top, zipIdx_map_range, hrows]
    show Except.ok (competition 1 0 none ((sortedCandidates _).take 10)) = _
    rw [hflatten, sortedCandidates_map hbounded, ← map_take, hten, map_take, competition_take, competition_ordered]
  rw [queryTop, hanswers, length_store]
  exact htop

/-! ### The users around -/

/-- The answer of a shard about the users around one. -/
def aroundOf (radius : ℕ) (target : Player) (part : List Player) : Around :=
  ⟨higher part target.score, (part.filter (· < target)).length,
    (greatest radius (part.filter (· < target))).map Player.candidate,
    (smallest radius (part.filter (target < ·))).map Player.candidate⟩

theorem mem_of_mem_greatest {radius : ℕ} {p : Player} (h : p ∈ greatest radius part) : p ∈ part :=
  (List.mergeSort_perm ..).mem_iff.mp (mem_of_mem_take h)

theorem gather_eq (h : Season players) (ht : target.score ≤ maxScore) (radius shard : ℕ)
    (above below : List Candidate) (preceding : ℕ) :
    gather hash target.candidate radius n (above, below, preceding)
        (aroundOf radius target (shardOf hash n players shard), shard) =
      .ok (above ++ (aroundOf radius target (shardOf hash n players shard)).above,
        below ++ (aroundOf radius target (shardOf hash n players shard)).below,
        preceding + (aroundOf radius target (shardOf hash n players shard)).before) := by
  have hnodup : (shardOf hash n players shard).Nodup := h.nodup_players.filter _
  have hbounded := h.bounded.shardOf hash (n := n) shard
  have hbefore : (aroundOf radius target (shardOf hash n players shard)).before ≤ 10000 :=
    (length_filter_le ..).trans ((length_filter_le ..).trans h.few)
  have hhigher : (aroundOf radius target (shardOf hash n players shard)).higher ≤
      (aroundOf radius target (shardOf hash n players shard)).before := by
    show ((shardOf hash n players shard).filter _).length ≤ ((shardOf hash n players shard).filter _).length
    rw [← countP_eq_length_filter, ← countP_eq_length_filter]
    refine countP_mono_left fun p _ hp => decide_eq_true (Player.lt_iff.mpr (.inl ?_))
    exact of_decide_eq_true hp
  have habove : rows hash (aroundOf radius target (shardOf hash n players shard)).above shard n radius true =
      .ok (aroundOf radius target (shardOf hash n players shard)).above := by
    refine rows_map hash h (fun p hp => mem_of_mem_filter (mem_of_mem_greatest hp)) (length_take_le ..) ?_ ?_
    · exact ((List.mergeSort_perm ..).nodup_iff.mpr (hnodup.filter _)).sublist (take_sublist ..)
    · rw [if_pos rfl, ← largest_eq_greatest]
      exact (pairwise_ordered _).sublist (drop_sublist ..)
  have hbelow : rows hash (aroundOf radius target (shardOf hash n players shard)).below shard n radius false =
      .ok (aroundOf radius target (shardOf hash n players shard)).below :=
    rows_map hash h (fun p hp => mem_of_mem_filter (mem_of_mem_smallest hp)) (length_smallest_le ..)
      (nodup_smallest (hnodup.filter _)) (pairwise_smallest ..)
  have hcrossed : (∀ value ∈ (aroundOf radius target (shardOf hash n players shard)).above,
        value.lex < target.candidate.lex) ∧
      ∀ value ∈ (aroundOf radius target (shardOf hash n players shard)).below, target.candidate.lex < value.lex := by
    constructor
    · intro value hvalue
      obtain ⟨p, hp, rfl⟩ := mem_map.mp hvalue
      obtain ⟨hmem, hlt⟩ := mem_filter.mp (mem_of_mem_greatest hp)
      exact (lex_lt (hbounded p hmem) ht).mpr (of_decide_eq_true hlt)
    · intro value hvalue
      obtain ⟨p, hp, rfl⟩ := mem_map.mp hvalue
      obtain ⟨hmem, hlt⟩ := mem_filter.mp (mem_of_mem_smallest hp)
      exact (lex_lt ht (hbounded p hmem)).mpr (of_decide_eq_true hlt)
  rw [gather, require, if_pos hbefore, require, if_pos hhigher, habove, hbelow]
  show (require _ _ >>= fun _ => _) = _
  rw [require, if_pos hcrossed]
  rfl

theorem gather_all (h : Season players) (ht : target.score ≤ maxScore) (radius : ℕ) (shards : List ℕ)
    (above below : List Candidate) (preceding : ℕ) :
    (shards.map fun k => (aroundOf radius target (shardOf hash n players k), k)).foldlM
        (gather hash target.candidate radius n) (above, below, preceding) =
      .ok (above ++ (shards.map fun k => (aroundOf radius target (shardOf hash n players k)).above).flatten,
        below ++ (shards.map fun k => (aroundOf radius target (shardOf hash n players k)).below).flatten,
        preceding + (shards.map fun k => (aroundOf radius target (shardOf hash n players k)).before).sum) := by
  induction shards generalizing above below preceding with
  | nil => simp [pure, Except.pure]
  | cons k shards ih =>
    rw [map_cons, foldlM_cons, gather_eq hash h ht]
    refine (ih ..).trans ?_
    simp only [map_cons, flatten_cons, sum_cons, append_assoc, Nat.add_assoc]

theorem sortedCandidates_flatten (h : Bounded players) (parts : List (List Player)) (hsub : parts.flatten ⊆ players) :
    sortedCandidates (parts.map (List.map Player.candidate)).flatten = (ordered parts.flatten).map Player.candidate := by
  rw [← map_flatten]
  exact sortedCandidates_map fun p hp => h p (hsub hp)

/-- The merged neighbours and the position of the first of them. -/
theorem neighbors_eq (h : Season players) (hn : 0 < n) (hmem : target ∈ players) (radius : ℕ) :
    neighbors hash target.candidate ((List.range n).map fun k => aroundOf radius target (shardOf hash n players k)) radius n =
      .ok ((largest radius (players.filter (· < target)) ++ target :: smallest radius (players.filter (target < ·))).map
        Player.candidate,
        1 + ((players.filter (· < target)).length : ℤ) - ((largest radius (players.filter (· < target))).length : ℤ)) := by
  have hnodup := h.nodup_players
  have ht := h.bounded target hmem
  have hside (p : Player → Bool) : ((List.range n).map fun k => (shardOf hash n players k).filter p).flatten ⊆ players :=
    fun q hq => mem_of_mem_filter ((flatten_filter hash hn hnodup p).mem_iff.mp hq)
  have hsideNodup (p : Player → Bool) : ((List.range n).map fun k => (shardOf hash n players k).filter p).flatten.Nodup :=
    (flatten_filter hash hn hnodup p).nodup_iff.mpr (hnodup.filter _)
  -- what is above, what is below, and how many are before
  have hmerged (p : Player → Bool) (pick : List Player → List Player) (hpick : ∀ part, pick part ⊆ part) :
      sortedCandidates ((List.range n).map fun k => (pick ((shardOf hash n players k).filter p)).map Player.candidate).flatten =
        (ordered (((List.range n).map fun k => (shardOf hash n players k).filter p).map pick).flatten).map
          Player.candidate := by
    rw [← sortedCandidates_flatten h.bounded]
    · rw [map_map, map_map]
      rfl
    · intro q hq
      obtain ⟨part, hpart, hq⟩ := mem_flatten.mp hq
      obtain ⟨whole, hwhole, rfl⟩ := mem_map.mp hpart
      exact hside _ (mem_flatten.mpr ⟨whole, hwhole, hpick _ hq⟩)
  have habove := hmerged (· < target) (greatest radius) fun _ _ => mem_of_mem_greatest
  have hbelow := hmerged (target < ·) (smallest radius) fun _ _ => mem_of_mem_smallest
  have hpreceding : ((List.range n).map fun k => (aroundOf radius target (shardOf hash n players k)).before).sum =
      (players.filter (· < target)).length := by
    rw [← (flatten_filter hash hn hnodup _).length_eq, length_flatten, map_map]
    rfl
  have hfew : (players.filter (· < target)).length < 10000 := by
    refine lt_of_lt_of_le ?_ h.few
    exact length_filter_lt_length_iff_exists.mpr ⟨target, hmem, by simp⟩
  have hlargest : (ordered (((List.range n).map fun k => (shardOf hash n players k).filter (· < target)).map
      (greatest radius)).flatten).drop ((ordered (((List.range n).map fun k => (shardOf hash n players k).filter
        (· < target)).map (greatest radius)).flatten).length - radius) = largest radius (players.filter (· < target)) := by
    refine (largest_flatten radius _ (hsideNodup _)).trans ?_
    rw [largest_eq_greatest, greatest_congr radius (flatten_filter hash hn hnodup _), largest_eq_greatest]
  have hsmallest : (ordered (((List.range n).map fun k => (shardOf hash n players k).filter (target < ·)).map
      (smallest radius)).flatten).take radius = smallest radius (players.filter (target < ·)) :=
    (smallest_flatten radius _ (hsideNodup _)).trans (smallest_congr radius (flatten_filter hash hn hnodup _))
  have hzero : (if radius ≠ 0 then (largest radius (players.filter (· < target))).map Player.candidate else []) =
      (largest radius (players.filter (· < target))).map Player.candidate := by
    split
    · rfl
    · rename_i hzero
      rw [not_not.mp hzero, largest, Nat.sub_zero, drop_length]
      rfl
  rw [neighbors, zipIdx_map_range, gather_all hash h ht radius (List.range n) [] [] 0]
  show (require _ _ >>= fun _ => _) = _
  rw [Nat.zero_add, hpreceding, require, if_pos hfew, nil_append, nil_append]
  dsimp only [aroundOf]
  rw [habove, hbelow]
  show Except.ok (_, _) = _
  rw [length_map, ← map_drop, hlargest, ← map_take, hsmallest, hzero, length_map, map_append, map_cons, append_assoc]
  rfl

/-! ### Ranks -/

theorem counts_get (part : List Player) (scores : List ℕ) :
    (∀ score ∈ scores, ((Shard.of part).counts scores).get? (toString score) = some (higher part score)) ∧
      ∀ key value, ((Shard.of part).counts scores).get? key = some value →
        ∃ score ∈ scores, key = toString score ∧ value = higher part score := by
  have hfold : (Shard.of part).counts scores =
      scores.foldl (fun counts score => counts.set (toString score) (higher part score)) Dict.empty := by
    rw [Shard.counts]
    congr 1
    funext counts score
    rw [count_scores]
  rw [hfold]
  clear hfold
  induction scores using List.reverseRecOn with
  | nil => exact ⟨fun _ h => absurd h not_mem_nil, fun _ _ h => by cases h⟩
  | append_singleton scores last ih =>
    rw [foldl_append, foldl_cons, foldl_nil]
    constructor
    · intro score hscore
      by_cases heq : toString score = toString last
      · rw [heq, Dict.get?_set_self, Nat.repr_injective heq]
      · rw [Dict.get?_set_of_ne _ heq]
        refine ih.1 score ((mem_append.mp hscore).resolve_right fun hlast => heq ?_)
        rw [mem_singleton.mp hlast]
    · intro key value hget
      by_cases heq : key = toString last
      · rw [heq, Dict.get?_set_self] at hget
        exact ⟨last, mem_append_right _ mem_cons_self, heq, (Option.some.inj hget).symm⟩
      · rw [Dict.get?_set_of_ne _ heq] at hget
        obtain ⟨score, hscore, hkey, hvalue⟩ := ih.2 key value hget
        exact ⟨score, mem_append_left _ hscore, hkey, hvalue⟩

theorem higher_flatten (h : Season players) (hn : 0 < n) (score : ℕ) :
    ((List.range n).map fun k => higher (shardOf hash n players k) score).sum = higher players score := by
  have := (flatten_filter hash hn h.nodup_players (score < ·.score)).length_eq
  rw [length_flatten, map_map] at this
  exact this

/-- In the order at most the players before have a higher score. -/
theorem higher_le_position {p : Player} {position : ℕ} (h : (p, position) ∈ (ordered players).zipIdx 1) :
    1 + higher players p.score ≤ position ∧ position ≤ players.length := by
  obtain ⟨hpos, hget⟩ := mk_mem_zipIdx_iff_le_and_getElem?_sub.mp h
  obtain ⟨hlt, hp⟩ := List.getElem?_eq_some_iff.mp hget
  have hlength := (ordered_perm players).length_eq
  refine ⟨?_, by omega⟩
  have hsorted := pairwise_ordered players
  rw [← take_append_drop (position - 1) (ordered players), pairwise_append] at hsorted
  have hdrop : (ordered players).drop (position - 1) = p :: (ordered players).drop (position - 1 + 1) := by
    rw [← hp]
    exact (getElem_cons_drop ..).symm
  have hnone : ((ordered players).drop (position - 1)).filter (p.score < ·.score) = [] := by
    refine filter_eq_nil_iff.mpr fun q hq hqlt => ?_
    have hscore : q.score ≤ p.score := by
      rw [hdrop] at hq hsorted
      rcases mem_cons.mp hq with rfl | hq
      · exact le_rfl
      · exact Player.score_le ((pairwise_cons.mp hsorted.2.1).1 q hq)
    exact absurd (of_decide_eq_true hqlt) (not_lt.mpr hscore)
  have hcount : higher players p.score ≤ position - 1 := by
    rw [← higher_perm (ordered_perm players), higher, ← take_append_drop (position - 1) (ordered players),
      filter_append, hnone, append_nil]
    exact (length_filter_le ..).trans (length_take_le ..)
  omega

theorem zipIdx_shift {α : Type} (l : List α) (i : ℕ) : l.zipIdx i = l.zipIdx.map fun entry => (entry.1, i + entry.2) := by
  refine ext_getElem (by simp) fun j h h' => ?_
  simp

/-- The ranks of consecutive players of the order. -/
theorem ranks_eq (h : Season players) (hn : 0 < n) (around : List Player) (start : ℕ)
    (hplace : ∀ entry ∈ around.zipIdx start, entry ∈ (ordered players).zipIdx 1) :
    ranks (around.map Player.candidate) ((store hash n players).map fun shard => shard.counts
        ((((around.map Player.candidate).map Candidate.score).dedup).mergeSort)) start =
      .ok ((around.zipIdx start).map fun entry =>
        ⟨entry.1.user, entry.1.score, 1 + (higher players entry.1.score : ℤ), entry.2⟩) := by
  have hscores {score : ℕ} : score ∈ (((around.map Player.candidate).map Candidate.score).dedup).mergeSort ↔
      ∃ p ∈ around, p.score = score := by
    rw [mem_mergeSort, mem_dedup, map_map, mem_map]
    rfl
  generalize (((around.map Player.candidate).map Candidate.score).dedup).mergeSort = scores at hscores ⊢
  have hchecked : ∀ part ∈ (store hash n players).map (fun shard => shard.counts scores),
      (part.keys ⊆ ((around.map Player.candidate).map fun value => toString value.score) ∧
        ((around.map Player.candidate).map fun value => toString value.score) ⊆ part.keys) ∧
      ∀ count ∈ part.values, count ≤ 10000 := by
    intro part hpart
    obtain ⟨shard, hshard, rfl⟩ := mem_map.mp hpart
    obtain ⟨k, -, rfl⟩ := mem_map.mp hshard
    obtain ⟨hsome, honly⟩ := counts_get (shardOf hash n players k) scores
    refine ⟨⟨fun key hkey => ?_, fun key hkey => ?_⟩, fun count hcount => ?_⟩
    · obtain ⟨value, hvalue⟩ := Dict.mem_keys.mp hkey
      obtain ⟨score, hscore, rfl, -⟩ := honly key value hvalue
      obtain ⟨p, hp, rfl⟩ := hscores.mp hscore
      rw [map_map]
      exact mem_map_of_mem (f := fun p : Player => toString p.score) hp
    · rw [map_map] at hkey
      obtain ⟨p, hp, rfl⟩ := mem_map.mp hkey
      exact Dict.mem_keys.mpr ⟨_, hsome p.score (hscores.mpr ⟨p, hp, rfl⟩)⟩
    · obtain ⟨key, hkey⟩ := Dict.mem_values.mp hcount
      obtain ⟨score, -, -, rfl⟩ := honly key count hkey
      exact (length_filter_le ..).trans ((length_filter_le ..).trans h.few)
  have hsum {score : ℕ} (hscore : score ∈ scores) :
      (((store hash n players).map fun shard => shard.counts scores).map fun part =>
        (((part.get? (toString score)).getD 0 : ℕ) : ℤ)).sum = higher players score := by
    rw [store, map_map, map_map, ← higher_flatten hash h hn score, Nat.cast_list_sum, map_map]
    congr 1
    refine map_congr_left fun k _ => ?_
    show (((((Shard.of (shardOf hash n players k)).counts scores).get? (toString score)).getD 0 : ℕ) : ℤ) = _
    rw [(counts_get _ scores).1 score hscore]
    rfl
  rw [ranks]
  show (require _ _ >>= fun _ => _) = _
  rw [require, if_pos hchecked]
  show List.mapM _ _ = _
  rw [zipIdx_map, zipIdx_shift around start, map_map]
  refine mapM_map_ok fun entry hentry => ?_
  obtain ⟨p, i⟩ := entry
  have hp : p ∈ around := mem_of_getElem? (mk_mem_zipIdx_iff_getElem?.mp hentry)
  have hmem : (p, start + i) ∈ around.zipIdx start := by
    rw [zipIdx_shift]
    exact mem_map_of_mem (f := fun entry : Player × ℕ => (entry.1, start + entry.2)) hentry
  obtain ⟨hrank, hposition⟩ := higher_le_position (hplace _ hmem)
  have hfew := h.few
  dsimp only [Prod.map, Player.candidate, id]
  rw [hsum (hscores.mpr ⟨p, hp, rfl⟩), require, if_pos (by omega)]
  simp [bind, Except.bind, pure, Except.pure]

theorem ordered_split (hnodup : players.Nodup) (hmem : target ∈ players) :
    ordered players = ordered (players.filter (· < target)) ++ target :: ordered (players.filter (target < ·)) := by
  refine ordered_eq ?_ ?_
  · rw [pairwise_append, pairwise_cons]
    have hbelow {p : Player} (hp : p ∈ ordered (players.filter (· < target))) : p < target :=
      of_decide_eq_true (mem_filter.mp ((ordered_perm _).mem_iff.mp hp)).2
    have habove {p : Player} (hp : p ∈ ordered (players.filter (target < ·))) : target < p :=
      of_decide_eq_true (mem_filter.mp ((ordered_perm _).mem_iff.mp hp)).2
    refine ⟨pairwise_ordered _, ⟨fun p hp => (habove hp).le, pairwise_ordered _⟩, fun p hp q hq => ?_⟩
    rcases mem_cons.mp hq with rfl | hq
    · exact (hbelow hp).le
    · exact ((hbelow hp).trans (habove hq)).le
  · have hright : (target :: players.filter (target < ·)).Perm (players.filter fun p => !decide (p < target)) := by
      refine (perm_ext_iff_of_nodup ?_ (hnodup.filter _)).mpr fun p => ?_
      · exact nodup_cons.mpr ⟨by simp, hnodup.filter _⟩
      · rw [mem_cons, mem_filter, mem_filter, decide_eq_true_eq, Bool.not_eq_true', decide_eq_false_iff_not, not_lt]
        constructor
        · rintro (rfl | ⟨hp, hlt⟩)
          · exact ⟨hmem, le_rfl⟩
          · exact ⟨hp, hlt.le⟩
        · rintro ⟨hp, hle⟩
          exact hle.eq_or_lt.imp Eq.symm fun hlt => ⟨hp, hlt⟩
    have hpart : players.Perm (players.filter (· < target) ++ players.filter fun p => !decide (p < target)) :=
      (filter_append_perm _ players).symm
    refine hpart.trans (((ordered_perm _).symm.append ?_))
    exact hright.symm.trans ((ordered_perm _).symm.cons target)

/-- The users around are those whose positions are near. -/
theorem window_eq (hnodup : players.Nodup) (hmem : target ∈ players) (radius : ℕ) :
    ((ordered players).zipIdx 1).filter (fun entry =>
      decide ((players.filter (· < target)).length + 1 ≤ entry.2 + radius ∧
        entry.2 ≤ (players.filter (· < target)).length + 1 + radius)) =
      (largest radius (players.filter (· < target)) ++ target :: smallest radius (players.filter (target < ·))).zipIdx
        (1 + ((players.filter (· < target)).length - (largest radius (players.filter (· < target))).length)) := by
  have hbefore : (ordered (players.filter (· < target))).length = (players.filter (· < target)).length :=
    (ordered_perm _).length_eq
  have hlargest : (largest radius (players.filter (· < target))).length =
      (players.filter (· < target)).length - ((players.filter (· < target)).length - radius) := by
    rw [largest, length_drop, hbefore]
  have hsplit : ordered players = (ordered (players.filter (· < target))).take
        ((ordered (players.filter (· < target))).length - radius) ++
      ((largest radius (players.filter (· < target)) ++ target :: smallest radius (players.filter (target < ·))) ++
        (ordered (players.filter (target < ·))).drop radius) := by
    rw [ordered_split hnodup hmem, append_assoc, ← append_assoc (List.take ..), largest, take_append_drop, cons_append]
    exact congrArg _ (congrArg _ (take_append_drop radius _).symm)
  have hfront : ((ordered (players.filter (· < target))).take
      ((ordered (players.filter (· < target))).length - radius)).length = (players.filter (· < target)).length - radius := by
    rw [length_take, hbefore]
    omega
  rw [hsplit, zipIdx_append, zipIdx_append, filter_append, filter_append, hfront]
  generalize (players.filter (· < target)).length = before at *
  have hleft : (((ordered (players.filter (· < target))).take
      ((ordered (players.filter (· < target))).length - radius)).zipIdx 1).filter (fun entry =>
        decide (before + 1 ≤ entry.2 + radius ∧ entry.2 ≤ before + 1 + radius)) = [] := by
    refine filter_eq_nil_iff.mpr fun entry hentry hin => ?_
    have hlt := snd_lt_add_of_mem_zipIdx hentry
    have hnear := of_decide_eq_true hin
    rw [hfront] at hlt
    have hlow := le_snd_of_mem_zipIdx hentry
    omega
  have hmiddle : ∀ entry ∈ (largest radius (players.filter (· < target)) ++
      target :: smallest radius (players.filter (target < ·))).zipIdx (1 + (before - radius)),
      before + 1 ≤ entry.2 + radius ∧ entry.2 ≤ before + 1 + radius := by
    intro entry hentry
    have hlow := le_snd_of_mem_zipIdx hentry
    have hlt := snd_lt_add_of_mem_zipIdx hentry
    have hshort := length_smallest_le radius (players.filter (target < ·))
    rw [length_append, length_cons, hlargest] at hlt
    omega
  have hright : (((ordered (players.filter (target < ·))).drop radius).zipIdx (1 + (before - radius) +
      (largest radius (players.filter (· < target)) ++
        target :: smallest radius (players.filter (target < ·))).length)).filter (fun entry =>
        decide (before + 1 ≤ entry.2 + radius ∧ entry.2 ≤ before + 1 + radius)) = [] := by
    refine filter_eq_nil_iff.mpr fun entry hentry hin => ?_
    have hlow := le_snd_of_mem_zipIdx hentry
    have hlt := snd_lt_add_of_mem_zipIdx hentry
    have hnear := of_decide_eq_true hin
    have htake : (smallest radius (players.filter (target < ·))).length =
        min radius (ordered (players.filter (target < ·))).length := length_take ..
    rw [length_append, length_cons, hlargest, htake] at hlow hlt
    rw [length_drop] at hlt
    omega
  rw [hleft, hright, nil_append, append_nil, hlargest]
  have hstart : before - (before - (before - radius)) = before - radius := by omega
  rw [hstart]
  exact filter_eq_self.mpr fun entry hentry => decide_eq_true (hmiddle entry hentry)

theorem queryUser_eq (h : Season players) (hn : 0 < n) (hmem : target ∈ players) (radius : ℕ) :
    queryUser hash (store hash n players) target.user radius =
      .ok ((((ordered players).zipIdx 1).filter fun entry =>
        decide ((players.filter (· < target)).length + 1 ≤ entry.2 + radius ∧
          entry.2 ≤ (players.filter (· < target)).length + 1 + radius)).map fun entry =>
        ⟨entry.1.user, entry.1.score, 1 + (higher players entry.1.score : ℤ), entry.2⟩) := by
  have howner : shardFor hash target.user n < n := Nat.mod_lt _ hn
  have hown : target ∈ shardOf hash n players (shardFor hash target.user n) := mem_filter.mpr ⟨hmem, by simp⟩
  have hshard : (store hash n players)[shardFor hash target.user n]? =
      some (Shard.of (shardOf hash n players (shardFor hash target.user n))) := by
    rw [store, getElem?_map, getElem?_range howner]
    rfl
  have hparts : (store hash n players).mapM (fun shard => shard.around target.lex target.score radius) =
      .ok ((List.range n).map fun k => aroundOf radius target (shardOf hash n players k)) :=
    mapM_map_ok fun k _ => around_answer (nodup_shardOf hash h.nodup k) (h.bounded.shardOf hash k) (h.bounded _ hmem) radius
  have hle : (largest radius (players.filter (· < target))).length ≤ (players.filter (· < target)).length := by
    rw [← (ordered_perm (players.filter (· < target))).length_eq]
    exact (length_drop ..).le.trans (Nat.sub_le ..)
  have hstart : 1 + ((players.filter (· < target)).length : ℤ) - ((largest radius (players.filter (· < target))).length : ℤ) =
      ((1 + ((players.filter (· < target)).length - (largest radius (players.filter (· < target))).length) : ℕ) : ℤ) := by
    omega
  rw [queryUser, length_store, hshard]
  show ((Shard.of (shardOf hash n players (shardFor hash target.user n))).target target.user >>= _) = _
  rw [target_answer (nodup_shardOf hash h.nodup _) (h.bounded.shardOf hash _) hown]
  show (row hash target.candidate (shardFor hash target.user n) n >>= _) = _
  rw [row_candidate hash h hown]
  show (require _ _ >>= fun _ => _) = _
  rw [require, if_pos (show target.candidate.user = target.user from rfl)]
  show ((store hash n players).mapM (fun shard => shard.around target.lex target.score radius) >>= _) = _
  rw [hparts]
  show (neighbors hash target.candidate _ radius n >>= _) = _
  rw [neighbors_eq hash h hn hmem radius, hstart, window_eq h.nodup_players hmem radius]
  refine ranks_eq hash h hn _ _ fun entry hentry => ?_
  rw [← window_eq h.nodup_players hmem radius] at hentry
  exact mem_of_mem_filter hentry

/-- Merging the answers of any number of shards gives the first ten rows of the global order, and for a user the rows whose
positions are at most `radius` away. -/
theorem sharded_ranking (players : List Player) (h : Season players) (n : ℕ) (hn : 0 < n) :
    queryTop hash (store hash n players) = .ok ((ranking players).take 10) ∧
      ∀ target ∈ players, ∀ radius, ∃ mine ∈ ranking players, mine.user = target.user ∧
        queryUser hash (store hash n players) target.user radius = .ok ((ranking players).filter fun row =>
          decide (mine.position ≤ row.position + radius ∧ row.position ≤ mine.position + radius)) := by
  refine ⟨queryTop_eq hash h hn, fun target hmem radius => ?_⟩
  have hmine : (target, (players.filter (· < target)).length + 1) ∈ (ordered players).zipIdx 1 := by
    rw [ordered_split h.nodup_players hmem, zipIdx_append, (ordered_perm (players.filter (· < target))).length_eq,
      zipIdx_cons, Nat.add_comm]
    exact mem_append_right _ mem_cons_self
  refine ⟨_, mem_map_of_mem hmine, rfl, ?_⟩
  rw [queryUser_eq hash h hn hmem radius, ranking, filter_map]
  refine congrArg Except.ok (congrArg _ (filter_congr fun entry _ => decide_eq_decide.mpr ?_))
  show _ ↔ (((players.filter (· < target)).length + 1 : ℕ) : ℤ) ≤ (entry.2 : ℤ) + radius ∧
    (entry.2 : ℤ) ≤ (((players.filter (· < target)).length + 1 : ℕ) : ℤ) + radius
  omega

/-- Three users, two of them with one score. -/
def threePlayers : List Player := [⟨"ann".toList, 30⟩, ⟨"bob".toList, 50⟩, ⟨"cyd".toList, 30⟩]

theorem threePlayers_season : Season threePlayers :=
  ⟨by decide +kernel, by decide +kernel, show ∀ player ∈ threePlayers, player.score ≤ maxScore by decide, by decide⟩

theorem sharded_ranking_three :
    queryTop List.length (store List.length 2 threePlayers) = .ok ((ranking threePlayers).take 10) ∧
      ∀ target ∈ threePlayers, ∀ radius, ∃ mine ∈ ranking threePlayers, mine.user = target.user ∧
        queryUser List.length (store List.length 2 threePlayers) target.user radius =
          .ok ((ranking threePlayers).filter fun row =>
            decide (mine.position ≤ row.position + radius ∧ row.position ≤ mine.position + radius)) :=
  sharded_ranking List.length threePlayers threePlayers_season 2 (by decide)

end SystemDesign.Leaderboard
