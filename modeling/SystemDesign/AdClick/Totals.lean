import SystemDesign.AdClick.Digests

/-!
Queries: the totals of the workers, added up and ranked, are those of a count over all the
events the workers stand after (`reduce_iff`).
-/

namespace SystemDesign.Dict

open List hiding le_antisymm le_total

theorem entries_eq_map {κ ν : Type} [DecidableEq κ] {d : Dict κ ν} {f : κ → ν}
    (h : ∀ k v, d.get? k = some v → f k = v) : d.entries = d.keys.map fun k => (k, f k) := by
  unfold keys
  rw [map_map]
  refine Eq.trans (List.map_id _).symm (map_congr_left fun entry hentry => ?_)
  have hget : d.get? entry.1 = some entry.2 := mem_entries.mp hentry
  exact Prod.ext rfl (h _ _ hget).symm

end SystemDesign.Dict

namespace SystemDesign.AdClick

open List hiding le_antisymm le_total

variable {τ : Type} {clock : WorkerClock τ}

/-! ### The count over the events -/

/-- The clicks on an ad among the events a query selects. -/
def Query.clicks (q : Query) (events : List (Entry τ)) (ad : String) : ℕ :=
  events.countP fun entry => q.selects entry.event.key && entry.event.adId = ad

/-- The ads with a click among the events a query selects. -/
def Query.candidates (q : Query) (events : List (Entry τ)) : List String :=
  ((events.filter fun entry => q.selects entry.event.key).map fun entry => entry.event.adId).dedup

/-- The answer to a query, from all the events at once. -/
def Query.bruteForce (q : Query) (events : List (Entry τ)) : Answer :=
  ⟨(((q.candidates events).map fun ad => (ad, q.clicks events ad)).mergeSort rankBefore).take q.count,
    q.adId.map (q.clicks events)⟩

variable {events : List (Entry τ)} {q : Query}

theorem Query.mem_candidates {ad : String} : ad ∈ q.candidates events ↔ q.clicks events ad ≠ 0 := by
  unfold Query.candidates Query.clicks
  rw [mem_dedup, ← Nat.pos_iff_ne_zero, countP_pos_iff, mem_map]
  constructor
  · rintro ⟨entry, hentry, rfl⟩
    rw [mem_filter] at hentry
    exact ⟨entry, hentry.1, by simp [hentry.2]⟩
  · rintro ⟨entry, hentry, hok⟩
    rw [Bool.and_eq_true, decide_eq_true_eq] at hok
    exact ⟨entry, mem_filter.mpr ⟨hentry, hok.1⟩, hok.2⟩

theorem Query.candidates_length_le (q : Query) (events more : List (Entry τ)) :
    (q.candidates events).length ≤ (q.candidates (events ++ more)).length := by
  apply (nodup_dedup _).length_le_of_subset
  intro ad had
  change ad ∈ q.candidates events at had
  rw [Query.mem_candidates] at had ⊢
  unfold Query.clicks at had ⊢
  rw [countP_append]
  omega

/-! ### Adding rows up -/

/-- What the rows of an ad add up to. -/
def weigh (rows : List (String × ℕ)) (ad : String) : ℕ := ((rows.filter fun row => row.1 = ad).map Prod.snd).sum

/-- The totals of all ads; an ad with none has no entry. -/
def Sums (totals : Dict String ℕ) (f : String → ℕ) : Prop :=
  ∀ ad, totals.get? ad = if f ad = 0 then none else some (f ad)

/-- `totals[ad] += count`. -/
def addTo (totals : Dict String ℕ) (row : String × ℕ) : Dict String ℕ :=
  totals.set row.1 ((totals.get? row.1).getD 0 + row.2)

variable {totals : Dict String ℕ} {f : String → ℕ}

theorem Sums.getD (h : Sums totals f) (ad : String) : (totals.get? ad).getD 0 = f ad := by
  rw [h ad]
  split
  · rename_i hzero
    rw [hzero]
    rfl
  · rfl

theorem Sums.addTo {totals : Dict String ℕ} {f : String → ℕ} (h : Sums totals f) {row : String × ℕ} (hpos : 0 < row.2) :
    Sums (AdClick.addTo totals row) fun ad => f ad + if row.1 = ad then row.2 else 0 := by
  intro ad
  unfold AdClick.addTo
  rw [h.getD]
  by_cases had : row.1 = ad
  · subst had
    have hne : f row.1 + row.2 ≠ 0 := by omega
    simp only [if_true, Dict.get?_set_self, hne, if_false]
  · simp only [Dict.get?_set_of_ne _ (Ne.symm had), had, if_false, Nat.add_zero]
    exact h ad

variable {rows : List (String × ℕ)}

theorem Sums.addAll (hpos : ∀ row ∈ rows, 0 < row.2) (h : Sums totals f) :
    Sums (rows.foldl AdClick.addTo totals) fun ad => f ad + weigh rows ad := by
  induction rows generalizing totals f with
  | nil =>
    intro ad
    exact h ad
  | cons row rows ih =>
    have hrest := ih (fun r hr => hpos r (mem_cons_of_mem _ hr)) (h.addTo (hpos row mem_cons_self))
    have hsame : (fun ad => f ad + weigh (row :: rows) ad) =
        fun ad => (f ad + if row.1 = ad then row.2 else 0) + weigh rows ad := by
      funext ad
      unfold weigh
      by_cases had : row.1 = ad
      · simp [had, Nat.add_assoc]
      · simp [had]
    rw [hsame]
    exact hrest

theorem weigh_entries (totals : Dict String ℕ) (ad : String) : weigh totals.entries ad = (totals.get? ad).getD 0 := by
  have hlist : ∀ {rows : List (String × ℕ)}, (rows.map Prod.fst).Nodup → weigh rows ad = (rows.lookup ad).getD 0 := by
    intro rows
    induction rows with
    | nil => intro _; rfl
    | cons row rows ih =>
      intro hnodup
      rw [map_cons, nodup_cons] at hnodup
      obtain ⟨name, n⟩ := row
      rw [Assoc.lookup_cons]
      by_cases had : ad = name
      · subst had
        have hrest : rows.filter (fun row => decide (row.1 = ad)) = [] := by
          rw [filter_eq_nil_iff]
          intro row hrow heq
          exact hnodup.1 (mem_map.mpr ⟨row, hrow, of_decide_eq_true heq⟩)
        simp [weigh, hrest]
      · have hne : ¬ name = ad := fun h => had h.symm
        rw [if_neg had, ← ih hnodup.2]
        simp [weigh, hne]
  exact hlist totals.nodup

theorem Sums.entries_eq (h : Sums totals f) : totals.entries = totals.keys.map fun ad => (ad, f ad) := by
  apply Dict.entries_eq_map
  intro ad n hget
  rw [h ad] at hget
  split at hget
  · cases hget
  · exact Option.some.inj hget

theorem Sums.mem_keys {totals : Dict String ℕ} {f : String → ℕ} (h : Sums totals f) {ad : String} :
    ad ∈ totals.keys ↔ f ad ≠ 0 := by
  rw [Dict.mem_keys, h ad]
  split
  · rename_i hzero
    simp [hzero]
  · rename_i hne
    simp [hne]

theorem Sums.keys_perm (h : Sums totals (q.clicks events)) : totals.keys.Perm (q.candidates events) := by
  apply (perm_ext_iff_of_nodup totals.nodup (nodup_dedup _)).mpr
  intro ad
  exact h.mem_keys.trans Query.mem_candidates.symm

theorem Sums.length_eq {q : Query} {totals : Dict String ℕ} {events : List (Entry τ)}
    (h : Sums totals (q.clicks events)) : totals.entries.length = (q.candidates events).length := by
  have hlength := h.keys_perm.length_eq
  rw [← hlength, Dict.keys, length_map]

/-! ### A worker's totals -/

variable {done : List (Entry τ)} {lineage : String}

/-- The rows of a store, selected and grouped by ad. -/
theorem weigh_rows {s : Aggregate τ} (h : Counts lineage s done) (q : Query) (ad : String) :
    weigh ((s.rows.filter fun row => q.selects row.1).map fun row => (row.1.adId, row.2)) ad = q.clicks done ad := by
  have hequiv : (s.buckets.mapVal Bucket.count).sorted.Equiv (tallied done) :=
    (Dict.sorted_equiv _).trans (h.counts.equiv (tallies_tallied done))
  have hentries : s.rows = (s.buckets.mapVal Bucket.count).sorted.keys.map fun k => (k, tally done k) := by
    apply Dict.entries_eq_map
    intro k n hget
    rw [hequiv k, tallies_tallied done k] at hget
    split at hget
    · cases hget
    · exact Option.some.inj hget
  have hkeys : (s.buckets.mapVal Bucket.count).sorted.keys.Perm (done.map fun entry => entry.event.key).dedup := by
    apply (perm_ext_iff_of_nodup (Dict.nodup _) (nodup_dedup _)).mpr
    intro k
    rw [mem_dedup, ← mem_keys_tallied]
    exact (hequiv.entries_perm.map Prod.fst).mem_iff
  have hcount : ((((done.map fun entry => entry.event.key).dedup.filter
      fun k : Key => q.selects k && decide (k.adId = ad)).map (tally done))).sum =
      (done.map fun entry => entry.event.key).countP fun k => q.selects k && decide (k.adId = ad) := by
    convert sum_map_count_dedup_filter_eq_countP
      (fun k : Key => q.selects k && decide (k.adId = ad)) (done.map fun entry => entry.event.key)
    · rfl
    · unfold tally
      congr!
  unfold weigh
  rw [filter_map, map_map, filter_filter, hentries, filter_map, map_map]
  have hfilter : ((fun row : Key × ℕ => decide (row.1.adId = ad) && q.selects row.1) ∘
      fun k => (k, tally done k)) = fun k => q.selects k && decide (k.adId = ad) := by
    funext k
    exact Bool.and_comm _ _
  calc _ = (((s.buckets.mapVal Bucket.count).sorted.keys.filter
        fun k => q.selects k && decide (k.adId = ad)).map (tally done)).sum := by
        rw [← hfilter]
        rfl
    _ = _ := ((hkeys.filter _).map _).sum_eq
    _ = _ := hcount
    _ = q.clicks done ad := by
      rw [countP_map]
      rfl

/-- What a worker answered when it stood after the events `done`. -/
structure Told (q : Query) (part : Part τ) (done : List (Entry τ)) : Prop where
  sums : Sums part.totals (q.clicks done)
  length : part.totals.entries.length ≤ 10000
  rows : ∀ row ∈ part.totals.entries, 0 < row.2 ∧ row.2 ≤ maxPosition ∧ isText row.1 = true ∧
    q.adId.all (· = row.1) = true

variable {part : Part τ}

/-- Each total of a worker counts events of its store. -/
theorem totals_told {s : Aggregate τ} (h : Counts lineage s done) (hmax : done.length ≤ maxPosition)
    (htext : ∀ entry ∈ done, isText entry.event.adId = true) (hpart : s.totals q = .ok part) :
    Told q part done ∧ part.partition = s.partition ∧ part.lineage = s.lineage ∧ part.seq = s.seq ∧
      part.watermark = s.watermark := by
  obtain ⟨_, hlength, hpart⟩ := of_bind hpart
  obtain rfl := Except.ok.inj hpart
  have hlength := require_eq_ok.mp hlength
  have hsums : Sums (adTotals (s.rows.filter fun row => q.selects row.1)).sorted (q.clicks done) := by
    have hempty : Sums .empty fun _ => 0 := fun ad => rfl
    have hpos : ∀ row ∈ (s.rows.filter fun row => q.selects row.1).map fun row => (row.1.adId, row.2), 0 < row.2 := by
      intro row hrow
      obtain ⟨entry, hentry, rfl⟩ := mem_map.mp hrow
      have hget := Dict.mem_entries.mp (mem_of_mem_filter hentry)
      rw [Dict.sorted_equiv _ entry.1, h.counts entry.1] at hget
      split at hget
      · cases hget
      · rename_i hne
        rw [← Option.some.inj hget]
        exact Nat.pos_of_ne_zero hne
    have hall := hempty.addAll hpos
    rw [foldl_map] at hall
    intro ad
    rw [Dict.sorted_equiv _ ad, ← weigh_rows h q ad]
    exact (hall ad).trans (by simp only [Nat.zero_add])
  refine ⟨⟨hsums, hlength, ?_⟩, rfl, rfl, rfl, rfl⟩
  intro row hrow
  have hget := Dict.mem_entries.mp hrow
  rw [hsums row.1] at hget
  split at hget
  · cases hget
  · rename_i hne
    obtain hcount := Option.some.inj hget
    have hle : q.clicks done row.1 ≤ done.length := countP_le_length
    obtain ⟨entry, hentry, hok⟩ := countP_pos_iff.mp (Nat.pos_of_ne_zero hne)
    rw [Bool.and_eq_true, decide_eq_true_eq] at hok
    have hselects := hok.1
    unfold Query.selects at hselects
    rw [Bool.and_eq_true] at hselects
    refine ⟨by omega, by omega, hok.2 ▸ htext entry hentry, ?_⟩
    rw [← hok.2]
    exact hselects.2

/-! ### The reduction -/

/-- The rows of an answer that pass their checks are added up. -/
theorem addRows_ok (hrows : ∀ row ∈ rows, 0 < row.2 ∧
      row.2 ≤ maxPosition ∧ isText row.1 = true ∧ q.adId.all (· = row.1) = true) (totals : Dict String ℕ) :
    (rows.foldlM (fun totals row => do
      require (isText row.1 = true) (.valueError "ad_id must contain 1..128 printable characters")
      require (row.2 ≤ maxPosition) (.valueError "count must be an integer in range")
      require (q.adId.all (· = row.1)) (.http 503 "worker returned an unrelated ad")
      return totals.set row.1 ((totals.get? row.1).getD 0 + row.2)) totals : Except Error _) =
      .ok (rows.foldl addTo totals) := by
  induction rows generalizing totals with
  | nil => rfl
  | cons row rows ih =>
    obtain ⟨-, hmax, htext, had⟩ := hrows row mem_cons_self
    have hrest := ih (fun r hr => hrows r (mem_cons_of_mem _ hr))
      (totals.set row.1 ((totals.get? row.1).getD 0 + row.2))
    rw [foldlM_cons, foldl_cons]
    simp only [require, hmax, htext, had, if_true, bind, Except.bind, pure, Except.pure] at hrest ⊢
    exact hrest

theorem clicks_append (q : Query) (events more : List (Entry τ)) (ad : String) :
    q.clicks (events ++ more) ad = q.clicks events ad + q.clicks more ad := countP_append

/-- A worker's totals joined to others. -/
def joinTotals (totals : Dict String ℕ) (part : Part τ) : Dict String ℕ := part.totals.entries.foldl addTo totals

theorem Sums.join (h : Sums totals (q.clicks events)) (htold : Told q part done) :
    Sums (joinTotals totals part) (q.clicks (events ++ done)) := by
  have hadd := h.addAll fun row hrow => (htold.rows row hrow).1
  intro ad
  rw [clicks_append, ← htold.sums.getD ad, ← weigh_entries]
  exact hadd ad

variable {dones : List (List (Entry τ))} {parts : List (Part τ)}

theorem Sums.joinAll (htold : List.Forall₂ (Told q) parts dones) (h : Sums totals (q.clicks events)) :
    Sums (parts.foldl joinTotals totals) (q.clicks (events ++ dones.flatten)) := by
  induction htold generalizing totals events with
  | nil =>
    rw [flatten_nil, append_nil]
    exact h
  | cons hpart _ ih =>
    rw [flatten_cons, ← append_assoc]
    exact ih (h.join hpart)

/-- A worker's answer is joined when the worker is ready and the ads are not too many. -/
theorem reducePart_iff {totals' : Dict String ℕ} (h : Sums totals (q.clicks events)) (htold : Told q part done)
    {partition : ℕ} :
    reducePart clock q lineage totals partition part = .ok totals' ↔ checkPart clock part partition lineage = .ok () ∧
        (q.candidates (events ++ done)).length ≤ 10000 ∧ joinTotals totals part = totals' := by
  unfold reducePart
  rw [addRows_ok htold.rows, ← (h.join htold).length_eq]
  constructor
  · intro hreduce
    replace hreduce := of_check hreduce
    obtain ⟨_, hcheck, hreduce⟩ := of_bind hreduce
    obtain ⟨_, hsum, hreduce⟩ := of_bind hreduce
    obtain ⟨_, hmax, hreduce⟩ := of_bind hreduce
    obtain rfl := Except.ok.inj hsum
    exact ⟨hcheck, require_eq_ok.mp hmax, Except.ok.inj hreduce⟩
  · rintro ⟨hcheck, hmax, rfl⟩
    unfold joinTotals at hmax ⊢
    rw [hcheck]
    simp only [require, htold.length, hmax, if_true, bind, Except.bind, pure, Except.pure]

variable (clock) in
/-- All workers are ready, from partition `start` on, and the ads are not too many. -/
def Answerable (lineage : String) (start : ℕ) (parts : List (Part τ)) (ads : List String) : Prop :=
  (∀ i part, parts[i]? = some part → checkPart clock part (start + i) lineage = .ok ()) ∧ ads.length ≤ 10000

theorem answerable_cons {start : ℕ} {ads : List String} : Answerable clock lineage start (part :: parts) ads ↔
      checkPart clock part start lineage = .ok () ∧ Answerable clock lineage (start + 1) parts ads := by
  constructor
  · rintro ⟨hall, hlength⟩
    refine ⟨hall 0 part rfl, fun i part hget => ?_, hlength⟩
    rw [Nat.add_assoc, Nat.add_comm 1]
    exact hall (i + 1) part hget
  · rintro ⟨hone, hrest, hlength⟩
    refine ⟨fun i part' hget => ?_, hlength⟩
    cases i with
    | zero =>
      obtain rfl := Option.some.inj hget
      exact hone
    | succ i =>
      rw [Nat.add_comm i, ← Nat.add_assoc]
      exact hrest i part' hget

theorem reduceParts_iff (htold : List.Forall₂ (Told q) parts dones) (start : ℕ) {totals' : Dict String ℕ}
    (h : Sums totals (q.clicks events)) (hmax : (q.candidates events).length ≤ 10000) :
    (parts.zipIdx start).foldlM (fun totals part =>
      reducePart clock q lineage totals part.2 part.1) totals = .ok totals' ↔
      Answerable clock lineage start parts (q.candidates (events ++ dones.flatten)) ∧
        parts.foldl joinTotals totals = totals' := by
  induction htold generalizing start totals events with
  | nil =>
    rw [flatten_nil, append_nil]
    constructor
    · intro hfold
      exact ⟨⟨fun i part hget => by simp at hget, hmax⟩, Except.ok.inj hfold⟩
    · rintro ⟨-, rfl⟩
      rfl
  | @cons part done parts dones hpart _ ih =>
    rw [flatten_cons, ← append_assoc, zipIdx_cons, foldlM_cons, bind_eq_ok, answerable_cons, foldl_cons]
    constructor
    · rintro ⟨totals₁, hone, hrest⟩
      obtain ⟨hcheck, hle, rfl⟩ := (reducePart_iff h hpart).mp hone
      obtain ⟨hready, hjoin⟩ := (ih (start + 1) (h.join hpart) hle).mp hrest
      exact ⟨⟨hcheck, hready⟩, hjoin⟩
    · rintro ⟨⟨hcheck, hready⟩, hjoin⟩
      have hle := (q.candidates_length_le (events ++ done) dones.flatten).trans hready.2
      exact ⟨_, (reducePart_iff h hpart).mpr ⟨hcheck, hle, rfl⟩,
        (ih (start + 1) (h.join hpart) hle).mpr ⟨hready, hjoin⟩⟩

/-! ### Ranking -/

theorem rankBefore_trans (a b c : String × ℕ) (hab : rankBefore a b = true) (hbc : rankBefore b c = true) :
    rankBefore a c = true := by
  unfold rankBefore at *
  simp only [Bool.or_eq_true, Bool.and_eq_true, decide_eq_true_eq] at *
  obtain hab | ⟨hab, hname⟩ := hab
  · obtain hbc | ⟨hbc, -⟩ := hbc
    · exact .inl (hbc.trans hab)
    · exact .inl (hbc ▸ hab)
  · obtain hbc | ⟨hbc, hname'⟩ := hbc
    · exact .inl (hab ▸ hbc)
    · exact .inr ⟨hab.trans hbc, hname.trans hname'⟩

theorem rankBefore_total (a b : String × ℕ) : (rankBefore a b || rankBefore b a) = true := by
  unfold rankBefore
  simp only [Bool.or_eq_true, Bool.and_eq_true, decide_eq_true_eq]
  obtain hlt | heq | hlt := Nat.lt_trichotomy a.2 b.2
  · exact .inr (.inl hlt)
  · obtain hle | hle := le_total a.1 b.1
    · exact .inl (.inr ⟨heq, hle⟩)
    · exact .inr (.inr ⟨heq.symm, hle⟩)
  · exact .inl (.inl hlt)

theorem rankBefore_antisymm {a b : String × ℕ} (hab : rankBefore a b = true) (hba : rankBefore b a = true) : a = b := by
  unfold rankBefore at *
  simp only [Bool.or_eq_true, Bool.and_eq_true, decide_eq_true_eq] at *
  obtain hab | ⟨hcount, hname⟩ := hab
  · obtain hba | ⟨hba, -⟩ := hba
    · omega
    · omega
  · obtain hba | ⟨-, hname'⟩ := hba
    · omega
    · exact Prod.ext (le_antisymm hname hname') hcount

/-- Only one order ranks a set of totals. -/
theorem ranked_eq {rows' : List (String × ℕ)} (h : rows.Perm rows') :
    rows.mergeSort rankBefore = rows'.mergeSort rankBefore := by
  have hperm : (rows.mergeSort rankBefore).Perm (rows'.mergeSort rankBefore) :=
    (List.mergeSort_perm _ _).trans (h.trans (List.mergeSort_perm _ _).symm)
  exact hperm.eq_of_pairwise (fun a b _ _ hab hba => rankBefore_antisymm hab hba)
    (List.pairwise_mergeSort rankBefore_trans rankBefore_total rows)
    (List.pairwise_mergeSort rankBefore_trans rankBefore_total rows')

/-- The reduction of the workers' answers returns the count over all their events, exactly
when all are ready and the ads are not too many. -/
theorem reduce_iff (htold : List.Forall₂ (Told q) parts dones) {answer : Answer} :
    reduce clock q lineage parts = .ok answer ↔
      Answerable clock lineage 0 parts (q.candidates dones.flatten) ∧ answer = q.bruteForce dones.flatten := by
  have hempty : Sums .empty (q.clicks ([] : List (Entry τ))) := fun ad => rfl
  have hsums := hempty.joinAll htold
  rw [nil_append] at hsums
  have hiff : ∀ totals', parts.zipIdx.foldlM (fun totals part =>
    reducePart clock q lineage totals part.2 part.1) .empty = .ok totals' ↔
      Answerable clock lineage 0 parts (q.candidates dones.flatten) ∧ parts.foldl joinTotals .empty = totals' :=
    fun _ => reduceParts_iff htold 0 hempty (Nat.zero_le _)
  have hperm : (parts.foldl joinTotals .empty).entries.Perm
      ((q.candidates dones.flatten).map fun ad => (ad, q.clicks dones.flatten ad)) := by
    rw [hsums.entries_eq]
    exact hsums.keys_perm.map _
  have hanswer : (⟨((parts.foldl joinTotals .empty).entries.mergeSort rankBefore).take q.count,
      q.adId.map fun ad => ((parts.foldl joinTotals .empty).get? ad).getD 0⟩ : Answer) =
      q.bruteForce dones.flatten := by
    simp only [hsums.getD, ranked_eq hperm]
    rfl
  unfold reduce
  rw [bind_eq_ok]
  constructor
  · rintro ⟨totals, hfold, hreduce⟩
    obtain ⟨hready, rfl⟩ := (hiff totals).mp hfold
    exact ⟨hready, (Except.ok.inj hreduce).symm.trans hanswer⟩
  · rintro ⟨hready, rfl⟩
    exact ⟨_, (hiff _).mpr ⟨hready, rfl⟩, congrArg Except.ok hanswer⟩

end SystemDesign.AdClick
