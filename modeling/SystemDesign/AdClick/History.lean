import SystemDesign.AdClick.Normal

/-!
The history of a partition: its events in the order of their acceptance.

`LogOk` says that the rows of each partition are numbered from one on and read back as its
history; `append_history` that an append makes histories longer and nothing else;
`read_history` that a read returns a piece of one.
-/

namespace SystemDesign

open List

theorem mapM_eq_ok {ε α β : Type} {f : α → Except ε β} {l : List α} {r : List β} :
    l.mapM f = .ok r ↔ List.Forall₂ (fun a b => f a = .ok b) l r := by
  induction l generalizing r with
  | nil => simp [eq_comm, pure, Except.pure]
  | cons a l ih =>
    rw [mapM_cons, bind_eq_ok, forall₂_cons_left_iff]
    constructor
    · rintro ⟨b, hb, h⟩
      obtain ⟨bs, hbs, h⟩ := of_bind h
      obtain rfl := Except.ok.inj h
      exact ⟨b, bs, hb, ih.mp hbs, rfl⟩
    · rintro ⟨b, bs, hb, hbs, rfl⟩
      exact ⟨b, hb, bind_eq_ok.mpr ⟨bs, ih.mpr hbs, rfl⟩⟩

/-- Whatever a list of calls returned, one of them returned it. -/
theorem mapM_mem {ε α β : Type} {f : α → Except ε β} {l : List α} {r : List β} (h : l.mapM f = .ok r)
    {b : β} (hb : b ∈ r) : ∃ a ∈ l, f a = .ok b := by
  have hrel := mapM_eq_ok.mp h
  clear h
  induction hrel with
  | nil => cases hb
  | cons hab _ ih =>
    rw [mem_cons] at hb
    obtain rfl | hb := hb
    · exact ⟨_, mem_cons_self, hab⟩
    · obtain ⟨a, ha, hab'⟩ := ih hb
      exact ⟨a, mem_cons_of_mem _ ha, hab'⟩

end SystemDesign

namespace SystemDesign.AdClick

open List

variable {τ : Type} {e : Settings} {clock : Clock τ}

/-! ### Numbered lists -/

/-- The entries have the numbers from `start` on. -/
def Numbered (start : ℕ) (entries : List (Entry τ)) : Prop := entries.map Entry.seq = List.range' start entries.length

variable {entries : List (Entry τ)} {start : ℕ}

theorem Numbered.drop (h : Numbered start entries) (n : ℕ) : Numbered (start + n) (entries.drop n) := by
  unfold Numbered at *
  rw [map_drop, h, drop_range', length_drop, Nat.mul_one]

theorem Numbered.take (h : Numbered start entries) (n : ℕ) : Numbered start (entries.take n) := by
  unfold Numbered at *
  rw [map_take, h, length_take]
  obtain hn | hn := Nat.le_total n entries.length
  · rw [take_range'_of_length_ge hn, Nat.min_eq_left hn]
  · rw [take_range'_of_length_le hn, Nat.min_eq_right hn]

variable {entry : Entry τ}

theorem Numbered.snoc (h : Numbered start entries) (he : entry.seq = start + entries.length) :
    Numbered start (entries ++ [entry]) := by
  unfold Numbered at *
  rw [map_append, h, map_singleton, he, length_append, length_singleton, range'_1_concat]

theorem Numbered.follows {after : ℕ} {entries : List (Entry τ)} (h : Numbered (after + 1) entries) :
    follows after entries = true := by
  induction entries generalizing after with
  | nil => rfl
  | cons entry entries ih =>
    unfold Numbered at h
    rw [map_cons, length_cons, range'_succ, List.cons.injEq] at h
    rw [AdClick.follows, h.1, decide_eq_true rfl, Bool.true_and]
    exact ih h.2

theorem Numbered.mem_le (h : Numbered start entries) (he : entry ∈ entries) :
    start ≤ entry.seq ∧ entry.seq < start + entries.length := by
  have hmem : entry.seq ∈ entries.map Entry.seq := mem_map_of_mem he
  rw [h, mem_range'_1] at hmem
  exact hmem

theorem Numbered.get (h : Numbered 1 entries) (he : entry ∈ entries) :
    ∃ pre post, entries = pre ++ entry :: post ∧ entry.seq = pre.length + 1 := by
  obtain ⟨pre, post, rfl⟩ := append_of_mem he
  refine ⟨pre, post, rfl, ?_⟩
  have htail := h.drop pre.length
  rw [drop_left' rfl] at htail
  unfold Numbered at htail
  rw [map_cons, length_cons, range'_succ, List.cons.injEq] at htail
  rw [htail.1, Nat.add_comm]

/-! ### Histories -/

/-- The rows of a partition. -/
def EventLog.part (log : EventLog τ) (p : ℕ) : List (LogRow τ) := log.events.values.filter fun row => row.partition = p

variable (e clock) in
structure LogOk (log : EventLog τ) (history : ℕ → List (Entry τ)) : Prop where
  positive : 0 < log.partitions
  lineage : isText log.lineage = true
  rows : ∀ p, List.Forall₂ (fun row entry => parseSourceRow e clock row = .ok entry) (log.part p) (history p)
  numbered : ∀ p, Numbered 1 (history p)
  heads : ∀ p, p < log.partitions → log.heads[p]? = some (history p).length
  outside : ∀ p, log.partitions ≤ p → history p = []
  ids : ∀ p, ∀ entry ∈ history p, ∃ row, log.events.get? entry.event.eventId = some row
  nodup : ∀ p, ((history p).map fun entry => entry.event.eventId).Nodup
  length : ∀ p, (history p).length ≤ maxPosition

/-- What a row that reads back says of its event. -/
theorem parse_spec {row : LogRow τ} (h : parseSourceRow e clock row = .ok entry) :
    entry.seq = row.seq ∧ entry.hash = row.hash ∧ entry.accepted = row.accepted ∧
      digest entry.event.toJson = entry.hash ∧ clock.valid entry.accepted = true ∧
      entry.event.clickTimestamp ≤ clock.floor entry.accepted + 30 ∧ 1 ≤ entry.seq ∧
      entry.seq ≤ maxPosition ∧ ∃ body, normalizeEvent e body = .ok entry.event := by
  unfold parseSourceRow at h
  dsimp only at h
  split at h
  · cases h
  · rename_i raw _
    split at h
    · cases h
    · rename_i value hvalue
      split at h
      · rename_i hok
        cases h
        exact ⟨rfl, rfl, rfl, hok.2.1, hok.2.2.1, hok.2.2.2.1, hok.2.2.2.2.1, hok.2.2.2.2.2, raw, hvalue⟩
      · cases h

variable {now : τ}

/-- A row that was just written reads back. -/
theorem parse_written (he : e.Lawful) {body : Json} {v : Event} (hv : normalizeEvent e body = .ok v)
    (hnow : clock.valid now = true) (hclick : v.clickTimestamp ≤ clock.floor now + 30) {seq : ℕ} (hlow : 1 ≤ seq)
    (hhigh : seq ≤ maxPosition) (partition : ℕ) :
    parseSourceRow e clock ⟨digest v.toJson, partition, seq, v.toJson.encode, now⟩ =
      .ok ⟨seq, v, now, digest v.toJson⟩ := by
  have hload := Json.loads_encode (toJson_wf v)
  have hnormal : normalizeEvent e v.toJson.sortKeys = .ok v := event_sortKeys he hv (event_spec hv).2.2.2.2.1
  unfold parseSourceRow
  dsimp only
  rw [hload]
  dsimp only
  rw [hnormal]
  exact if_pos ⟨(Json.encode_sortKeys v.toJson).symm, rfl, hnow, hclick, hlow, hhigh⟩

/-! ### Appending -/

/-- Histories that only got longer. -/
def Grows (history history' : ℕ → List (Entry τ)) : Prop := ∀ p, history p <+: history' p

variable {log : EventLog τ}

theorem part_set {id : String} (h : log.events.get? id = none) (row : LogRow τ) (heads : List ℕ) (p : ℕ) :
    ({ log with heads := heads, events := log.events.set id row } : EventLog τ).part p =
      log.part p ++ if row.partition = p then [row] else [] := by
  have hentries : (log.events.set id row).entries = log.events.entries ++ [(id, row)] := by
    unfold Dict.set
    rw [dif_neg (Assoc.lookup_eq_none_iff.mp h)]
  unfold EventLog.part Dict.values
  dsimp only
  rw [hentries, map_append, filter_append]
  by_cases hp : row.partition = p
  · simp [hp]
  · simp [hp]

theorem partitionOf_lt (id : String) {n : ℕ} (h : 0 < n) : partitionOf id n < n := Nat.mod_lt _ h

variable {log' : EventLog τ} {history : ℕ → List (Entry τ)}

theorem accept_history (he : e.Lawful) (h : LogOk e clock log history) (hnow : clock.valid now = true) {body : Json}
    {v : Event} (hv : normalizeEvent e body = .ok v) {receipt : LogReceipt}
    (haccept : log.accept clock now v = .ok (log', receipt)) :
    ∃ history', LogOk e clock log' history' ∧ Grows history history' ∧ log'.lineage = log.lineage ∧
      log'.partitions = log.partitions := by
  unfold EventLog.accept at haccept
  split at haccept
  · replace haccept := of_check haccept
    obtain ⟨rfl, -⟩ := Prod.mk.inj (Except.ok.inj haccept)
    exact ⟨history, h, fun p => prefix_refl _, rfl, rfl⟩
  · rename_i hnone
    obtain ⟨_, hclick, haccept⟩ := of_bind haccept
    replace haccept := of_check haccept
    obtain ⟨_, hseq, haccept⟩ := of_bind haccept
    obtain ⟨rfl, -⟩ := Prod.mk.inj (Except.ok.inj haccept)
    have hclick := require_eq_ok.mp hclick
    have hseq := require_eq_ok.mp hseq
    generalize hpeq : partitionOf v.eventId log.partitions = p at hseq
    have hp : p < log.partitions := hpeq ▸ partitionOf_lt v.eventId h.positive
    have hhead : (log.heads[p]?).getD 0 = (history p).length := by
      rw [h.heads p hp]
      rfl
    rw [hhead] at hseq ⊢
    have hparse := parse_written he hv hnow hclick (Nat.le_add_left 1 (history p).length) hseq p
    have hfresh : ∀ q, ∀ entry ∈ history q, entry.event.eventId ≠ v.eventId := by
      intro q entry hentry heq
      obtain ⟨row, hrow⟩ := h.ids q entry hentry
      rw [heq, hnone] at hrow
      cases hrow
    have hpart := part_set hnone ⟨digest v.toJson, p, (history p).length + 1, v.toJson.encode, now⟩
      (log.heads.set p ((history p).length + 1))
    have hlen : (log.heads.set p ((history p).length + 1)).length = log.heads.length := length_set
    refine ⟨Function.update history p (history p ++ [⟨(history p).length + 1, v, now, digest v.toJson⟩]),
      ?_, ?_, rfl, hlen⟩
    · constructor
      · change 0 < (log.heads.set p ((history p).length + 1)).length
        rw [hlen]
        exact h.positive
      · exact h.lineage
      · intro q
        rw [hpart]
        by_cases hq : q = p
        · subst hq
          rw [Function.update_self, if_pos rfl]
          exact rel_append (h.rows q) (.cons hparse .nil)
        · rw [Function.update_of_ne hq, if_neg (Ne.symm hq), append_nil]
          exact h.rows q
      · intro q
        by_cases hq : q = p
        · subst hq
          rw [Function.update_self]
          exact (h.numbered q).snoc (Nat.add_comm _ _)
        · rw [Function.update_of_ne hq]
          exact h.numbered q
      · intro q hq'
        have hlt : q < log.heads.length := hlen ▸ hq'
        change (log.heads.set p _)[q]? = _
        by_cases hq : q = p
        · subst hq
          rw [Function.update_self, getElem?_set_self hlt, length_append]
          rfl
        · rw [Function.update_of_ne hq, getElem?_set_ne (Ne.symm hq)]
          exact h.heads q hlt
      · intro q hq'
        have hle : log.heads.length ≤ q := hlen ▸ hq'
        have hne : q ≠ p := by
          rintro rfl
          exact absurd hp (Nat.not_lt.mpr hle)
        rw [Function.update_of_ne hne]
        exact h.outside q hle
      · intro q entry hentry
        change ∃ row, (log.events.set v.eventId _).get? entry.event.eventId = some row
        by_cases heq : entry.event.eventId = v.eventId
        · rw [heq]
          exact ⟨_, Dict.get?_set_self _ _ _⟩
        · rw [Dict.get?_set_of_ne _ heq]
          by_cases hq : q = p
          · subst hq
            rw [Function.update_self, mem_append, mem_singleton] at hentry
            obtain hentry | rfl := hentry
            · exact h.ids q entry hentry
            · exact absurd rfl heq
          · rw [Function.update_of_ne hq] at hentry
            exact h.ids q entry hentry
      · intro q
        by_cases hq : q = p
        · subst hq
          rw [Function.update_self, map_append, map_singleton]
          refine (h.nodup q).append (nodup_singleton _) ?_
          intro id hid hid'
          rw [mem_singleton] at hid'
          obtain ⟨entry, hentry, rfl⟩ := mem_map.mp hid
          exact hfresh q entry hentry hid'
        · rw [Function.update_of_ne hq]
          exact h.nodup q
      · intro q
        by_cases hq : q = p
        · subst hq
          rw [Function.update_self, length_append]
          exact hseq
        · rw [Function.update_of_ne hq]
          exact h.length q
    · intro q
      by_cases hq : q = p
      · subst hq
        rw [Function.update_self]
        exact prefix_append _ _
      · rw [Function.update_of_ne hq]

theorem Grows.trans {h₁ h₂ h₃ : ℕ → List (Entry τ)} (h : Grows h₁ h₂) (h' : Grows h₂ h₃) :
    Grows h₁ h₃ := fun p => (h p).trans (h' p)

theorem acceptAll_history (he : e.Lawful) (hnow : clock.valid now = true) {values : List Event}
    (hvalues : ∀ v ∈ values, ∃ body, normalizeEvent e body = .ok v) {receipts : List LogReceipt}
    (h : LogOk e clock log history) (haccept : log.acceptAll clock now values = .ok (log', receipts)) :
    ∃ history', LogOk e clock log' history' ∧ Grows history history' ∧ log'.lineage = log.lineage ∧
      log'.partitions = log.partitions := by
  suffices hfold : ∀ {values : List Event}, (∀ v ∈ values, ∃ body, normalizeEvent e body = .ok v) →
      ∀ {acc acc' : EventLog τ × List LogReceipt} {history : ℕ → List (Entry τ)},
      LogOk e clock acc.1 history →
      values.foldlM (fun acc value => do
        let accepted ← acc.1.accept clock now value
        return (accepted.1, acc.2 ++ [accepted.2])) acc = Except.ok acc' →
      ∃ history', LogOk e clock acc'.1 history' ∧ Grows history history' ∧
        acc'.1.lineage = acc.1.lineage ∧ acc'.1.partitions = acc.1.partitions from
    hfold hvalues h haccept
  intro values
  induction values with
  | nil =>
    intro _ acc acc' history h hfold
    obtain rfl := Except.ok.inj hfold
    exact ⟨history, h, fun p => prefix_refl _, rfl, rfl⟩
  | cons value values ih =>
    intro hvalues acc acc' history h hfold
    rw [foldlM_cons] at hfold
    obtain ⟨middle, hstep, hfold⟩ := of_bind hfold
    obtain ⟨⟨log₁, receipt⟩, haccept, hstep⟩ := of_bind hstep
    obtain rfl := Except.ok.inj hstep
    obtain ⟨body, hbody⟩ := hvalues value mem_cons_self
    obtain ⟨history₁, h₁, hgrows, hlineage, hparts⟩ := accept_history he h hnow hbody haccept
    obtain ⟨history₂, h₂, hgrows', hlineage', hparts'⟩ := ih (fun v hv => hvalues v (mem_cons_of_mem _ hv)) h₁ hfold
    exact ⟨history₂, h₂, hgrows.trans hgrows', hlineage'.trans hlineage, hparts'.trans hparts⟩

/-- An append adds to the histories and changes nothing in them. -/
theorem append_history (he : e.Lawful) {bodies : List Json} {receipts : List LogReceipt}
    (h : LogOk e clock log history) (happend : log.append e clock now bodies = .ok (log', receipts)) :
    ∃ history', LogOk e clock log' history' ∧ Grows history history' ∧ log'.lineage = log.lineage ∧
      log'.partitions = log.partitions := by
  obtain ⟨values, hvalues, happend⟩ := of_bind happend
  replace hvalues := of_check hvalues
  obtain ⟨_, hnow, happend⟩ := of_bind happend
  refine acceptAll_history he (require_eq_ok.mp hnow) (fun v hv => ?_) h happend
  obtain ⟨body, -, hbody⟩ := mapM_mem hvalues hv
  exact ⟨body, hbody⟩

/-! ### Reading -/

/-- Rows that are numbered are selected as they are stored. -/
theorem filter_numbered {rows : List (LogRow τ)} (h : rows.map LogRow.seq = List.range' start rows.length)
    (after upper : ℕ) :
    rows.filter (fun row => decide (after < row.seq) && decide (row.seq ≤ upper)) =
      (rows.take (upper + 1 - start)).drop (after + 1 - start) := by
  induction rows generalizing start with
  | nil => simp
  | cons row rows ih =>
    rw [map_cons, length_cons, range'_succ, List.cons.injEq] at h
    have hrest := ih h.2
    rw [filter_cons, hrest, h.1]
    by_cases hafter : after < start
    · have hzero : after + 1 - start = 0 := by omega
      have hzero' : after + 1 - (start + 1) = 0 := by omega
      by_cases hupper : start ≤ upper
      · have hsucc : upper + 1 - start = (upper + 1 - (start + 1)) + 1 := by omega
        rw [hzero, hzero', hsucc]
        simp [hafter, hupper]
      · have hnil : upper + 1 - start = 0 := by omega
        have hnil' : upper + 1 - (start + 1) = 0 := by omega
        rw [hnil, hnil']
        simp [hupper]
    · have hsucc : after + 1 - start = (after + 1 - (start + 1)) + 1 := by omega
      by_cases hupper : start ≤ upper
      · have hsucc' : upper + 1 - start = (upper + 1 - (start + 1)) + 1 := by omega
        rw [hsucc, hsucc']
        simp [hafter]
      · have hnil : upper + 1 - start = 0 := by omega
        have hnil' : upper + 1 - (start + 1) = 0 := by omega
        rw [hnil, hnil']
        simp [hafter]

theorem LogOk.part_seqs (h : LogOk e clock log history) (p : ℕ) :
    (log.part p).map LogRow.seq = List.range' 1 (log.part p).length := by
  have hsame : ∀ {rows : List (LogRow τ)} {entries : List (Entry τ)},
      List.Forall₂ (fun row entry => parseSourceRow e clock row = .ok entry) rows entries →
      rows.map LogRow.seq = entries.map Entry.seq := by
    intro rows entries hrel
    induction hrel with
    | nil => rfl
    | cons hparse _ ih => rw [map_cons, map_cons, ih, (parse_spec hparse).1]
  rw [hsame (h.rows p), h.numbered p, (h.rows p).length_eq]

theorem LogOk.select {log : EventLog τ} {history : ℕ → List (Entry τ)} (h : LogOk e clock log history)
    (p after upper : ℕ) : log.select p after upper = ((log.part p).take upper).drop after := by
  have hsplit : (log.events.values.filter fun row =>
    decide (row.partition = p) && decide (after < row.seq) && decide (row.seq ≤ upper)) =
    (log.part p).filter (fun row => decide (after < row.seq) && decide (row.seq ≤ upper)) := by
    unfold EventLog.part
    rw [filter_filter]
    congr 1
    funext row
    rw [Bool.and_assoc, Bool.and_comm]
  have hfilter := filter_numbered (h.part_seqs p) after upper
  rw [Nat.add_sub_cancel, Nat.add_sub_cancel] at hfilter
  unfold EventLog.select
  rw [hsplit, hfilter]
  apply mergeSort_of_pairwise
  have hsorted : ((log.part p).map LogRow.seq).Pairwise (· ≤ ·) := by
    rw [h.part_seqs p]
    exact pairwise_le_range'
  rw [pairwise_map] at hsorted
  have hsub : (((log.part p).take upper).drop after).Sublist (log.part p) := (drop_sublist _ _).trans (take_sublist _ _)
  exact (hsorted.sublist hsub).imp fun hle => decide_eq_true hle

/-- The piece of a history that a read returns. -/
def slice (history : List (Entry τ)) (after upper limit : ℕ) : List (Entry τ) :=
  ((history.take upper).drop after).take limit

theorem slice_piece (history : List (Entry τ)) (after upper limit : ℕ) : slice history after upper limit <:+: history :=
  (List.take_prefix _ _).isInfix.trans ((drop_suffix _ _).isInfix.trans (List.take_prefix _ _).isInfix)

theorem Numbered.slice {history : List (Entry τ)} (h : Numbered 1 history) (after upper limit : ℕ) :
    Numbered (after + 1) (AdClick.slice history after upper limit) := by
  have := ((h.take upper).drop after).take limit
  rw [Nat.add_comm] at this
  exact this

theorem slice_length (history : List (Entry τ)) (after limit : ℕ) {upper : ℕ} (h : upper ≤ history.length) :
    (slice history after upper limit).length = min limit (upper - after) := by
  simp [slice, h]

def upperOf (upto : Option ℕ) (head : ℕ) : ℕ := upto.elim head fun u => min u head

theorem upperOf_le (upto : Option ℕ) (head : ℕ) : upperOf upto head ≤ head := by
  cases upto with
  | none => exact Nat.le_refl _
  | some u => exact Nat.min_le_right _ _

/-- A read within bounds returns a piece of the history. -/
theorem read_history (h : LogOk e clock log history) {p after limit : ℕ} (upto : Option ℕ) (hp : p < log.partitions)
    (hafter : after ≤ (history p).length) (hlimit : 1 ≤ limit ∧ limit ≤ 200)
    (hupto : (upto.all fun u => decide (u ≤ maxPosition)) = true) :
    log.read e clock p after limit upto = .ok ⟨log.lineage, p, (history p).length,
      slice (history p) after (upperOf upto (history p).length) limit⟩ := by
  have hhead : (log.heads[p]?).getD 0 = (history p).length := by
    rw [h.heads p hp]
    rfl
  have hmax : after ≤ maxPosition := hafter.trans (h.length p)
  have hmap : ∀ upper, ((log.select p after upper).take limit).mapM (parseSourceRow e clock) =
      .ok (slice (history p) after upper limit) := by
    intro upper
    rw [h.select, mapM_eq_ok]
    exact forall₂_take _ (forall₂_drop _ (forall₂_take _ (h.rows p)))
  have hcheck : (slice (history p) after (upperOf upto (history p).length) limit).length =
        min limit (upperOf upto (history p).length - after) ∧
      follows after (slice (history p) after (upperOf upto (history p).length) limit) = true :=
    ⟨slice_length _ _ _ (upperOf_le _ _), ((h.numbered p).slice _ _ _).follows⟩
  unfold EventLog.read
  simp only [hhead, require, hp, hmax, hlimit, hafter, hupto, and_self, if_true, bind, Except.bind, pure, Except.pure]
  cases upto with
  | none =>
    simp only [upperOf, Option.elim] at hcheck ⊢
    simp only [hmap, hcheck, and_self, if_true]
  | some u =>
    simp only [upperOf, Option.elim] at hcheck ⊢
    simp only [hmap, hcheck, and_self, if_true]

/-- What a read that returns was asked for. -/
theorem read_bounds (h : LogOk e clock log history) {p after limit : ℕ} {upto : Option ℕ} {page : Page τ}
    (hread : log.read e clock p after limit upto = .ok page) :
    limit ≤ 200 ∧ page = ⟨log.lineage, p, (history p).length,
      slice (history p) after (upperOf upto (history p).length) limit⟩ := by
  have hcopy := hread
  unfold EventLog.read at hcopy
  obtain ⟨_, hp, hcopy⟩ := of_bind hcopy
  replace hcopy := of_check hcopy
  obtain ⟨_, hlimit, hcopy⟩ := of_bind hcopy
  obtain ⟨_, hafter, hcopy⟩ := of_bind hcopy
  obtain ⟨_, hupto, -⟩ := of_bind hcopy
  have hp := require_eq_ok.mp hp
  have hafter := require_eq_ok.mp hafter
  rw [h.heads p hp] at hafter
  have hok := read_history h upto hp hafter (require_eq_ok.mp hlimit) (require_eq_ok.mp hupto)
  rw [hread] at hok
  exact ⟨(require_eq_ok.mp hlimit).2, Except.ok.inj hok⟩

end SystemDesign.AdClick
