import SystemDesign.AdClick.Totals
import SystemDesign.AdClick.Tailer

/-!
The log, the aggregate stores and the queries as one system.

Pages that were read stay around, so that a worker may apply any of them, again or out of
order; `crash` loses some. The answers of workers stay around too and may be of different
times. What is refused rolls back and is no step.
-/

namespace SystemDesign.AdClick

open List hiding le_refl

structure Pipeline (τ : Type) where
  log : EventLog τ
  stores : List (Aggregate τ)
  pages : List (Page τ)
  parts : List (Query × Part τ)

variable {τ : Type} [LinearOrder τ]

inductive PipelineStep (e : Settings) (clock : WorkerClock τ) : Pipeline τ → Pipeline τ → Prop
  | append (w : Pipeline τ) (now : τ) (bodies : List Json) :
      PipelineStep e clock w { w with log := appended e clock.toClock now bodies w.log }
  | worker (w : Pipeline τ) (partition lateness : ℕ) :
      PipelineStep e clock w { w with stores := w.stores ++ [Aggregate.init clock partition lateness] }
  | read (w : Pipeline τ) (partition after limit : ℕ) (upto : Option ℕ) (page : Page τ) :
      w.log.read e clock.toClock partition after limit upto = .ok page →
      PipelineStep e clock w { w with pages := page :: w.pages }
  | apply (w : Pipeline τ) (i : ℕ) (s s' : Aggregate τ) (page : Page τ) : w.stores[i]? = some s →
      page ∈ w.pages → s.apply e clock page = .ok s' →
      PipelineStep e clock w { w with stores := w.stores.set i s' }
  | idle (w : Pipeline τ) (i : ℕ) (s s' : Aggregate τ) (now : τ) : w.stores[i]? = some s →
      s.idle clock now = .ok s' → PipelineStep e clock w { w with stores := w.stores.set i s' }
  | ask (w : Pipeline τ) (i : ℕ) (s : Aggregate τ) (q : Query) (part : Part τ) :
      w.stores[i]? = some s → s.totals q = .ok part →
      PipelineStep e clock w { w with parts := (q, part) :: w.parts }
  | crash (w : Pipeline τ) (pages : List (Page τ)) : pages ⊆ w.pages →
      PipelineStep e clock w { w with pages := pages }

/-- An empty log with any lineage and any number of partitions, and no worker yet. -/
def pipeline (e : Settings) (clock : WorkerClock τ) : Transitions (Pipeline τ) where
  start w := ∃ lineage partitions maxEvents, isText lineage = true ∧ 0 < partitions ∧
    w = ⟨.init lineage partitions maxEvents, [], [], []⟩
  step := PipelineStep e clock

omit [LinearOrder τ] in
/-- The events logged for a partition, in the order of their acceptance. -/
def EventLog.logged (e : Settings) (clock : Clock τ) (log : EventLog τ) (p : ℕ) : List (Entry τ) :=
  (log.part p).filterMap fun row => (parseSourceRow e clock row).toOption

/-- The events a store stands after. -/
def Pipeline.behind (e : Settings) (clock : WorkerClock τ) (w : Pipeline τ) (s : Aggregate τ) : List (Entry τ) :=
  (w.log.logged e clock.toClock s.partition).take s.seq

/-- The events the workers stood after when they answered. -/
def Pipeline.answered (e : Settings) (clock : WorkerClock τ) (w : Pipeline τ) (parts : List (Part τ)) :
    List (Entry τ) :=
  (parts.map fun part => (w.log.logged e clock.toClock part.partition).take part.seq).flatten

variable {e : Settings} {clock : WorkerClock τ}

/-! ### The invariant -/

structure Sound (e : Settings) (clock : WorkerClock τ) (history : ℕ → List (Entry τ)) (w : Pipeline τ) :
    Prop where
  log : LogOk e clock.toClock w.log history
  pages : ∀ page ∈ w.pages, Genuine w.log.lineage history page
  stores : ∀ s ∈ w.stores, ∃ done, Counts w.log.lineage s done ∧ done <+: history s.partition
  parts : ∀ answer ∈ w.parts, answer.2.seq ≤ (history answer.2.partition).length ∧
    Told answer.1 answer.2 ((history answer.2.partition).take answer.2.seq)

variable {history : ℕ → List (Entry τ)} {w : Pipeline τ}

section
omit [LinearOrder τ]

theorem logOk_init {lineage : String} {partitions maxEvents : ℕ} (hlineage : isText lineage = true)
    (hpartitions : 0 < partitions) : LogOk e clock.toClock (.init lineage partitions maxEvents) fun _ => [] := by
  constructor
  · change 0 < (List.replicate partitions 0).length
    rw [length_replicate]
    exact hpartitions
  · exact hlineage
  · exact fun _ => .nil
  · exact fun _ => rfl
  · intro p hp
    change p < (List.replicate partitions 0).length at hp
    rw [length_replicate] at hp
    exact getElem?_replicate_of_lt hp
  · exact fun _ _ => rfl
  · exact fun _ _ h => nomatch h
  · exact fun _ => nodup_nil
  · exact fun _ => Nat.zero_le _

theorem LogOk.logged {log : EventLog τ} (h : LogOk e clock.toClock log history) (p : ℕ) :
    log.logged e clock.toClock p = history p := by
  have hrel := h.rows p
  unfold EventLog.logged
  generalize log.part p = rows at hrel
  generalize history p = entries at hrel
  induction hrel with
  | nil => rfl
  | cons hrow _ ih => rw [filterMap_cons, hrow, ← ih]; rfl

theorem take_grows {history history' : List (Entry τ)} (h : history <+: history') {n : ℕ}
    (hn : n ≤ history.length) : history'.take n = history.take n := by
  obtain ⟨more, rfl⟩ := h
  exact take_append_of_le_length hn

/-- A store of the history takes the place of another. -/
theorem Sound.setStore (h : Sound e clock history w) {s' : Aggregate τ}
    (hs' : ∃ done, Counts w.log.lineage s' done ∧ done <+: history s'.partition) (i : ℕ) :
    Sound e clock history { w with stores := w.stores.set i s' } := by
  refine ⟨h.log, h.pages, fun s hs => ?_, h.parts⟩
  obtain hs | rfl := mem_or_eq_of_mem_set hs
  · exact h.stores s hs
  · exact hs'

end

theorem idle_spec {s s' : Aggregate τ} {now : τ} (h : s.idle clock now = .ok s') :
    Onward s s' ∧ ∀ {lineage : String} {done : List (Entry τ)}, Counts lineage s done → Counts lineage s' done := by
  replace h := of_check h
  split at h
  · obtain rfl := Except.ok.inj h
    exact ⟨Onward.refl _, fun hc => hc⟩
  · obtain rfl := Except.ok.inj h
    exact ⟨⟨rfl, rfl, le_max_left _ _⟩, fun hc => ⟨hc.seq, hc.floor, hc.lineage, hc.seen, hc.counts, hc.positions⟩⟩

/-- Every store is where it was, and its watermark no lower. -/
def Forward (w w' : Pipeline τ) : Prop :=
  ∀ (i : ℕ) (s : Aggregate τ), w.stores[i]? = some s → ∃ s', w'.stores[i]? = some s' ∧ s.watermark ≤ s'.watermark

theorem Forward.refl (w : Pipeline τ) : Forward w w := fun _ s hs => ⟨s, hs, le_refl _⟩

theorem Forward.trans {w' w'' : Pipeline τ} (h : Forward w w') (h' : Forward w' w'') : Forward w w'' := by
  intro i s hs
  obtain ⟨s₁, hs₁, hle⟩ := h i s hs
  obtain ⟨s₂, hs₂, hle'⟩ := h' i s₁ hs₁
  exact ⟨s₂, hs₂, hle.trans hle'⟩

theorem forward_set {i : ℕ} {s s' : Aggregate τ} (hs : w.stores[i]? = some s) (h : s.watermark ≤ s'.watermark) :
    Forward w { w with stores := w.stores.set i s' } := by
  intro j r hr
  by_cases hij : i = j
  · subst hij
    obtain rfl := Option.some.inj (hs.symm.trans hr)
    obtain ⟨hlt, -⟩ := List.getElem?_eq_some_iff.mp hs
    exact ⟨s', getElem?_set_self hlt, h⟩
  · exact ⟨r, (getElem?_set_ne hij).trans hr, le_refl _⟩

/-- One step keeps the invariant for a longer history, and moves no watermark back. -/
theorem Sound.step (he : e.Lawful) {w' : Pipeline τ} (h : Sound e clock history w)
    (hstep : PipelineStep e clock w w') : (∃ history', Sound e clock history' w') ∧ Forward w w' := by
  cases hstep with
  | append now bodies =>
    refine ⟨?_, fun _ s hs => ⟨s, hs, le_refl _⟩⟩
    unfold appended transaction
    cases happend : w.log.append e clock.toClock now bodies with
    | error err => exact ⟨history, h⟩
    | ok result =>
      obtain ⟨log, receipts⟩ := result
      obtain ⟨history', hlog, hgrows, hlineage, -⟩ := append_history he h.log happend
      refine ⟨history', hlog, ?_, ?_, ?_⟩
      · intro page hpage
        exact hlineage ▸ (h.pages page hpage).grows hgrows
      · intro s hs
        obtain ⟨done, hdone, hbegins⟩ := h.stores s hs
        exact ⟨done, hlineage ▸ hdone, hbegins.trans (hgrows _)⟩
      · intro answer hanswer
        obtain ⟨hle, htold⟩ := h.parts answer hanswer
        rw [take_grows (hgrows _) hle]
        exact ⟨hle.trans (hgrows _).length_le, htold⟩
  | worker partition lateness =>
    refine ⟨⟨history, h.log, h.pages, fun s hs => ?_, h.parts⟩, fun i s hs => ⟨s, ?_, le_refl _⟩⟩
    · rw [mem_append, mem_singleton] at hs
      obtain hs | rfl := hs
      · exact h.stores s hs
      · exact ⟨[], counts_init clock partition lateness _, nil_prefix⟩
    · obtain ⟨hlt, -⟩ := List.getElem?_eq_some_iff.mp hs
      exact (getElem?_append_left hlt).trans hs
  | read partition after limit upto page hread =>
    refine ⟨⟨history, h.log, fun page hpage => ?_, h.stores, h.parts⟩, Forward.refl _⟩
    rw [mem_cons] at hpage
    obtain rfl | hpage := hpage
    · obtain ⟨hlimit, hpage⟩ := read_bounds h.log hread
      rw [hpage]
      exact genuine_slice _ _ _ _ _ hlimit
    · exact h.pages page hpage
  | apply i s s' page hs hpage happly =>
    obtain ⟨done, hdone, hbegins⟩ := h.stores s (mem_of_getElem? hs)
    obtain ⟨done', hdone', -, hbegins', honward⟩ := apply_counts he h.log (h.pages page hpage) hdone hbegins happly
    exact ⟨⟨history, h.setStore ⟨done', hdone', hbegins'⟩ i⟩, forward_set hs honward.watermark⟩
  | idle i s s' now hs hidle =>
    obtain ⟨done, hdone, hbegins⟩ := h.stores s (mem_of_getElem? hs)
    obtain ⟨honward, hkeep⟩ := idle_spec hidle
    refine ⟨⟨history, h.setStore ⟨done, hkeep hdone, ?_⟩ i⟩, forward_set hs honward.watermark⟩
    rw [honward.partition]
    exact hbegins
  | ask i s q part hs hpart =>
    refine ⟨⟨history, h.log, h.pages, h.stores, fun answer hanswer => ?_⟩, Forward.refl _⟩
    rw [mem_cons] at hanswer
    obtain rfl | hanswer := hanswer
    · obtain ⟨done, hdone, hbegins⟩ := h.stores s (mem_of_getElem? hs)
      have hmax := hbegins.length_le.trans (h.log.length s.partition)
      have htext : ∀ entry ∈ done, isText entry.event.adId = true := by
        intro entry hentry
        obtain ⟨body, hbody⟩ := (h.log.entry (hbegins.subset hentry)).normal
        exact (event_spec hbody).2.1
      obtain ⟨htold, hpartition, -, hseq, -⟩ := totals_told hdone hmax htext hpart
      have htake : (history part.partition).take part.seq = done := by
        rw [hpartition, hseq, hdone.seq]
        exact (prefix_iff_eq_take.mp hbegins).symm
      refine ⟨?_, htake ▸ htold⟩
      change part.seq ≤ (history part.partition).length
      rw [hpartition, hseq, hdone.seq]
      exact hbegins.length_le
    · exact h.parts answer hanswer
  | crash pages hpages =>
    exact ⟨⟨history, h.log, fun page hpage => h.pages page (hpages hpage), h.stores, h.parts⟩, Forward.refl _⟩

theorem reachable_sound (he : e.Lawful) (h : (pipeline e clock).Reachable w) :
    ∃ history, Sound e clock history w := by
  induction h with
  | start h =>
    obtain ⟨lineage, partitions, maxEvents, hlineage, hpartitions, rfl⟩ := h
    exact ⟨fun _ => [], logOk_init hlineage hpartitions, fun _ h => (nomatch h), fun _ h => (nomatch h),
      fun _ h => (nomatch h)⟩
  | step _ hstep ih =>
    obtain ⟨history, hsound⟩ := ih
    exact (hsound.step he hstep).1

/-! ### Exactly once -/

/-- Counts, digests and answers agree with the log. -/
structure ExactlyOnce (e : Settings) (clock : WorkerClock τ) (w : Pipeline τ) : Prop where
  distinct : ∀ p, ((w.log.logged e clock.toClock p).map fun entry => entry.event.eventId).Nodup
  numbered : ∀ p, Numbered 1 (w.log.logged e clock.toClock p)
  checkpoint : ∀ s ∈ w.stores, (w.behind e clock s).length = s.seq
  buckets : ∀ s ∈ w.stores, ∀ k, (s.buckets.get? k).map Bucket.count =
    if tally (w.behind e clock s) k = 0 then none else some (tally (w.behind e clock s) k)
  audit : ∀ s ∈ w.stores, ∀ maxRows, s.buckets.entries.length ≤ maxRows →
    s.audit maxRows = .ok (digestOf (w.behind e clock s))
  reconciled : ∀ s ∈ w.stores, s.partition < w.log.partitions → ∀ maxDimensions,
    s.buckets.entries.length ≤ maxDimensions →
    reconcile e clock w.log s.partition maxDimensions w.log.lineage s.seq = .ok (digestOf (w.behind e clock s))
  replayed : ∀ s ∈ w.stores, s.partition < w.log.partitions → ∀ lateness maxEvents maxRows,
    s.seq ≤ maxEvents → s.buckets.entries.length ≤ maxRows →
    replay e clock w.log (some s.seq) maxEvents maxRows (Aggregate.init clock s.partition lateness) =
      .ok (digestOf (w.behind e clock s))
  answers : ∀ q parts, (∀ part ∈ parts, (q, part) ∈ w.parts) → ∀ answer,
    reduce clock q w.log.lineage parts = .ok answer ↔
      Answerable clock w.log.lineage 0 parts (q.candidates (w.answered e clock parts)) ∧
        answer = q.bruteForce (w.answered e clock parts)

omit [LinearOrder τ] in
theorem Counts.rows_length {lineage : String} {s : Aggregate τ} {done : List (Entry τ)}
    (h : Counts lineage s done) : (tallied done).entries.length = s.buckets.entries.length := by
  rw [← h.counts.length_eq, Dict.mapVal, length_map]

theorem Sound.exact (he : e.Lawful) (h : Sound e clock history w) : ExactlyOnce e clock w := by
  have hlogged : ∀ p, w.log.logged e clock.toClock p = history p := h.log.logged
  have hbehind : ∀ s ∈ w.stores, s.seq ≤ (history s.partition).length ∧
      Counts w.log.lineage s ((history s.partition).take s.seq) := by
    intro s hs
    obtain ⟨done, hdone, hbegins⟩ := h.stores s hs
    rw [hdone.seq, ← prefix_iff_eq_take.mp hbegins]
    exact ⟨hbegins.length_le, hdone⟩
  have hsame : ∀ s, w.behind e clock s = (history s.partition).take s.seq := by
    intro s
    unfold Pipeline.behind
    rw [hlogged]
  constructor
  · intro p
    rw [hlogged]
    exact h.log.nodup p
  · intro p
    rw [hlogged]
    exact h.log.numbered p
  · intro s hs
    rw [hsame, length_take, Nat.min_eq_left (hbehind s hs).1]
  · intro s hs k
    rw [hsame, ← Dict.get?_mapVal]
    exact (hbehind s hs).2.counts k
  · intro s hs maxRows hmax
    rw [hsame]
    exact audit_digest (hbehind s hs).2 ((hbehind s hs).2.rows_length.trans_le hmax)
  · intro s hs hp maxDimensions hmax
    rw [hsame]
    exact reconcile_digest he h.log hp (hbehind s hs).1 ((hbehind s hs).2.rows_length.trans_le hmax)
  · intro s hs hp lateness maxEvents maxRows hevents hmax
    rw [hsame]
    exact replay_digest he h.log lateness hp (hbehind s hs).1 hevents ((hbehind s hs).2.rows_length.trans_le hmax)
  · intro q parts hparts answer
    have htold : List.Forall₂ (Told q) parts
        (parts.map fun part => (w.log.logged e clock.toClock part.partition).take part.seq) := by
      rw [forall₂_map_right_iff, forall₂_same]
      intro part hpart
      rw [hlogged]
      exact (h.parts _ (hparts part hpart)).2
    exact reduce_iff htold

/-- The only address is canonical. -/
def oneAddress : Settings := ⟨fun text => if text = "1.1.1.1" then some text else none, ascii.decode⟩

def wholeSeconds : WorkerClock ℤ := ⟨⟨id, fun _ => true⟩, id, fun now lateness => now - lateness⟩

theorem oneAddress_lawful : oneAddress.Lawful := by
  constructor
  intro text ip _ h
  unfold oneAddress at h ⊢
  dsimp only at h ⊢
  split at h
  · obtain rfl := Option.some.inj h
    rename_i haddress
    subst haddress
    exact ⟨by decide, rfl⟩
  · cases h

theorem clickBody_oneAddress : normalizeEvent oneAddress clickBody = .ok click := by
  have htexts : isText "e" = true ∧ isText "a" = true ∧ isText "u" = true ∧
    isText "1.1.1.1" = true ∧ isText "us" = true ∧ isCountry "us" = true := by decide
  have hfields : hasFields clickBody = true := by decide
  have hupper : upper "us" = "US" := by decide
  simp [normalizeEvent, event, hfields]
  simp [clickBody, text, integer, Json.get?, htexts, oneAddress, hupper, require, click, bind, Except.bind, List.lookup]

theorem click_logged : ∃ log receipts, (EventLog.init "l" 1 1 : EventLog ℤ).append oneAddress
    wholeSeconds.toClock 0 [clickBody] = .ok (log, receipts) ∧ log.heads = [1] ∧ log.lineage = "l" := by
  have hposition : 0 < maxPosition := by unfold maxPosition; decide
  refine ⟨⟨"l", 1, [1], Dict.empty.set "e" ⟨digest click.toJson, 0, 1, click.toJson.encode, 0⟩⟩,
    [⟨0, 1, false⟩], ?_, rfl, rfl⟩
  simp [EventLog.append, prepareEvents, clickBody_oneAddress, EventLog.acceptAll, EventLog.accept,
    EventLog.init, wholeSeconds, click, EventLog.partitions, partitionOf, Nat.mod_one, hposition, require,
    bind, Except.bind, pure, Except.pure]

theorem click_counted : ∃ w : Pipeline ℤ, (pipeline oneAddress wholeSeconds).Reachable w ∧
    ∃ s ∈ w.stores, s.seq = 1 := by
  obtain ⟨log, receipts, hlog, hheads, hlineage⟩ := click_logged
  have hstart : (pipeline oneAddress wholeSeconds).Reachable ⟨.init "l" 1 1, [], [], []⟩ :=
    .start ⟨"l", 1, 1, by decide, Nat.one_pos, rfl⟩
  have happended : appended oneAddress wholeSeconds.toClock 0 [clickBody] (.init "l" 1 1) = log := by
    unfold appended transaction
    rw [hlog]
  have hlogged := Transitions.Reachable.step hstart (PipelineStep.append _ 0 [clickBody])
  have hworker := Transitions.Reachable.step hlogged (PipelineStep.worker _ 0 120)
  dsimp only at hworker
  rw [happended] at hworker
  obtain ⟨history, hsound⟩ := reachable_sound oneAddress_lawful hworker
  have hp : 0 < log.partitions := by
    change 0 < log.heads.length
    rw [hheads]
    exact Nat.one_pos
  have hlength : (history 0).length = 1 := by
    have := hsound.log.heads 0 hp
    rw [hheads] at this
    exact (Option.some.inj this).symm
  have hread := read_history hsound.log none hp (Nat.zero_le _) ⟨by decide, le_refl 200⟩ rfl
  obtain ⟨s, hs, hcounts, -⟩ := apply_next oneAddress_lawful hsound.log
    (s := Aggregate.init wholeSeconds 0 120) (Nat.zero_le (history 0).length)
    (counts_init wholeSeconds 0 120 _)
  have hpage := Transitions.Reachable.step hworker (PipelineStep.read _ 0 0 200 none _ hread)
  have happlied := Transitions.Reachable.step hpage
    (PipelineStep.apply _ 0 (Aggregate.init wholeSeconds 0 120) s _ rfl mem_cons_self hs)
  refine ⟨_, happlied, s, mem_cons_self, ?_⟩
  rw [hcounts.seq, length_take]
  change min (min (history 0).length 200) (history 0).length = 1
  omega

end SystemDesign.AdClick
