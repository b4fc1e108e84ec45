import SystemDesign.Metrics.Alerts

/-!
Evaluators publish each alert's history in order.

A computed evaluation is accepted only at the version it was computed from, so what it
read of its rule's alerts is still what is stored: the stored alerts and the events are
the replay of the accepted evaluations, whatever the order of computing and publishing.
-/

namespace SystemDesign.Metrics

open List

section

variable {τ V : Type} [LinearOrder τ] [Sub τ] [NatCast τ] [LinearOrder V]

/-! ### Tracking one alert -/

/-- What an evaluation saw of a series. -/
def sightingOf (now : τ) (values : List (String × Option V)) (sid : String) : List (Sighting τ V) :=
  ((values.lookup sid).map fun v => ⟨now, v⟩).toList

def Evaluated.sighting (e : Evaluated τ V) (a : AlertId) : List (Sighting τ V) :=
  if e.rule.id = a.rule then sightingOf e.now e.values a.series else []

/-- The accepted evaluations that saw an alert, in the order of acceptance. -/
def trace (history : List (Evaluated τ V)) (a : AlertId) : List (Sighting τ V) := history.flatMap fun e => e.sighting a

def Event.announced (e : Event τ V) : Announced τ := ⟨e.state, e.id.transition, e.timestamp⟩

def eventsOf (d : AlertTables τ V) (a : AlertId) : List (Announced τ) :=
  (d.events.filter fun e => e.id.alert = a).map Event.announced

/-- The tables hold the replay of what was seen. -/
structure Tracks (rules : RuleSet τ V) (seen : AlertId → List (Sighting τ V)) (d : AlertTables τ V) :
    Prop where
  status : ∀ rule ∈ rules.rules, ∀ sid, (d.alerts.get? ⟨rule.id, sid⟩).map Alert.status =
    (replay rule (seen ⟨rule.id, sid⟩)).status
  events : ∀ rule ∈ rules.rules, ∀ sid, eventsOf d ⟨rule.id, sid⟩ = (replay rule (seen ⟨rule.id, sid⟩)).announced

omit [LinearOrder τ] [Sub τ] [NatCast τ] [LinearOrder V] in
theorem RuleSet.eq_of_id (rules : RuleSet τ V) {r r' : Rule τ V} (h : r ∈ rules.rules)
    (h' : r' ∈ rules.rules) (hid : r.id = r'.id) : r = r' :=
  inj_on_of_nodup_map rules.nodup h h' hid

variable {d : AlertTables τ V}

section
omit [LinearOrder τ] [Sub τ] [NatCast τ] [LinearOrder V]

theorem mem_eventsOf_iff {a : AlertId} {n : ℕ} :
    (∃ x ∈ eventsOf d a, x.transition = n) ↔ ∃ e ∈ d.events, e.id = ⟨a, n⟩ := by
  constructor
  · rintro ⟨x, hx, rfl⟩
    obtain ⟨e, he, rfl⟩ := mem_map.mp hx
    obtain ⟨he, ha⟩ := mem_filter.mp he
    refine ⟨e, he, ?_⟩
    rw [← of_decide_eq_true ha]
    rfl
  · rintro ⟨e, he, hid⟩
    refine ⟨e.announced, mem_map.mpr ⟨e, mem_filter.mpr ⟨he, ?_⟩, rfl⟩, ?_⟩
    · simp [hid]
    · simp [Event.announced, hid]

theorem eventsOf_append (d : AlertTables τ V) (e : Event τ V) (a : AlertId) :
    eventsOf { d with events := d.events ++ [e] } a = eventsOf d a ++ if e.id.alert = a then [e.announced] else [] := by
  unfold eventsOf
  rw [filter_append, map_append]
  by_cases h : e.id.alert = a
  · simp [h]
  · simp [h]

end

omit [Sub τ] [LinearOrder V] in
theorem alerts_applyUpdate (rule : Rule τ V) (now : τ) (d : AlertTables τ V) (u : Update τ V) :
    (applyUpdate rule now d u).alerts =
      d.alerts.set ⟨rule.id, u.series⟩ ⟨u.next.status now, u.value.isNone, u.labels, u.value⟩ := by
  unfold applyUpdate addEvent
  dsimp only
  split
  · split
    · rfl
    · rfl
  · rfl

/-- One update published: the alert has one sighting more. -/
theorem Tracks.applyUpdate {rules : RuleSet τ V} {seen : AlertId → List (Sighting τ V)}
    {d : AlertTables τ V} (h : Tracks rules seen d) {rule : Rule τ V} (hrule : rule ∈ rules.rules)
    {now : τ} {u : Update τ V}
    (hnext : u.next = nextState rule ((d.alerts.get? ⟨rule.id, u.series⟩).map Alert.status) u.value now) :
    Tracks rules (Function.update seen ⟨rule.id, u.series⟩
      (seen ⟨rule.id, u.series⟩ ++ [⟨now, u.value⟩])) (applyUpdate rule now d u) := by
  have hstatus := h.status rule hrule u.series
  have hevents := h.events rule hrule u.series
  have hok := replayOk rule (seen ⟨rule.id, u.series⟩)
  rw [hstatus] at hnext
  have hsee : replay rule (seen ⟨rule.id, u.series⟩ ++ [⟨now, u.value⟩]) =
      ⟨some (u.next.status now), (replay rule (seen ⟨rule.id, u.series⟩)).announced ++
        if u.next.emit then [⟨u.next.state, u.next.transition, now⟩] else []⟩ := by
    rw [replay_append, Replay.see, ← hnext]
  -- an announced transition is a new one, so its event is not ignored
  have hnew : ∀ a, eventsOf (Metrics.applyUpdate rule now d u) a = eventsOf d a ++
      if (⟨rule.id, u.series⟩ : AlertId) = a ∧ u.next.emit = true
      then [⟨u.next.state, u.next.transition, now⟩] else [] := by
    intro a
    unfold Metrics.applyUpdate
    dsimp only
    by_cases hemit : u.next.emit = true
    · rw [if_pos hemit]
      have hfresh : ¬ ∃ e ∈ d.events, e.id = ⟨⟨rule.id, u.series⟩, u.next.transition⟩ := by
        rw [← mem_eventsOf_iff, hevents]
        rintro ⟨x, hx, hnumber⟩
        have hmem : x.transition ∈ (replay rule (seen ⟨rule.id, u.series⟩)).announced.map
          Announced.transition := mem_map_of_mem hx
        rw [hok.numbers, mem_range'_1, hnumber] at hmem
        have hcount := hok.transition
        have hcases := nextState_cases rule (replay rule (seen ⟨rule.id, u.series⟩)).status u.value now
        rw [← hnext] at hcases
        cases hcases with
        | keeps _ _ _ emit => simp [emit] at hemit
        | rests _ _ _ emit => simp [emit] at hemit
        | waits _ _ _ emit _ _ => simp [emit] at hemit
        | fires _ _ transition _ _ _ _ => omega
        | resolves _ _ transition _ => omega
      have hany : (d.events.any fun old => decide (old.id = ⟨⟨rule.id, u.series⟩, u.next.transition⟩)) = false := by
        rw [any_eq_false]
        intro e he hid
        exact hfresh ⟨e, he, of_decide_eq_true hid⟩
      unfold addEvent
      simp only [hany]
      refine (eventsOf_append { d with alerts := _ } _ a).trans ?_
      simp only [hemit, and_true]
      rfl
    · rw [if_neg hemit]
      simp [hemit, eventsOf]
  constructor
  · intro rule' hrule' sid
    rw [alerts_applyUpdate]
    by_cases ha : (⟨rule'.id, sid⟩ : AlertId) = ⟨rule.id, u.series⟩
    · have heq := rules.eq_of_id hrule' hrule (congrArg AlertId.rule ha)
      subst heq
      rw [ha, Dict.get?_set_self, Function.update_self, hsee]
      rfl
    · rw [Dict.get?_set_of_ne _ ha, Function.update_of_ne ha]
      exact h.status rule' hrule' sid
  · intro rule' hrule' sid
    rw [hnew]
    by_cases ha : (⟨rule'.id, sid⟩ : AlertId) = ⟨rule.id, u.series⟩
    · have heq := rules.eq_of_id hrule' hrule (congrArg AlertId.rule ha)
      subst heq
      rw [ha, Function.update_self, hsee, hevents]
      simp
    · rw [Function.update_of_ne ha, if_neg fun hc => ha hc.1.symm, append_nil]
      exact h.events rule' hrule' sid

variable {rule : Rule τ V} {rules : RuleSet τ V}

/-- The updates of one evaluation: each alert it has is seen once more. -/
theorem Tracks.applyUpdates (hrule : rule ∈ rules.rules) {now : τ} {updates : List (Update τ V)}
    (hnodup : (updates.map Update.series).Nodup) {seen : AlertId → List (Sighting τ V)} (h : Tracks rules seen d)
    (hnext : ∀ u ∈ updates, u.next =
      nextState rule ((d.alerts.get? ⟨rule.id, u.series⟩).map Alert.status) u.value now) :
    Tracks rules (fun a => seen a ++ if rule.id = a.rule
        then sightingOf now (updates.map fun u => (u.series, u.value)) a.series else [])
      (updates.foldl (Metrics.applyUpdate rule now) d) := by
  induction updates generalizing d seen with
  | nil => simpa [sightingOf] using h
  | cons u updates ih =>
    rw [map_cons, nodup_cons] at hnodup
    have hfirst := h.applyUpdate hrule (hnext u mem_cons_self)
    have hrest := ih hnodup.2 hfirst fun u' hu' => by
      rw [alerts_applyUpdate, Dict.get?_set_of_ne]
      · exact hnext u' (mem_cons_of_mem _ hu')
      · intro heq
        exact hnodup.1 (mem_map.mpr ⟨u', hu', congrArg AlertId.series heq⟩)
    rw [foldl_cons]
    convert hrest using 2 with a
    by_cases ha : a = ⟨rule.id, u.series⟩
    · subst ha
      have hnone : (updates.map fun u => (u.series, u.value)).lookup u.series = none := by
        rw [Assoc.lookup_eq_none_iff, map_map]
        exact hnodup.1
      simp [sightingOf, hnone]
    · rw [Function.update_of_ne ha]
      congr 1
      by_cases hid : rule.id = a.rule
      · have hsid : a.series ≠ u.series := by
          rintro heq
          exact ha (by rw [hid, ← heq])
        simp [hid, sightingOf, Assoc.lookup_cons, hsid]
      · simp [hid]

/-! ### Evaluators -/

/-- A computed evaluation says what its rule's alerts do next. -/
structure Current (d : AlertTables τ V) (c : Computed τ V) : Prop where
  nodup : (c.updates.map Update.series).Nodup
  next : ∀ u ∈ c.updates, u.next =
    nextState c.rule ((d.alerts.get? ⟨c.rule.id, u.series⟩).map Alert.status) u.value c.now
  covers : ∀ sid, (d.alerts.get? ⟨c.rule.id, sid⟩).isSome → sid ∈ c.updates.map Update.series

/-- Every evaluation sees the alerts that earlier ones saw. -/
def Covered (history : List (Evaluated τ V)) : Prop :=
  ∀ before e after, history = before ++ e :: after →
    ∀ sid, trace before ⟨e.rule.id, sid⟩ ≠ [] → sid ∈ e.values.map Prod.fst

structure Evaluating (beginning : τ) (rules : RuleSet τ V) (s : AlertState τ V) : Prop where
  tracks : Tracks rules (trace s.history) s.tables
  rule : ∀ c ∈ s.computed, c.rule ∈ rules.rules
  version : ∀ c ∈ s.computed, c.version ≤ (acceptedRow s.tables beginning c.rule.id).version
  current : ∀ c ∈ s.computed, c.version = (acceptedRow s.tables beginning c.rule.id).version → Current s.tables c
  accepted : ∀ e ∈ s.history, e.rule ∈ rules.rules ∧ e.now ≤ (acceptedRow s.tables beginning e.rule.id).updated
  times : s.history.Pairwise fun e e' => e.rule.id = e'.rule.id → e.now ≤ e'.now
  covered : Covered s.history

variable {c : Computed τ V}

omit [NatCast τ] in
theorem compute_current (beginning : τ) {measure : Aggregation → Kind → List (τ × V) → Option V} {now : τ}
    {r : Reading τ V} (h : compute measure d rule now r = .ok c) :
    c.rule = rule ∧ c.version = (acceptedRow d beginning rule.id).version ∧ Current d c := by
  unfold compute at h
  dsimp only at h
  obtain ⟨_, _, h⟩ := of_bind h
  obtain ⟨_, _, h⟩ := of_bind h
  cases h
  have hseries : (((r.selected.keys ∪ existing d rule.id).dedup.insertionSort (· ≤ ·)).map
      (evaluateSeries measure rule now r d)).map Update.series =
        (r.selected.keys ∪ existing d rule.id).dedup.insertionSort (· ≤ ·) := by
    rw [map_map]
    exact List.map_id _
  have hperm := perm_insertionSort (· ≤ ·) (r.selected.keys ∪ existing d rule.id).dedup
  refine ⟨rfl, ?_, ?_, ?_, ?_⟩
  · unfold acceptedRow
    cases d.evaluations.get? rule.id with
    | none => rfl
    | some row => rfl
  · rw [hseries]
    exact hperm.nodup_iff.mpr (nodup_dedup _)
  · intro u hu
    obtain ⟨sid, -, rfl⟩ := mem_map.mp hu
    rfl
  · intro sid hsid
    rw [hseries]
    apply hperm.mem_iff.mpr
    rw [mem_dedup, mem_union_iff]
    right
    obtain ⟨a, ha⟩ := Option.isSome_iff_exists.mp hsid
    refine mem_map.mpr ⟨⟨rule.id, sid⟩, mem_filter.mpr ⟨?_, by simp⟩, rfl⟩
    exact Dict.mem_keys.mpr ⟨a, ha⟩

section
omit [Sub τ] [LinearOrder V]

omit [Sub τ] [LinearOrder V] in
theorem deliveries_applyUpdates (rule : Rule τ V) (now : τ) (updates : List (Update τ V))
    (d : AlertTables τ V) : (updates.foldl (applyUpdate rule now) d).deliveries = d.deliveries := by
  induction updates generalizing d with
  | nil => rfl
  | cons u updates ih =>
    rw [foldl_cons, ih]
    unfold applyUpdate addEvent
    dsimp only
    split
    · split
      · rfl
      · rfl
    · rfl

theorem alerts_applyUpdates_other (rule : Rule τ V) (now : τ) (updates : List (Update τ V))
    (d : AlertTables τ V) {a : AlertId} (ha : a.rule ≠ rule.id) :
    (updates.foldl (applyUpdate rule now) d).alerts.get? a = d.alerts.get? a := by
  induction updates generalizing d with
  | nil => rfl
  | cons u updates ih =>
    rw [foldl_cons, ih, alerts_applyUpdate, Dict.get?_set_of_ne]
    rintro rfl
    exact ha rfl

end

omit [LinearOrder V] in
theorem accept_spec {beginning : τ} {d d' : AlertTables τ V} {c : Computed τ V}
    (h : accept beginning d c = some d') :
    c.version = (acceptedRow d beginning c.rule.id).version ∧ (acceptedRow d beginning c.rule.id).updated ≤ c.now ∧
      d'.evaluations = d.evaluations.set c.rule.id ⟨(acceptedRow d beginning c.rule.id).version + 1, c.now⟩ ∧
      d'.alerts = (c.updates.foldl (applyUpdate c.rule c.now) d).alerts ∧
      d'.events = (c.updates.foldl (applyUpdate c.rule c.now) d).events ∧
      d'.deliveries = d.deliveries := by
  have hframe : ∀ (updates : List (Update τ V)) (d : AlertTables τ V) (ev : Dict String (Accepted τ)),
      updates.foldl (applyUpdate c.rule c.now) { d with evaluations := ev } =
        { updates.foldl (applyUpdate c.rule c.now) d with evaluations := ev } := by
    intro updates
    induction updates with
    | nil => exact fun _ _ => rfl
    | cons u updates ih =>
      intro d ev
      rw [foldl_cons, foldl_cons, ← ih]
      congr 1
      unfold applyUpdate addEvent silencedUntil
      dsimp only
      split
      · split
        · rfl
        · rfl
      · rfl
  unfold accept at h
  dsimp only at h
  split at h
  · rename_i hcheck
    cases h
    rw [hframe]
    exact ⟨hcheck.1.symm, hcheck.2, rfl, rfl, rfl, deliveries_applyUpdates _ _ _ _⟩
  · cases h

omit [LinearOrder τ] [Sub τ] [NatCast τ] [LinearOrder V] in
theorem trace_append (history : List (Evaluated τ V)) (e : Evaluated τ V) (a : AlertId) :
    trace (history ++ [e]) a = trace history a ++ e.sighting a := by
  simp [trace]

/-- Tables that differ in nothing that evaluators read or write. -/
structure SameAlerts (d d' : AlertTables τ V) : Prop where
  alerts : d'.alerts = d.alerts
  evaluations : d'.evaluations = d.evaluations
  events : ∀ a, eventsOf d' a = eventsOf d a

omit [LinearOrder τ] [Sub τ] [NatCast τ] [LinearOrder V] in
theorem SameAlerts.trans {d d' d'' : AlertTables τ V} (h : SameAlerts d d') (h' : SameAlerts d' d'') :
    SameAlerts d d'' :=
  ⟨h'.alerts.trans h.alerts, h'.evaluations.trans h.evaluations, fun a => (h'.events a).trans (h.events a)⟩

section
omit [NatCast τ]

theorem Tracks.same {seen : AlertId → List (Sighting τ V)} {d' : AlertTables τ V} (h : Tracks rules seen d)
    (halerts : d'.alerts = d.alerts) (hevents : ∀ a, eventsOf d' a = eventsOf d a) : Tracks rules seen d' := by
  constructor
  · intro rule hrule sid
    rw [halerts]
    exact h.status rule hrule sid
  · intro rule hrule sid
    rw [hevents]
    exact h.events rule hrule sid

theorem Evaluating.same {beginning : τ} {rules : RuleSet τ V} {s : AlertState τ V}
    (h : Evaluating beginning rules s) {d : AlertTables τ V} (hd : SameAlerts s.tables d)
    (notifiers : Dict String Notifier) :
    Evaluating beginning rules { s with tables := d, notifiers := notifiers } := by
  have hrow : ∀ id, acceptedRow d beginning id = acceptedRow s.tables beginning id := by
    intro id
    rw [acceptedRow, hd.evaluations, acceptedRow]
  constructor
  · exact h.tracks.same hd.alerts hd.events
  · exact h.rule
  · intro c hc
    rw [hrow]
    exact h.version c hc
  · intro c hc hversion
    rw [hrow] at hversion
    obtain ⟨hnodup, hnext, hcovers⟩ := h.current c hc hversion
    constructor
    · exact hnodup
    · rw [hd.alerts]
      exact hnext
    · rw [hd.alerts]
      exact hcovers
  · intro e he
    rw [hrow]
    exact h.accepted e he
  · exact h.times
  · exact h.covered

theorem Evaluating.compute {beginning : τ} {s : AlertState τ V} (h : Evaluating beginning rules s)
    {measure : Aggregation → Kind → List (τ × V) → Option V} {now : τ} {r : Reading τ V} (hrule : rule ∈ rules.rules)
    (hc : compute measure s.tables rule now r = .ok c) :
    Evaluating beginning rules { s with computed := s.computed ++ [c] } := by
  obtain ⟨rfl, hversion, hcurrent⟩ := compute_current beginning hc
  refine ⟨h.tracks, ?_, ?_, ?_, h.accepted, h.times, h.covered⟩
  · intro c' hc'
    rw [mem_append, mem_singleton] at hc'
    obtain hc' | rfl := hc'
    · exact h.rule c' hc'
    · exact hrule
  · intro c' hc'
    rw [mem_append, mem_singleton] at hc'
    obtain hc' | rfl := hc'
    · exact h.version c' hc'
    · exact hversion.le
  · intro c' hc'
    rw [mem_append, mem_singleton] at hc'
    obtain hc' | rfl := hc'
    · exact h.current c' hc'
    · exact fun _ => hcurrent

theorem replay_status_isSome (rule : Rule τ V) {xs : List (Sighting τ V)} (h : xs ≠ []) :
    (replay rule xs).status.isSome := by
  obtain rfl | ⟨init, last, rfl⟩ := eq_nil_or_concat xs
  · exact absurd rfl h
  · rw [concat_eq_append, replay_append]
    rfl

end

omit [LinearOrder τ] [Sub τ] [NatCast τ] [LinearOrder V] in
theorem Covered.snoc {history : List (Evaluated τ V)} (h : Covered history) {e : Evaluated τ V}
    (he : ∀ sid, trace history ⟨e.rule.id, sid⟩ ≠ [] → sid ∈ e.values.map Prod.fst) : Covered (history ++ [e]) := by
  intro before e' after hsplit
  obtain rfl | ⟨init, last, rfl⟩ := eq_nil_or_concat after
  · obtain ⟨rfl, hlast⟩ := append_inj' hsplit rfl
    cases hlast
    exact he
  · rw [concat_eq_append, ← cons_append, ← append_assoc] at hsplit
    obtain ⟨hinit, -⟩ := append_inj' hsplit rfl
    exact h before e' init hinit

theorem Evaluating.accept {beginning : τ} {s : AlertState τ V} (h : Evaluating beginning rules s)
    (hc : c ∈ s.computed) (hd : accept beginning s.tables c = some d) :
    Evaluating beginning rules { s with
      tables := d
      history := s.history ++ [Evaluated.mk c.rule c.now (c.updates.map fun u => (u.series, u.value))] } := by
  obtain ⟨hversion, hupdated, hevaluations, halerts, hevents, -⟩ := accept_spec hd
  have hrule := h.rule c hc
  obtain ⟨hnodup, hnext, hcovers⟩ := h.current c hc hversion
  have hrow : acceptedRow d beginning c.rule.id = ⟨(acceptedRow s.tables beginning c.rule.id).version + 1, c.now⟩ := by
    rw [acceptedRow, hevaluations, Dict.get?_set_self]
    rfl
  have hother : ∀ id, id ≠ c.rule.id → acceptedRow d beginning id = acceptedRow s.tables beginning id := by
    intro id hid
    rw [acceptedRow, hevaluations, Dict.get?_set_of_ne _ hid, acceptedRow]
  constructor
  · have htracks := h.tracks.applyUpdates hrule hnodup hnext
    have hseen : (fun a : AlertId => trace s.history a ++ if c.rule.id = a.rule
        then sightingOf c.now (c.updates.map fun u => (u.series, u.value)) a.series else []) =
        trace (s.history ++ [Evaluated.mk c.rule c.now (c.updates.map fun u => (u.series, u.value))]) := by
      funext a
      rw [trace_append]
      rfl
    rw [hseen] at htracks
    exact htracks.same halerts fun a => by rw [eventsOf, hevents, eventsOf]
  · exact h.rule
  · intro c' hc'
    have hle := h.version c' hc'
    by_cases hid : c'.rule.id = c.rule.id
    · rw [hid] at hle ⊢
      rw [hrow]
      dsimp only
      omega
    · rw [hother _ hid]
      exact hle
  · intro c' hc' hversion'
    have hle := h.version c' hc'
    by_cases hid : c'.rule.id = c.rule.id
    · rw [hid] at hle hversion'
      rw [hrow] at hversion'
      dsimp only at hversion'
      omega
    · rw [hother _ hid] at hversion'
      obtain ⟨hnodup', hnext', hcovers'⟩ := h.current c' hc' hversion'
      have hget : ∀ sid, d.alerts.get? ⟨c'.rule.id, sid⟩ = s.tables.alerts.get? ⟨c'.rule.id, sid⟩ := by
        intro sid
        rw [halerts]
        exact alerts_applyUpdates_other _ _ _ _ hid
      constructor
      · exact hnodup'
      · intro u hu
        rw [hget]
        exact hnext' u hu
      · intro sid
        rw [hget]
        exact hcovers' sid
  · intro e he
    rw [mem_append, mem_singleton] at he
    obtain he | rfl := he
    · obtain ⟨herule, hle⟩ := h.accepted e he
      refine ⟨herule, ?_⟩
      by_cases hid : e.rule.id = c.rule.id
      · rw [hid] at hle ⊢
        rw [hrow]
        exact hle.trans hupdated
      · rw [hother _ hid]
        exact hle
    · refine ⟨hrule, ?_⟩
      rw [hrow]
  · rw [pairwise_append]
    refine ⟨h.times, pairwise_singleton _ _, ?_⟩
    intro e he e' he' hid
    rw [mem_singleton] at he'
    subst he'
    have hle := (h.accepted e he).2
    rw [hid] at hle
    exact hle.trans hupdated
  · apply h.covered.snoc
    intro sid htrace
    have hstatus := h.tracks.status c.rule hrule sid
    have hsome := replay_status_isSome c.rule htrace
    rw [← hstatus, Option.isSome_map] at hsome
    rw [map_map]
    exact hcovers sid hsome

end

end SystemDesign.Metrics
