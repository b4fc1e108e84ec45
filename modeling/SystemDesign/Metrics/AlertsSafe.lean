import SystemDesign.Metrics.DeliverySpec

/-!
Alerting as a whole: what holds in every state of every run, for any number of evaluators
and delivery workers, some of which crash or lose their lease.
-/

namespace SystemDesign.Metrics

open List

section

variable {τ V : Type} [LinearOrder τ] [Sub τ] [Add τ] [NatCast τ] [LinearOrder V]

structure AlertInvariant (beginning : τ) (rules : RuleSet τ V) (s : AlertState τ V) : Prop where
  evaluating : Evaluating beginning rules s
  delivering : Delivering s.tables s.notifiers

omit [Add τ] [NatCast τ] in
theorem alertInvariant_start (beginning : τ) (rules : RuleSet τ V) :
    AlertInvariant beginning rules ⟨⟨.empty, .empty, [], [], []⟩, [], [], .empty⟩ := by
  constructor
  · constructor
    · constructor
      · exact fun _ _ _ => rfl
      · exact fun _ _ _ => rfl
    · exact fun _ hc => nomatch hc
    · exact fun _ hc => nomatch hc
    · exact fun _ hc => nomatch hc
    · exact fun _ he => nomatch he
    · exact List.Pairwise.nil
    · intro before e after h
      exact absurd h (by simp)
  · constructor
    · exact nodup_nil
    · rfl
    · exact nodup_nil
    · exact fun _ hn => nomatch hn
    · exact fun _ he => nomatch he
    · exact fun _ he => nomatch he
    · exact fun _ h => absurd h (Nat.lt_irrefl 0)
    · exact fun _ hn => nomatch hn
    · exact fun _ hn => nomatch hn

/-- One step keeps the invariant and reopens no event. -/
theorem AlertInvariant.step {beginning : τ} {rules : RuleSet τ V}
    {measure : Aggregation → Kind → List (τ × V) → Option V} {s s' : AlertState τ V}
    (inv : AlertInvariant beginning rules s) (h : AlertStep beginning rules measure s s') :
    AlertInvariant beginning rules s' ∧ Settles s.tables s'.tables := by
  obtain ⟨he, hd⟩ := inv
  cases h with
  | compute hrule h => exact ⟨⟨he.compute hrule h, hd⟩, .of_subset (Subset.refl _)⟩
  | accept hc h =>
    obtain ⟨hd', hsettles⟩ := hd.accept h
    exact ⟨⟨he.accept hc h, hd'⟩, hsettles⟩
  | silence row =>
    refine ⟨⟨?_, hd.same rfl rfl⟩, .of_subset (Subset.refl _)⟩
    apply he.same
    exact ⟨rfl, rfl, fun _ => rfl⟩
  | nothing hpicked h =>
    obtain ⟨hfurther, hd'⟩ := notifyBegin_spec hd hpicked (.inr rfl) h
    exact ⟨⟨he.same hfurther.toSameAlerts _, hd'⟩, hfurther.settled⟩
  | claim hpicked hlease h =>
    obtain ⟨hfurther, hd'⟩ := notifyBegin_spec hd hpicked (.inl hlease) h
    exact ⟨⟨he.same hfurther.toSameAlerts _, hd'⟩, hfurther.settled⟩
  | deliver error h =>
    exact ⟨⟨he.same ⟨rfl, rfl, fun _ => rfl⟩ _, hd.proceed h rfl rfl⟩, .of_subset (Subset.refl _)⟩
  | finish finished h =>
    obtain ⟨hd', hfurther⟩ := hd.notifyEnd h finished _
    exact ⟨⟨he.same hfurther.toSameAlerts _, hd'.proceed h rfl rfl⟩, hfurther.settled⟩

theorem AlertInvariant.run {beginning : τ} {rules : RuleSet τ V}
    {measure : Aggregation → Kind → List (τ × V) → Option V} {s s' : AlertState τ V}
    (inv : AlertInvariant beginning rules s) (h : Relation.ReflTransGen (alerting beginning rules measure).step s s') :
    AlertInvariant beginning rules s' ∧ Settles s.tables s'.tables := by
  induction h with
  | refl => exact ⟨inv, .of_subset (Subset.refl _)⟩
  | tail _ hstep ih =>
    obtain ⟨inv', hsettles⟩ := ih.1.step hstep
    exact ⟨inv', ih.2.trans hsettles⟩

/-! ### What it is for -/

/-- The alerts of a rule are what its accepted evaluations make them. -/
structure Folded (rule : Rule τ V) (history : List (Evaluated τ V)) (d : AlertTables τ V)
    (sid : String) : Prop where
  status : (d.alerts.get? ⟨rule.id, sid⟩).map Alert.status = (replay rule (trace history ⟨rule.id, sid⟩)).status
  events : eventsOf d ⟨rule.id, sid⟩ = (replay rule (trace history ⟨rule.id, sid⟩)).announced

/-- Firing, resolved, firing and so on, each at the end of what it takes. -/
structure Alternates (rule : Rule τ V) (seen : List (Sighting τ V)) (events : List (Announced τ)) :
    Prop where
  numbers : events.map Announced.transition = List.range' 1 events.length
  phases : ∀ a ∈ events, a.state = if a.transition % 2 = 1 then .firing else .resolved
  fired : ∀ a ∈ events, a.state = .firing → ∃ upTo rest start, seen = upTo ++ rest ∧
    EndsUnbroken rule upTo start a.time ∧ a.time - start ≥ rule.forSeconds

/-- An event is in one delivery, a delivery is tried five times, a group goes in order. -/
structure DeliversOnce (d : AlertTables τ V) (w : Dict String Notifier) : Prop where
  events : (d.events.map Event.id).Nodup
  once : ∀ n ∈ d.deliveries, ∀ n' ∈ d.deliveries, ∀ i ∈ n.id, i ∈ n'.id → n = n'
  attempts : ∀ n ∈ d.deliveries, claimsOf w n.id ≤ 5
  order : ∀ n ∈ d.deliveries, 0 < claimsOf w n.id → ∀ o ∈ d.deliveries, o.group = n.group →
    o.seq < n.seq → o.status = .sent ∨ o.status = .dead

omit [LinearOrder τ] [Sub τ] [Add τ] [NatCast τ] [LinearOrder V] in
theorem Delivering.deliversOnce {d : AlertTables τ V} {w : Dict String Notifier}
    (h : Delivering d w) : DeliversOnce d w := by
  constructor
  · exact h.eventIds
  · intro n hn n' hn' i hi hi'
    obtain ⟨e, he, hei, heb⟩ := (h.members n hn).2 i hi
    obtain ⟨e', he', hei', heb'⟩ := (h.members n' hn').2 i hi'
    have heq := inj_on_of_nodup_map h.eventIds he he' (hei.trans hei'.symm)
    subst heq
    exact inj_on_of_nodup_map h.ids hn hn' (Option.some.inj (heb.symm.trans heb'))
  · intro n hn
    rw [(h.each n hn).claims]
    exact (h.each n hn).attempts
  · intro n hn hpos o ho hgroup hseq
    rw [(h.each n hn).claims] at hpos
    have hended := h.order n hn hpos o ho hgroup hseq
    cases hstatus : o.status with
    | pending => exact absurd hstatus hended
    | sent => exact .inl rfl
    | dead => exact .inr rfl

/-- In every state of every run: alerts and events are the fold of the accepted
evaluations, whose times do not decrease and which leave out no alert seen before; events
alternate and fire when they should; deliveries keep their promises; and what is
ended stays ended for the rest of the run. -/
theorem alerting_safe (beginning : τ) (rules : RuleSet τ V)
    (measure : Aggregation → Kind → List (τ × V) → Option V) {s : AlertState τ V}
    (h : (alerting beginning rules measure).Reachable s) :
    (s.history.Pairwise fun e e' => e.rule.id = e'.rule.id → e.now ≤ e'.now) ∧
    Covered s.history ∧
    (∀ rule ∈ rules.rules, ∀ sid, Folded rule s.history s.tables sid ∧
      Alternates rule (trace s.history ⟨rule.id, sid⟩) (eventsOf s.tables ⟨rule.id, sid⟩)) ∧
    DeliversOnce s.tables s.notifiers ∧
    ∀ s', Relation.ReflTransGen (alerting beginning rules measure).step s s' → Settles s.tables s'.tables := by
  have inv : AlertInvariant beginning rules s := by
    apply h.invariant
    · rintro s rfl
      exact alertInvariant_start beginning rules
    · exact fun s s' _ inv hstep => (inv.step hstep).1
  have htracks := inv.evaluating.tracks
  refine ⟨inv.evaluating.times, inv.evaluating.covered, fun rule hrule sid => ⟨?_, ?_⟩,
    inv.delivering.deliversOnce, fun s' hrun => (inv.run hrun).2⟩
  · exact ⟨htracks.status rule hrule sid, htracks.events rule hrule sid⟩
  · have hok := replayOk rule (trace s.history ⟨rule.id, sid⟩)
    rw [htracks.events rule hrule sid]
    exact ⟨hok.numbers, hok.phases, hok.fired⟩

end

/-! ### A run -/

def busy : Rule ℤ ℤ where
  id := "busy"
  metric := "load"
  aggregation := .last
  op := .gt
  threshold := 3
  forSeconds := 0
  maxAge := 60
  groupBy := []
  destination := "https://ops"
  channel := .webhook
  labels := .empty

def busyRules : RuleSet ℤ ℤ := ⟨[busy], by simp⟩

def newest (_ : Aggregation) (_ : Kind) (points : List (ℤ × ℤ)) : Option ℤ := points.getLast?.map Prod.snd

def loadOnHost : Reading ℤ ℤ := ⟨Dict.empty.set "host-1" ⟨.empty, .gauge⟩, fun _ => [(10, 5)]⟩

def busyAlert : AlertId := ⟨"busy", "host-1"⟩

def busyNow : Computed ℤ ℤ := ⟨busy, 10, 0, [⟨"host-1", .empty, some 5, ⟨.firing, 10, 1, true⟩⟩]⟩

def busyEvent : Event ℤ ℤ := ⟨⟨busyAlert, 1⟩, groupKey busy .empty, .empty, .firing, some 5, 10, 0, none, .pending⟩

def busyTables : AlertTables ℤ ℤ :=
  ⟨Dict.empty.set busyAlert ⟨⟨.firing, 10, 1, 10⟩, false, .empty, some 5⟩,
    Dict.empty.set "busy" ⟨1, 10⟩, [busyEvent], [], []⟩

def busyTask : Delivery ℤ := ⟨1, [⟨busyAlert, 1⟩], groupKey busy .empty, [.empty], 20, 0, none, 0, .pending, ""⟩

def busyClaimed : AlertTables ℤ ℤ :=
  setDelivery { busyTables with
    events := [{ busyEvent with batch := some [⟨busyAlert, 1⟩] }]
    deliveries := [busyTask] } (fun n => n.id = busyTask.id) (Delivery.claimedBy 20 "lease-1")

theorem compute_busy : compute newest ⟨.empty, .empty, [], [], []⟩ busy 10 loadOnHost = .ok busyNow := rfl

theorem accept_busy : accept (-1) ⟨.empty, .empty, [], [], []⟩ busyNow = some busyTables := rfl

theorem picked_busy : Picked 20 busyTables [busyEvent] := by
  constructor
  · intro e he
    rw [mem_singleton] at he
    subst he
    exact ⟨mem_singleton_self _, rfl⟩
  · exact nodup_singleton _
  · rfl
  · exact pairwise_singleton _ _
  · intro e he _
    rw [busyTables, mem_singleton] at he
    subst he
    exact .inl (mem_singleton_self _)

theorem notifyBegin_busy : notifyBegin 20 "lease-1" busyTables [busyEvent] = (busyClaimed, some busyTask) := rfl

/-- A host is busy, and the alert is sent on. -/
theorem alerting_safe_busy : ∃ s, (alerting (-1) busyRules newest).Reachable s ∧
    s.tables.events.map Event.status = [.sent] ∧
    s.tables.deliveries.map Delivery.attempts = [1] ∧
    Folded busy s.history s.tables "host-1" ∧
    Alternates busy (trace s.history busyAlert) (eventsOf s.tables busyAlert) ∧
    DeliversOnce s.tables s.notifiers := by
  have hstart : (alerting (-1) busyRules newest).Reachable ⟨⟨.empty, .empty, [], [], []⟩, [], [], .empty⟩ := .start rfl
  have hcompute := hstart.step (AlertStep.compute (mem_singleton_self _) compute_busy)
  have haccept := hcompute.step (AlertStep.accept (mem_singleton_self _) accept_busy)
  have hclaim := haccept.step (AlertStep.claim picked_busy (Dict.get?_empty "lease-1") notifyBegin_busy)
  have hdeliver := hclaim.step (AlertStep.deliver none (Dict.get?_set_self _ "lease-1" _))
  have hfinish := hdeliver.step (AlertStep.finish 21 (Dict.get?_set_self _ "lease-1" _))
  obtain ⟨-, -, hrules, hdeliveries, -⟩ := alerting_safe (-1) busyRules newest hfinish
  obtain ⟨hfolded, halternates⟩ := hrules busy (mem_singleton_self _) "host-1"
  exact ⟨_, hfinish, rfl, rfl, hfolded, halternates, hdeliveries⟩

end SystemDesign.Metrics
