import SystemDesign.Metrics.Samples

/-!
The state of one alert (`next_state` of `alert_evaluation.py`) and what folding it gives.

Times are values of a linear order with the subtraction the program makes, readings are
values of a linear order (the program keeps NaN out). `replay` folds `nextState` over the
evaluations that saw an alert.

`replayOk` says what is announced: firing, resolved, firing and so on, numbered from one, and
a firing only at the end of an interval of evaluations that all met the condition, as
long as the rule asks, without a gap above `max_age`.
-/

namespace SystemDesign.Metrics

open List

inductive AlertPhase where
  | inactive
  | pending
  | firing
  | resolved
deriving DecidableEq

inductive Op where
  | gt
  | ge
  | lt
  | le
  | eq

inductive Channel where
  | webhook
  | email
  | phone
  | pagerduty
deriving DecidableEq

inductive Aggregation where
  | last
  | avg
  | min
  | max
  | increase
  | rate

structure Rule (τ V : Type) where
  id : String
  metric : String
  aggregation : Aggregation
  op : Op
  threshold : V
  forSeconds : τ
  maxAge : τ
  groupBy : List String
  destination : String
  channel : Channel
  labels : Dict String String

/-- The columns of an alert that `next_state` reads and gives. -/
structure AlertStatus (τ : Type) where
  state : AlertPhase
  since : τ
  transition : ℕ
  updated : τ

section

variable {τ V : Type} [LinearOrder τ] [Sub τ] [LinearOrder V]

def Op.holds (op : Op) (value threshold : V) : Bool :=
  match op with
  | .gt => value > threshold
  | .ge => value ≥ threshold
  | .lt => value < threshold
  | .le => value ≤ threshold
  | .eq => value = threshold

def Rule.met (rule : Rule τ V) (value : V) : Bool := rule.op.holds value rule.threshold

/-- The old state and the start of its interval; a pending one does not survive a gap. -/
def observed (previous : Option (AlertStatus τ)) (now maxAge : τ) : AlertPhase × τ :=
  match previous with
  | none => (.inactive, now)
  | some p =>
    if p.state = .pending ∧ now - p.updated > maxAge then (.inactive, now) else (p.state, p.since)

structure Next (τ : Type) where
  state : AlertPhase
  since : τ
  transition : ℕ
  emit : Bool

def nextState (rule : Rule τ V) (previous : Option (AlertStatus τ)) (value : Option V) (now : τ) :
    Next τ :=
  let old := (observed previous now rule.maxAge).1
  let since := (observed previous now rule.maxAge).2
  let transition := (previous.map AlertStatus.transition).getD 0
  match value with
  | none => if old = .firing then ⟨.firing, since, transition, false⟩ else ⟨.inactive, now, transition, false⟩
  | some value =>
    if rule.met value then
      -- a new interval starts here unless one is under way
      let since := if old = .pending ∨ old = .firing then since else now
      if old = .firing then ⟨.firing, since, transition, false⟩
      else if now - since ≥ rule.forSeconds then ⟨.firing, since, transition + 1, true⟩
      else ⟨.pending, since, transition, false⟩
    else if old = .firing then ⟨.resolved, now, transition + 1, true⟩
    else ⟨.inactive, now, transition, false⟩

def Next.status (n : Next τ) (now : τ) : AlertStatus τ := ⟨n.state, n.since, n.transition, now⟩

/-! ### Folding -/

/-- What one accepted evaluation saw of an alert. -/
structure Sighting (τ V : Type) where
  time : τ
  value : Option V

/-- A transition that was announced. -/
structure Announced (τ : Type) where
  state : AlertPhase
  transition : ℕ
  time : τ

structure Replay (τ : Type) where
  status : Option (AlertStatus τ)
  announced : List (Announced τ)

def Replay.see (rule : Rule τ V) (r : Replay τ) (x : Sighting τ V) : Replay τ :=
  let next := nextState rule r.status x.value x.time
  ⟨some (next.status x.time), r.announced ++ if next.emit then [⟨next.state, next.transition, x.time⟩] else []⟩

def replay (rule : Rule τ V) (xs : List (Sighting τ V)) : Replay τ := xs.foldl (Replay.see rule) ⟨none, []⟩

theorem replay_append (rule : Rule τ V) (xs : List (Sighting τ V)) (x : Sighting τ V) :
    replay rule (xs ++ [x]) = (replay rule xs).see rule x := by
  simp [replay]

/-- An evaluation that saw a value that meets the condition. -/
def Rule.meets (rule : Rule τ V) (x : Sighting τ V) : Prop := ∃ v, x.value = some v ∧ rule.met v = true

/-- Consecutive evaluations of an interval, all meeting the condition, no gap too long. -/
structure Unbroken (rule : Rule τ V) (interval : List (Sighting τ V)) : Prop where
  meets : ∀ x ∈ interval, rule.meets x
  gaps : interval.IsChain fun x y => ¬ y.time - x.time > rule.maxAge

/-- The evaluations seen end in an unbroken interval from `start` to `stop`. -/
def EndsUnbroken (rule : Rule τ V) (xs : List (Sighting τ V)) (start stop : τ) : Prop :=
  ∃ before interval, xs = before ++ interval ∧ Unbroken rule interval ∧
    (interval.head?.map Sighting.time) = some start ∧
    (interval.getLast?.map Sighting.time) = some stop

variable {rule : Rule τ V} {x : Sighting τ V}

theorem endsUnbroken_single (xs : List (Sighting τ V)) (h : rule.meets x) :
    EndsUnbroken rule (xs ++ [x]) x.time x.time := by
  refine ⟨xs, [x], rfl, ⟨?_, isChain_singleton x⟩, rfl, rfl⟩
  intro y hy
  rw [mem_singleton] at hy
  subst hy
  exact h

variable {xs : List (Sighting τ V)}

theorem EndsUnbroken.snoc {start stop : τ} (h : EndsUnbroken rule xs start stop) (hx : rule.meets x)
    (hgap : ¬ x.time - stop > rule.maxAge) : EndsUnbroken rule (xs ++ [x]) start x.time := by
  obtain ⟨before, interval, rfl, hunbroken, hhead, hlast⟩ := h
  obtain ⟨y, hy, rfl⟩ := Option.map_eq_some_iff.mp hlast
  refine ⟨before, interval ++ [x], by simp, ⟨?_, ?_⟩, ?_, by simp⟩
  · intro z hz
    rw [mem_append, mem_singleton] at hz
    obtain hz | rfl := hz
    · exact hunbroken.meets z hz
    · exact hx
  · rw [isChain_append]
    refine ⟨hunbroken.gaps, isChain_singleton x, ?_⟩
    intro a ha b hb
    rw [Option.mem_def] at ha hb
    rw [hy] at ha
    cases ha
    cases hb
    exact hgap
  · cases interval with
    | nil => cases hy
    | cons z zs => exact hhead

/-! ### What is announced -/

/-- Odd transitions are firings, even ones are resolutions. -/
def phaseOf (n : ℕ) : AlertPhase := if n % 2 = 1 then .firing else .resolved

/-- What the fold keeps. -/
structure ReplayOk (rule : Rule τ V) (xs : List (Sighting τ V)) (r : Replay τ) : Prop where
  numbers : r.announced.map Announced.transition = List.range' 1 r.announced.length
  phases : ∀ a ∈ r.announced, a.state = phaseOf a.transition
  transition : (r.status.map AlertStatus.transition).getD 0 = r.announced.length
  firing : (∃ p, r.status = some p ∧ p.state = .firing) ↔ r.announced.length % 2 = 1
  seen : ∀ p, r.status = some p → xs.getLast?.map Sighting.time = some p.updated
  pending : ∀ p, r.status = some p → p.state = .pending → EndsUnbroken rule xs p.since p.updated
  fired : ∀ a ∈ r.announced, a.state = .firing → ∃ upTo rest start, xs = upTo ++ rest ∧
    EndsUnbroken rule upTo start a.time ∧ a.time - start ≥ rule.forSeconds

omit [LinearOrder V] in
theorem observed_firing {previous : Option (AlertStatus τ)} {now maxAge : τ} :
    (observed previous now maxAge).1 = .firing ↔ ∃ p, previous = some p ∧ p.state = .firing := by
  cases previous with
  | none => simp [observed]
  | some p =>
    unfold observed
    by_cases h : p.state = .pending ∧ now - p.updated > maxAge
    · simp [h]
    · simp [h]

/-- Where the interval of an alert that meets its condition starts. -/
def StartsAt (rule : Rule τ V) (previous : Option (AlertStatus τ)) (now since : τ) : Prop :=
  since = now ∨ ∃ p, previous = some p ∧ p.state = .pending ∧ since = p.since ∧ ¬ now - p.updated > rule.maxAge

omit [LinearOrder V] in
theorem startsAt_observed (rule : Rule τ V) (previous : Option (AlertStatus τ)) (now : τ)
    (h : (observed previous now rule.maxAge).1 ≠ .firing) : StartsAt rule previous now
      (if (observed previous now rule.maxAge).1 = .pending ∨ (observed previous now rule.maxAge).1 = .firing
        then (observed previous now rule.maxAge).2 else now) := by
  by_cases hpending : (observed previous now rule.maxAge).1 = .pending
  · rw [if_pos (.inl hpending)]
    cases previous with
    | none => exact .inl rfl
    | some p =>
      unfold observed at hpending ⊢
      by_cases hgap : p.state = .pending ∧ now - p.updated > rule.maxAge
      · simp [hgap] at hpending
      · simp only [hgap, if_false] at hpending ⊢
        exact .inr ⟨p, rfl, hpending, rfl, fun hlong => hgap ⟨hpending, hlong⟩⟩
  · rw [if_neg]
    · exact .inl rfl
    · rintro (h' | h')
      · exact hpending h'
      · exact h h'

/-- Everything `next_state` can do. -/
inductive NextCases (rule : Rule τ V) (previous : Option (AlertStatus τ)) (value : Option V) (now : τ)
    (n : Next τ) : Prop
  | keeps (old : ∃ p, previous = some p ∧ p.state = .firing) (state : n.state = .firing)
      (transition : n.transition = (previous.map AlertStatus.transition).getD 0)
      (emit : n.emit = false)
  | rests (old : ¬ ∃ p, previous = some p ∧ p.state = .firing) (state : n.state = .inactive)
      (transition : n.transition = (previous.map AlertStatus.transition).getD 0)
      (emit : n.emit = false)
  | waits (old : ¬ ∃ p, previous = some p ∧ p.state = .firing) (state : n.state = .pending)
      (transition : n.transition = (previous.map AlertStatus.transition).getD 0)
      (emit : n.emit = false) (meets : rule.meets ⟨now, value⟩)
      (since : StartsAt rule previous now n.since)
  | fires (old : ¬ ∃ p, previous = some p ∧ p.state = .firing) (state : n.state = .firing)
      (transition : n.transition = (previous.map AlertStatus.transition).getD 0 + 1)
      (emit : n.emit = true) (meets : rule.meets ⟨now, value⟩)
      (since : StartsAt rule previous now n.since) (long : now - n.since ≥ rule.forSeconds)
  | resolves (old : ∃ p, previous = some p ∧ p.state = .firing) (state : n.state = .resolved)
      (transition : n.transition = (previous.map AlertStatus.transition).getD 0 + 1)
      (emit : n.emit = true)

theorem nextState_cases (rule : Rule τ V) (previous : Option (AlertStatus τ)) (value : Option V)
    (now : τ) : NextCases rule previous value now (nextState rule previous value now) := by
  have hfiring : (observed previous now rule.maxAge).1 = .firing ↔
      ∃ p, previous = some p ∧ p.state = .firing := observed_firing
  have hstarts := startsAt_observed rule previous now
  unfold nextState
  dsimp only
  cases value with
  | none =>
    dsimp only
    split
    · exact .keeps (hfiring.mp ‹_›) rfl rfl rfl
    · exact .rests (fun h => ‹¬ _› (hfiring.mpr h)) rfl rfl rfl
  | some v =>
    dsimp only
    by_cases hmet : rule.met v = true
    · have hmeets : rule.meets ⟨now, some v⟩ := ⟨v, rfl, hmet⟩
      rw [if_pos hmet]
      by_cases hold : (observed previous now rule.maxAge).1 = .firing
      · rw [if_pos hold]
        exact .keeps (hfiring.mp hold) rfl rfl rfl
      · rw [if_neg hold]
        have hnot : ¬ ∃ p, previous = some p ∧ p.state = .firing := fun h => hold (hfiring.mpr h)
        have hstart := hstarts hold
        generalize (if (observed previous now rule.maxAge).1 = .pending ∨
            (observed previous now rule.maxAge).1 = .firing
          then (observed previous now rule.maxAge).2 else now) = since at hstart ⊢
        by_cases hlong : now - since ≥ rule.forSeconds
        · rw [if_pos hlong]
          exact .fires hnot rfl rfl rfl hmeets hstart hlong
        · rw [if_neg hlong]
          exact .waits hnot rfl rfl rfl hmeets hstart
    · rw [if_neg hmet]
      split
      · exact .resolves (hfiring.mp ‹_›) rfl rfl rfl
      · exact .rests (fun h => ‹¬ _› (hfiring.mpr h)) rfl rfl rfl

/-- The interval of an alert that meets its condition, with the newest evaluation. -/
theorem ReplayOk.unbroken {r : Replay τ} (h : ReplayOk rule xs r) (hx : rule.meets x) {since : τ}
    (hs : StartsAt rule r.status x.time since) : EndsUnbroken rule (xs ++ [x]) since x.time := by
  obtain rfl | ⟨p, hp, hpending, rfl, hgap⟩ := hs
  · exact endsUnbroken_single xs hx
  · exact (h.pending p hp hpending).snoc hx hgap

theorem announced_snoc {l : List (Announced τ)} {a : Announced τ}
    (h : l.map Announced.transition = List.range' 1 l.length) (ha : a.transition = l.length + 1) :
    (l ++ [a]).map Announced.transition = List.range' 1 (l ++ [a]).length := by
  rw [map_append, h, length_append, length_singleton, range'_1_concat, map_singleton, ha, Nat.add_comm]

theorem ReplayOk.see {rule : Rule τ V} {r : Replay τ} (h : ReplayOk rule xs r) (x : Sighting τ V) :
    ReplayOk rule (xs ++ [x]) (r.see rule x) := by
  have hfired : ∀ a ∈ r.announced, a.state = .firing → ∃ upTo rest start, xs ++ [x] = upTo ++ rest ∧
      EndsUnbroken rule upTo start a.time ∧ a.time - start ≥ rule.forSeconds := by
    intro a ha hstate
    obtain ⟨upTo, rest, start, rfl, hends, hlong⟩ := h.fired a ha hstate
    exact ⟨upTo, rest ++ [x], start, by simp, hends, hlong⟩
  have hseen : ∀ p, (r.see rule x).status = some p → (xs ++ [x]).getLast?.map Sighting.time = some p.updated := by
    intro p hp
    cases hp
    simp [Next.status]
  have hcount := h.transition
  -- nothing is announced, or the next number is
  have hquiet : (nextState rule r.status x.value x.time).emit = false → (r.see rule x).announced = r.announced := by
    intro hemit
    simp [Replay.see, hemit]
  have hloud : (nextState rule r.status x.value x.time).emit = true →
      (r.see rule x).announced = r.announced ++ [⟨(nextState rule r.status x.value x.time).state,
        (nextState rule r.status x.value x.time).transition, x.time⟩] := by
    intro hemit
    simp [Replay.see, hemit]
  have hstatus : (r.see rule x).status = some ((nextState rule r.status x.value x.time).status x.time) := rfl
  cases nextState_cases rule r.status x.value x.time with
  | keeps old state transition emit =>
    have hann := hquiet emit
    refine ⟨by rw [hann]; exact h.numbers, by rw [hann]; exact h.phases, ?_, ?_, hseen, ?_,
      by rw [hann]; exact hfired⟩
    · rw [hann, hstatus, ← hcount]
      exact transition
    · rw [hann, hstatus, ← h.firing]
      exact ⟨fun _ => old, fun _ => ⟨_, rfl, state⟩⟩
    · intro p hp hpending
      cases hp
      rw [Next.status, state] at hpending
      cases hpending
  | rests old state transition emit =>
    have hann := hquiet emit
    refine ⟨by rw [hann]; exact h.numbers, by rw [hann]; exact h.phases, ?_, ?_, hseen, ?_,
      by rw [hann]; exact hfired⟩
    · rw [hann, hstatus, ← hcount]
      exact transition
    · rw [hann, hstatus, ← h.firing]
      refine ⟨?_, fun hold => absurd hold old⟩
      rintro ⟨p, hp, hfiring⟩
      cases hp
      rw [Next.status, state] at hfiring
      cases hfiring
    · intro p hp hpending
      cases hp
      rw [Next.status, state] at hpending
      cases hpending
  | waits old state transition emit meets since =>
    have hann := hquiet emit
    refine ⟨by rw [hann]; exact h.numbers, by rw [hann]; exact h.phases, ?_, ?_, hseen, ?_,
      by rw [hann]; exact hfired⟩
    · rw [hann, hstatus, ← hcount]
      exact transition
    · rw [hann, hstatus, ← h.firing]
      refine ⟨?_, fun hold => absurd hold old⟩
      rintro ⟨p, hp, hfiring⟩
      cases hp
      rw [Next.status, state] at hfiring
      cases hfiring
    · intro p hp _
      cases hp
      exact h.unbroken meets since
  | fires old state transition emit meets since long =>
    have hann := hloud emit
    have heven : ¬ r.announced.length % 2 = 1 := fun hodd => old (h.firing.mpr hodd)
    rw [hcount] at transition
    refine ⟨?_, ?_, ?_, ?_, hseen, ?_, ?_⟩
    · rw [hann]
      exact announced_snoc h.numbers transition
    · rw [hann]
      intro a ha
      rw [mem_append, mem_singleton] at ha
      obtain ha | rfl := ha
      · exact h.phases a ha
      · rw [phaseOf, transition, if_pos (by dsimp only; omega)]
        exact state
    · rw [hann, hstatus, length_append]
      exact transition
    · rw [hann, hstatus, length_append, length_singleton]
      exact ⟨fun _ => by omega, fun _ => ⟨_, rfl, state⟩⟩
    · intro p hp hpending
      cases hp
      rw [Next.status, state] at hpending
      cases hpending
    · rw [hann]
      intro a ha hfiring
      rw [mem_append, mem_singleton] at ha
      obtain ha | rfl := ha
      · exact hfired a ha hfiring
      · exact ⟨xs ++ [x], [], _, by simp, h.unbroken meets since, long⟩
  | resolves old state transition emit =>
    have hann := hloud emit
    have hodd : r.announced.length % 2 = 1 := h.firing.mp old
    rw [hcount] at transition
    refine ⟨?_, ?_, ?_, ?_, hseen, ?_, ?_⟩
    · rw [hann]
      exact announced_snoc h.numbers transition
    · rw [hann]
      intro a ha
      rw [mem_append, mem_singleton] at ha
      obtain ha | rfl := ha
      · exact h.phases a ha
      · rw [phaseOf, transition, if_neg (by dsimp only; omega)]
        exact state
    · rw [hann, hstatus, length_append]
      exact transition
    · rw [hann, hstatus, length_append, length_singleton]
      refine ⟨?_, fun hfiring => by omega⟩
      rintro ⟨p, hp, hfiring⟩
      cases hp
      rw [Next.status, state] at hfiring
      cases hfiring
    · intro p hp hpending
      cases hp
      rw [Next.status, state] at hpending
      cases hpending
    · rw [hann]
      intro a ha hfiring
      rw [mem_append, mem_singleton] at ha
      obtain ha | rfl := ha
      · exact hfired a ha hfiring
      · dsimp only at hfiring
        rw [state] at hfiring
        cases hfiring

theorem replayOk (rule : Rule τ V) (xs : List (Sighting τ V)) : ReplayOk rule xs (replay rule xs) := by
  induction xs using List.reverseRecOn with
  | nil =>
    constructor
    · rfl
    · intro a ha
      cases ha
    · rfl
    · simp [replay]
    · intro p hp
      cases hp
    · intro p hp
      cases hp
    · intro a ha
      cases ha
  | append_singleton xs x ih =>
    rw [replay_append]
    exact ih.see x

end

end SystemDesign.Metrics
