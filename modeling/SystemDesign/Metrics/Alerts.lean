import SystemDesign.Lib.Transitions
import SystemDesign.Metrics.AlertState

/-!
Alert evaluation and notification delivery (`alert_evaluation.py`, `alert_delivery.py`).

An alert, an event, a group and a notification are named in the tables by digests; here
they are named by what the digest is taken of. Evaluators read a snapshot, compute
without a lock and publish under a version check; delivery workers claim under a lease.
What the metric store holds is an argument of a snapshot, and `measure` is
`reading(combine(...))` over the points of a window, `none` where it raises. Rules do not
change. The time at which a silence ends is a time or zero.
-/

namespace SystemDesign.Metrics

structure AlertId where
  rule : String
  series : String
deriving DecidableEq

structure EventId where
  alert : AlertId
  transition : ℕ
deriving DecidableEq

structure GroupKey where
  rule : String
  destination : String
  channel : Channel
  labels : List (String × String)
deriving DecidableEq

/-- A notification is named by the events it announces. -/
abbrev DeliveryId := List EventId

inductive EventStatus where
  | pending
  | superseded
  | sent
  | dead
deriving DecidableEq

inductive DeliveryStatus where
  | pending
  | sent
  | dead
deriving DecidableEq

structure Series where
  labels : Dict String String
  kind : Kind

structure Alert (τ V : Type) where
  status : AlertStatus τ
  noData : Bool
  labels : Dict String String
  value : Option V

structure Event (τ V : Type) where
  id : EventId
  group : GroupKey
  labels : Dict String String
  state : AlertPhase
  value : Option V
  timestamp : τ
  due : τ
  batch : Option DeliveryId
  status : EventStatus

structure Delivery (τ : Type) where
  seq : ℕ
  id : DeliveryId
  group : GroupKey
  /-- The labels of the events in the payload. -/
  labels : List (Dict String String)
  due : τ
  attempts : ℕ
  lease : Option String
  leaseUntil : τ
  status : DeliveryStatus
  error : String

structure Silence (τ : Type) where
  id : String
  labels : Dict String String
  start : τ
  stop : τ

/-- The row of `evaluations`. -/
structure Accepted (τ : Type) where
  version : ℕ
  updated : τ

structure AlertTables (τ V : Type) where
  alerts : Dict AlertId (Alert τ V)
  evaluations : Dict String (Accepted τ)
  events : List (Event τ V)
  deliveries : List (Delivery τ)
  silences : List (Silence τ)

structure Update (τ V : Type) where
  series : String
  labels : Dict String String
  value : Option V
  next : Next τ

/-- Rules have distinct ids: `rules.id` is a primary key. -/
structure RuleSet (τ V : Type) where
  rules : List (Rule τ V)
  nodup : (rules.map Rule.id).Nodup

/-- An evaluation that was computed and may be published. -/
structure Computed (τ V : Type) where
  rule : Rule τ V
  now : τ
  version : ℕ
  updates : List (Update τ V)

section

variable {τ V : Type} [LinearOrder τ] [Sub τ] [Add τ] [NatCast τ] [LinearOrder V]

/-! ### Silences -/

def matchesLabels (labelset labels : Dict String String) : Bool :=
  labels.entries.all fun e => labelset.get? e.1 = some e.2

/-- The end of the last silence in force, or zero. -/
def silencedUntil (d : AlertTables τ V) (labelset : Dict String String) (now : τ) : τ :=
  ((d.silences.filter fun r => r.start ≤ now && now < r.stop && matchesLabels labelset r.labels).map
    Silence.stop).foldl max ((0 : ℕ) : τ)

/-- Silences that ended a day ago are dropped. -/
def dropSilences (d : AlertTables τ V) (now : τ) : AlertTables τ V :=
  { d with silences := d.silences.filter fun r => !(r.stop < now - ((86400 : ℕ) : τ)) }

/-! ### Evaluation -/

/-- What the metric store shows of the series that match a rule. -/
structure Reading (τ V : Type) where
  selected : Dict String Series
  points : String → List (τ × V)

/-- The series with an alert of the rule. -/
def existing (d : AlertTables τ V) (rule : String) : List String :=
  (d.alerts.keys.filter fun id => id.rule = rule).map AlertId.series

def updateLabels (labels extra : Dict String String) : Dict String String :=
  extra.entries.foldl (fun d e => d.set e.1 e.2) labels

def evaluateSeries (measure : Aggregation → Kind → List (τ × V) → Option V) (rule : Rule τ V)
    (now : τ) (r : Reading τ V) (d : AlertTables τ V) (sid : String) : Update τ V :=
  let series := r.selected.get? sid
  let previous := d.alerts.get? ⟨rule.id, sid⟩
  let labels := match series, previous with
    | some s, _ => s.labels
    | none, some p => p.labels
    | none, none => .empty
  let value := match series, (r.points sid).getLast? with
    | some s, some last =>
      if last.1 ≥ now - rule.maxAge then measure rule.aggregation s.kind (r.points sid) else none
    | _, _ => none
  ⟨sid, updateLabels labels rule.labels, value, nextState rule (previous.map Alert.status) value now⟩

/-- `_evaluation_snapshot` and `_evaluate_snapshot`, of one state of the tables. -/
def compute (measure : Aggregation → Kind → List (τ × V) → Option V) (d : AlertTables τ V)
    (rule : Rule τ V) (now : τ) (r : Reading τ V) : Py (Computed τ V) := do
  let ids := (r.selected.keys ∪ existing d rule.id).dedup.insertionSort (· ≤ ·)
  require (ids.length ≤ 1000) (.http 413 "evaluation series budget exceeded")
  require ((ids.map fun sid => (r.points sid).length).sum ≤ 20000) (.http 413 "evaluation sample budget exceeded")
  return ⟨rule, now, ((d.evaluations.get? rule.id).map Accepted.version).getD 0,
    ids.map (evaluateSeries measure rule now r d)⟩

def groupKey (rule : Rule τ V) (labelset : Dict String String) : GroupKey :=
  ⟨rule.id, rule.destination, rule.channel, rule.groupBy.map fun key => (key, (labelset.get? key).getD "")⟩

/-- `INSERT OR IGNORE INTO events` -/
def addEvent (d : AlertTables τ V) (e : Event τ V) : AlertTables τ V :=
  if d.events.any fun old => old.id = e.id then d else { d with events := d.events ++ [e] }

def applyUpdate (rule : Rule τ V) (now : τ) (d : AlertTables τ V) (u : Update τ V) :
    AlertTables τ V :=
  let id : AlertId := ⟨rule.id, u.series⟩
  let d := { d with
    alerts := d.alerts.set id ⟨u.next.status now, u.value.isNone, u.labels, u.value⟩ }
  if u.next.emit then
    addEvent d ⟨⟨id, u.next.transition⟩, groupKey rule u.labels, u.labels, u.next.state, u.value, now,
      silencedUntil d u.labels now, none, .pending⟩
  else d

/-- The row of a rule, made if it is missing. -/
def acceptedRow (d : AlertTables τ V) (beginning : τ) (rule : String) : Accepted τ :=
  (d.evaluations.get? rule).getD ⟨0, beginning⟩

/-- `_accept_evaluation`; `beginning` is the time -1 before every reading of the clock. -/
def accept (beginning : τ) (d : AlertTables τ V) (c : Computed τ V) : Option (AlertTables τ V) :=
  let row := acceptedRow d beginning c.rule.id
  if row.version = c.version ∧ row.updated ≤ c.now then
    let d := { d with evaluations := d.evaluations.set c.rule.id ⟨row.version + 1, c.now⟩ }
    some (dropSilences (c.updates.foldl (applyUpdate c.rule c.now) d) c.now)
  else none

/-! ### Delivery -/

def Event.waiting (now : τ) (e : Event τ V) : Bool := e.status = .pending && e.batch.isNone && e.due ≤ now

def setEvent (d : AlertTables τ V) (id : EventId) (f : Event τ V → Event τ V) : AlertTables τ V :=
  { d with events := d.events.map fun e => if e.id = id then f e else e }

/-- One event of `_materialize`: superseded, postponed or grouped. -/
def sortEvent (now : τ) (st : AlertTables τ V × Dict GroupKey (List (Event τ V))) (e : Event τ V) :
    AlertTables τ V × Dict GroupKey (List (Event τ V)) :=
  let d := st.1
  if (d.alerts.get? e.id.alert).map (fun a => a.status.transition) ≠ some e.id.transition then
    (setEvent d e.id fun e => { e with status := .superseded }, st.2)
  else if silencedUntil d e.labels now > now then
    (setEvent d e.id fun e' => { e' with due := silencedUntil d e.labels now }, st.2)
  else (d, st.2.set e.group ((st.2.get? e.group).getD [] ++ [e]))

def nextSeq (d : AlertTables τ V) : ℕ := d.deliveries.length + 1

def newDelivery (now : τ) (d : AlertTables τ V) (group : GroupKey) (batch : List (Event τ V)) :
    Delivery τ where
  seq := nextSeq d
  id := batch.map Event.id
  group := group
  labels := batch.map Event.labels
  due := now
  attempts := 0
  lease := none
  leaseUntil := ((0 : ℕ) : τ)
  status := .pending
  error := ""

/-- `INSERT OR IGNORE INTO deliveries` -/
def insertDelivery (d : AlertTables τ V) (n : Delivery τ) : AlertTables τ V :=
  if d.deliveries.any fun old => old.id.isPerm n.id then d
  else { d with deliveries := d.deliveries ++ [n] }

def Event.batched (id : DeliveryId) (e : Event τ V) : Event τ V := if e.id ∈ id then { e with batch := some id } else e

/-- A delivery and the mark on its events. -/
def addDelivery (now : τ) (group : GroupKey) (d : AlertTables τ V) (batch : List (Event τ V)) :
    AlertTables τ V :=
  let d := insertDelivery d (newDelivery now d group batch)
  { d with events := d.events.map (Event.batched (batch.map Event.id)) }

/-- Batches of at most 100 events. -/
def batches : ℕ → List (Event τ V) → List (List (Event τ V))
  | _, [] => []
  | 0, _ => []
  | fuel + 1, events => events.take 100 :: batches fuel (events.drop 100)

def addGroup (now : τ) (d : AlertTables τ V) (g : GroupKey × List (Event τ V)) : AlertTables τ V :=
  (batches g.2.length g.2).foldl (addDelivery now g.1) d

/-- `_materialize` over the waiting events that the query returns. -/
def materialize (now : τ) (d : AlertTables τ V) (waiting : List (Event τ V)) : AlertTables τ V :=
  let st := waiting.foldl (sortEvent now) (d, .empty)
  st.2.entries.foldl (addGroup now) st.1

/-- The first 1000 waiting events by due time; equal times are ordered by digest. -/
structure Picked (now : τ) (d : AlertTables τ V) (waiting : List (Event τ V)) : Prop where
  events : ∀ e ∈ waiting, e ∈ d.events ∧ e.waiting now = true
  nodup : (waiting.map Event.id).Nodup
  length : waiting.length = min 1000 (d.events.filter (Event.waiting now)).length
  sorted : (waiting.map Event.due).Pairwise (· ≤ ·)
  first : ∀ e ∈ d.events, e.waiting now = true → e.id ∈ waiting.map Event.id ∨ ∀ w ∈ waiting, w.due ≤ e.due

def finishEvents (id : DeliveryId) (status : EventStatus) (d : AlertTables τ V) : AlertTables τ V :=
  { d with events := d.events.map fun e => if e.batch = some id then { e with status := status } else e }

def setDelivery (d : AlertTables τ V) (p : Delivery τ → Bool) (f : Delivery τ → Delivery τ) :
    AlertTables τ V :=
  { d with deliveries := d.deliveries.map fun n => if p n then f n else n }

def Delivery.exhausted (now : τ) (n : Delivery τ) : Bool := n.status = .pending && n.attempts ≥ 5 && n.leaseUntil ≤ now

def Delivery.dies (n : Delivery τ) : Delivery τ :=
  { n with
    status := .dead
    lease := none
    leaseUntil := ((0 : ℕ) : τ)
    error := "delivery lease expired at attempt limit" }

def killDelivery (d : AlertTables τ V) (id : DeliveryId) : AlertTables τ V :=
  finishEvents id .dead (setDelivery d (fun n => n.id = id) Delivery.dies)

/-- At most 1000 deliveries whose last attempt was lost. -/
def buryExhausted (now : τ) (d : AlertTables τ V) : AlertTables τ V :=
  (((d.deliveries.filter (Delivery.exhausted now)).take 1000).map Delivery.id).foldl killDelivery d

def Delivery.claimable (now : τ) (d : AlertTables τ V) (n : Delivery τ) : Bool :=
  n.status = .pending && n.attempts < 5 && n.due ≤ now && n.leaseUntil ≤ now &&
    d.deliveries.all fun old => !(old.group = n.group && old.seq < n.seq && old.status = .pending)

/-- The rows are stored in the order of `seq`. -/
def claimDelivery (now : τ) (d : AlertTables τ V) : Option (Delivery τ) := d.deliveries.find? (Delivery.claimable now d)

def postponed (d : AlertTables τ V) (n : Delivery τ) (now : τ) : τ :=
  (n.labels.map fun labels => silencedUntil d labels now).foldl max now

def Delivery.claimedBy (now : τ) (lease : String) (n : Delivery τ) : Delivery τ :=
  { n with lease := some lease, leaseUntil := now + ((30 : ℕ) : τ), attempts := n.attempts + 1 }

/-- What the first transaction of `notify_once` leaves, with the delivery it claimed. -/
def notifyBegin (now : τ) (lease : String) (d : AlertTables τ V) (waiting : List (Event τ V)) :
    AlertTables τ V × Option (Delivery τ) :=
  let d := buryExhausted now (materialize now d waiting)
  match claimDelivery now d with
  | none => (d, none)
  | some task =>
    if postponed d task now > now then
      (setDelivery d (fun n => n.id = task.id) fun n => { n with due := postponed d task now }, none)
    else (setDelivery d (fun n => n.id = task.id) (Delivery.claimedBy now lease), some task)

def leased (id : DeliveryId) (lease : String) (n : Delivery τ) : Bool := n.id = id && n.lease = some lease

def Delivery.sentAfter (attempts : ℕ) (n : Delivery τ) : Delivery τ :=
  { n with status := .sent, attempts := attempts, lease := none, leaseUntil := ((0 : ℕ) : τ), error := "" }

def Delivery.failedAfter (attempts : ℕ) (due : τ) (error : String) (n : Delivery τ) : Delivery τ :=
  { n with
    attempts := attempts
    due := due
    lease := none
    leaseUntil := ((0 : ℕ) : τ)
    status := if attempts ≥ 5 then .dead else .pending
    error := error }

/-- The second transaction of `notify_once`; `error` is what the provider raised. -/
def notifyEnd (finished : τ) (d : AlertTables τ V) (id : DeliveryId) (lease : String) (attempts : ℕ)
    (error : Option String) : AlertTables τ V :=
  let changed := d.deliveries.any (leased id lease)
  match error with
  | none =>
    let d := setDelivery d (leased id lease) (Delivery.sentAfter attempts)
    if changed then finishEvents id .sent d else d
  | some error =>
    let due := finished + ((min 300 (2 ^ attempts) : ℕ) : τ)
    let d := setDelivery d (leased id lease) (Delivery.failedAfter attempts due error)
    if changed ∧ attempts ≥ 5 then finishEvents id .dead d else d

/-! ### The system -/

/-- An accepted evaluation, kept as history. -/
structure Evaluated (τ V : Type) where
  rule : Rule τ V
  now : τ
  values : List (String × Option V)

inductive NotifyPhase where
  | claimed
  | answered (error : Option String)
  | finished

structure Notifier where
  id : DeliveryId
  attempts : ℕ
  phase : NotifyPhase

structure AlertState (τ V : Type) where
  tables : AlertTables τ V
  /-- Evaluations that some evaluator computed; publishing one may come at any time. -/
  computed : List (Computed τ V)
  history : List (Evaluated τ V)
  notifiers : Dict String Notifier

/-- One transaction or one call of the provider. A process that crashes takes no further
step, and a raised answer may still have reached its destination. -/
inductive AlertStep (beginning : τ) (rules : RuleSet τ V)
    (measure : Aggregation → Kind → List (τ × V) → Option V) :
    AlertState τ V → AlertState τ V → Prop
  | compute {s : AlertState τ V} {rule : Rule τ V} {now : τ} {r : Reading τ V} {c : Computed τ V}
      (hrule : rule ∈ rules.rules) (h : compute measure s.tables rule now r = .ok c) :
      AlertStep beginning rules measure s { s with computed := s.computed ++ [c] }
  | accept {s : AlertState τ V} {c : Computed τ V} {d : AlertTables τ V} (hc : c ∈ s.computed)
      (h : accept beginning s.tables c = some d) :
      AlertStep beginning rules measure s { s with
        tables := d
        history := s.history ++ [Evaluated.mk c.rule c.now (c.updates.map fun u => (u.series, u.value))] }
  | silence {s : AlertState τ V} {now : τ} (row : Silence τ) :
      AlertStep beginning rules measure s { s with
        tables := { dropSilences s.tables now with
          silences := (dropSilences s.tables now).silences ++ [row] } }
  | nothing {s : AlertState τ V} {now : τ} {lease : String} {waiting : List (Event τ V)}
      {d : AlertTables τ V} (hpicked : Picked now s.tables waiting)
      (h : notifyBegin now lease s.tables waiting = (d, none)) :
      AlertStep beginning rules measure s { s with tables := d }
  /-- The lease is a new random name. -/
  | claim {s : AlertState τ V} {now : τ} {lease : String} {waiting : List (Event τ V)}
      {d : AlertTables τ V} {task : Delivery τ} (hpicked : Picked now s.tables waiting)
      (hlease : s.notifiers.get? lease = none)
      (h : notifyBegin now lease s.tables waiting = (d, some task)) :
      AlertStep beginning rules measure s { s with
        tables := d
        notifiers := s.notifiers.set lease ⟨task.id, task.attempts + 1, .claimed⟩ }
  | deliver {s : AlertState τ V} {lease : String} {id : DeliveryId} {attempts : ℕ}
      (error : Option String) (h : s.notifiers.get? lease = some ⟨id, attempts, .claimed⟩) :
      AlertStep beginning rules measure s { s with
        notifiers := s.notifiers.set lease ⟨id, attempts, .answered error⟩ }
  | finish {s : AlertState τ V} {lease : String} {id : DeliveryId} {attempts : ℕ}
      {error : Option String} (finished : τ)
      (h : s.notifiers.get? lease = some ⟨id, attempts, .answered error⟩) :
      AlertStep beginning rules measure s { s with
        tables := notifyEnd finished s.tables id lease attempts error
        notifiers := s.notifiers.set lease ⟨id, attempts, .finished⟩ }

/-- Alerting from empty tables on. -/
def alerting (beginning : τ) (rules : RuleSet τ V)
    (measure : Aggregation → Kind → List (τ × V) → Option V) : Transitions (AlertState τ V) where
  start s := s = ⟨⟨.empty, .empty, [], [], []⟩, [], [], .empty⟩
  step := AlertStep beginning rules measure

end

end SystemDesign.Metrics
