import SystemDesign.Lib.Py
import SystemDesign.Lib.Transitions

/-!
Consumer groups (`coordinator_groups.py`): membership, generations, assignments and
cursors, over the metadata tables.

The rows that share a topic and a group name are kept together. Every operation
is one transaction, so a call that raises leaves no trace, its expiry included;
only a group fetch has two, with the partition's lock held over both. Times are
values of a linear order and `deadline now` is the sum `now + lease_seconds` as
the coordinator computes it.
-/

namespace SystemDesign.SortedMap

variable {κ ν : Type} [LinearOrder κ]

/-- The entries whose value passes a test. -/
def filter (p : ν → Bool) (m : SortedMap κ ν) : SortedMap κ ν :=
  ⟨m.entries.filter fun e => p e.2, m.sorted.sublist (List.filter_sublist.map _)⟩

end SystemDesign.SortedMap

namespace SystemDesign.MessageQueue

/-! ### Validation (`common.py`) -/

/-- `name`: 1..100 ASCII letters, digits, underscores or hyphens. -/
def isName (s : String) : Bool :=
  1 ≤ s.toList.length && s.toList.length ≤ 100 && s.toList.all fun c => c.isAlphanum || c = '_' || c = '-'

def name (s : String) : Py Unit := if isName s then .ok () else .error (.valueError "invalid identifier")

def maxInteger : ℤ := 2 ^ 53 - 1

def integer (value : ℤ) (minimum : ℤ) (maximum : ℤ) : Py Unit :=
  if minimum ≤ value ∧ value ≤ maximum then .ok () else .error (.valueError "invalid integer")

/-- A check that an absent argument passes. -/
def optional (value : Option ℤ) (minimum maximum : ℤ) : Py Unit :=
  match value with
  | none => .ok ()
  | some value => integer value minimum maximum

/-! ### The tables -/

structure Member (τ : Type) where
  session : String
  expires : τ

/-- The rows of one group; a missing cursor reads as 0. -/
structure Group (τ : Type) where
  generation : ℕ
  members : SortedMap String (Member τ)
  cursors : ℕ → ℤ
  /-- The generation and the next offset of what was delivered. -/
  delivered : ℕ → Option (ℕ × ℤ)

/-- A group without members, as first inserted. -/
def Group.fresh (τ : Type) : Group τ := ⟨0, .empty, fun _ => 0, fun _ => none⟩

/-- The committed range of a partition. -/
structure Range where
  hwm : ℤ
  floor : ℤ

structure Topic (τ : Type) where
  partitions : ℕ
  ranges : ℕ → Range
  groups : String → Option (Group τ)

/-- The metadata by topic name. -/
abbrev Topics (τ : Type) := String → Option (Topic τ)

namespace Topics

variable {τ : Type}

def group (ts : Topics τ) (topic group : String) : Option (Group τ) := (ts topic).bind fun t => t.groups group

/-- The rows of one group replaced. -/
def setGroup (ts : Topics τ) (topic group : String) (g : Group τ) : Topics τ :=
  Function.update ts topic ((ts topic).map fun t => { t with groups := Function.update t.groups group (some g) })

/-- `Coordinator.topic`. -/
def topic (ts : Topics τ) (topic : String) : Py (Topic τ) := do
  name topic
  match ts topic with
  | some t => .ok t
  | none => .error (.http 404 "topic not found")

/-- `Coordinator.part`. -/
def part (ts : Topics τ) (topic : String) (partition : ℕ) : Py Range := do
  let t ← ts.topic topic
  integer partition 0 63
  if partition < t.partitions then .ok (t.ranges partition)
  else .error (.http 404 "partition not found")

end Topics

/-! ### Membership -/

section
variable {τ : Type} [LinearOrder τ]

/-- `_expire`. -/
def Group.expire (now : τ) (g : Group τ) : Group τ :=
  let live := g.members.filter fun m => now < m.expires
  if live.entries.length = g.members.entries.length then g
  else { g with
    generation := g.generation + 1
    members := live
    delivered := fun _ => none }

/-- The partitions of a member: sorted members, round robin. -/
def Group.assigned (g : Group τ) (partitions : ℕ) (member : String) : List ℕ :=
  (List.range partitions).filter fun p => g.members.keys[p % g.members.keys.length]? = some member

structure Assignment where
  generation : ℕ
  assignments : List ℕ
  session : String
  member : String

/-- `_membership`; the metadata with the expiry applied, and the assignment. -/
def membership (now : τ) (ts : Topics τ) (topic group member session : String)
    (generation partition : Option ℕ) : Py (Topics τ × Assignment) := do
  name topic
  name group
  name member
  name session
  optional (generation.map fun n : ℕ => (n : ℤ)) 0 maxInteger
  optional (partition.map fun n : ℕ => (n : ℤ)) 0 63
  match (ts.group topic group).map (Group.expire now) with
  | none => .error (.http 409 "consumer session expired or replaced")
  | some g =>
      if (g.members.get? member).map Member.session ≠ some session then
        .error (.http 409 "consumer session expired or replaced")
      else if generation.getD g.generation ≠ g.generation then
        .error (.http 409 "consumer generation fenced; refresh assignments")
      else do
        let t ← ts.topic topic
        let assigned := g.assigned t.partitions member
        if partition.all (fun p => p ∈ assigned) = false then
          .error (.http 409 "consumer no longer owns partition")
        else .ok (ts.setGroup topic group g, ⟨g.generation, assigned, session, member⟩)

/-! ### Operations on the members -/

/-- A change of the members: a new generation without delivery bounds. -/
def Group.regenerate (g : Group τ) (members : SortedMap String (Member τ)) : Group τ :=
  { g with generation := g.generation + 1, members := members, delivered := fun _ => none }

/-- `join`, with a new session; the clock is read three times. -/
def join (deadline : τ → τ) (now now' now'' : τ) (ts : Topics τ)
    (topic group member session : String) : Py (Topics τ × Assignment) := do
  name group
  name member
  let _ ← ts.topic topic
  let g := ((ts.group topic group).getD (.fresh τ)).expire now
  let g := g.regenerate (g.members.insert member ⟨session, deadline now'⟩)
  membership now'' (ts.setGroup topic group g) topic group member session none none

def heartbeat (deadline : τ → τ) (now now' : τ) (ts : Topics τ)
    (topic group member session : String) : Py (Topics τ × Assignment) := do
  let (ts, result) ← membership now ts topic group member session none none
  let g := (ts.group topic group).getD (.fresh τ)
  return (ts.setGroup topic group { g with members := g.members.insert member ⟨session, deadline now'⟩ }, result)

def leave (now : τ) (ts : Topics τ) (topic group member session : String) : Py (Topics τ × ℕ) := do
  let (ts, _) ← membership now ts topic group member session none none
  let g := (ts.group topic group).getD (.fresh τ)
  let g := g.regenerate (g.members.erase member)
  return (ts.setGroup topic group g, g.generation)

/-- `create`, as far as groups see it. -/
def create (ts : Topics τ) (topic : String) (partitions : ℕ) : Py (Topics τ) := do
  name topic
  integer partitions 1 64
  if (ts topic).isSome then .error (.http 409 "topic already exists")
  else .ok (Function.update ts topic (some ⟨partitions, fun _ => ⟨-1, 0⟩, fun _ => none⟩))

def expand (ts : Topics τ) (topic : String) (partitions : ℕ) : Py (Topics τ) := do
  integer partitions 1 64
  let t ← ts.topic topic
  if partitions ≤ t.partitions then
    .error (.http 409 "partition expansion must increase the count")
  else .ok (Function.update ts topic (some
    { partitions := partitions
      ranges := fun p => if p < t.partitions then t.ranges p else ⟨-1, 0⟩
      groups := fun group => (t.groups group).map fun g => g.regenerate g.members }))

/-! ### Cursors -/

/-- A record as `_fetch` looks at it. -/
structure Envelope (τ : Type) where
  notBefore : τ
  tags : List String

structure Page (τ : Type) where
  records : List (Envelope τ)
  next : ℤ

/-- The loop of `_fetch`: records up to the first that is not due. -/
def scan (now : τ) (filters : Option (List String)) : ℤ → List (Envelope τ) → Page τ
  | next, [] => ⟨[], next⟩
  | next, value :: values =>
      if now < value.notBefore then ⟨[], next⟩
      else
        let page := scan now filters (next + 1) values
        if filters.all (fun tags => tags.any fun tag => tag ∈ value.tags) then
          ⟨value :: page.records, page.next⟩
        else page

/-- `_fetch` on a partition's range; `read count` is the verified page of a replica. -/
def fetch (now : τ) (range : Range) (read : ℤ → Py (List (Envelope τ))) (offset limit : ℤ)
    (filters : Option (List String)) : Py (Page τ) := do
  integer offset 0 maxInteger
  integer limit 1 1000
  if offset < range.floor then .error (.http 410 "offset expired; explicitly reset to earliest")
  else if range.hwm + 1 < offset then .error (.http 416 "offset beyond committed high water")
  else if offset = range.hwm + 1 then .ok ⟨[], offset⟩
  else do
    let count := min limit (range.hwm - offset + 1)
    let values ← read count
    if values = [] ∨ count < values.length then
      .error (.http 503 "replica omitted committed records")
    else .ok (scan now filters offset values)

/-- The first transaction of a group fetch: the offset to read from. -/
def fetchBegin (now : τ) (ts : Topics τ) (topic group member session : String)
    (generation partition : ℕ) : Py (Topics τ × ℤ) := do
  integer generation 0 maxInteger
  let (ts, _) ← membership now ts topic group member session (some generation) (some partition)
  return (ts, (((ts.group topic group).getD (.fresh τ)).cursors partition))

/-- The second one: the delivery bound, and the cursor if a record is delivered at most once. -/
def fetchEnd (now : τ) (ts : Topics τ) (topic group member session : String)
    (generation partition : ℕ) (atMostOnce : Bool) (next : ℤ) : Py (Topics τ) := do
  let (ts, _) ← membership now ts topic group member session (some generation) (some partition)
  let g := (ts.group topic group).getD (.fresh τ)
  let old := match g.delivered partition with
    | some (generation', next') => if generation' = generation then next' else 0
    | none => 0
  return ts.setGroup topic group { g with
    delivered := Function.update g.delivered partition (some (generation, max next old))
    cursors := if atMostOnce then Function.update g.cursors partition next else g.cursors }

/-- `_validate_commit`. -/
def validateCommit (now : τ) (ts : Topics τ) (topic group member session : String)
    (generation partition : ℕ) (next : ℤ) (expected : Option ℤ) : Py (Topics τ) := do
  integer next 0 maxInteger
  integer generation 0 maxInteger
  optional expected 0 maxInteger
  let (ts, _) ← membership now ts topic group member session (some generation) (some partition)
  let g := (ts.group topic group).getD (.fresh τ)
  let current := g.cursors partition
  match g.delivered partition with
  | none => .error (.http 409 "commit exceeds delivery bound or input cursor changed")
  | some (generation', bound) =>
      if generation' ≠ generation ∨ next < current ∨ bound < next ∨ expected.getD current ≠ current
      then .error (.http 409 "commit exceeds delivery bound or input cursor changed")
      else .ok ts

def Group.setCursor (g : Group τ) (partition : ℕ) (next : ℤ) : Group τ :=
  { g with cursors := Function.update g.cursors partition next }

/-- `_commit`, and with an expected offset the cursor of `_process`. -/
def commit (now : τ) (ts : Topics τ) (topic group member session : String)
    (generation partition : ℕ) (next : ℤ) (expected : Option ℤ) : Py (Topics τ) := do
  let ts ← validateCommit now ts topic group member session generation partition next expected
  let g := (ts.group topic group).getD (.fresh τ)
  return ts.setGroup topic group (g.setCursor partition next)

inductive ResetTo where
  | earliest
  | latest
  | offset (value : ℤ)

def ResetTo.target (range : Range) : ResetTo → Py ℤ
  | .earliest => .ok range.floor
  | .latest => .ok (range.hwm + 1)
  | .offset value => do
      integer value 0 maxInteger
      return value

/-- `_reset`; the metadata and the new offset. -/
def reset (now : τ) (ts : Topics τ) (topic group member session : String)
    (generation partition : ℕ) (offset : ResetTo) : Py (Topics τ × ℤ) := do
  integer generation 0 maxInteger
  let (ts, _) ← membership now ts topic group member session (some generation) (some partition)
  let range ← ts.part topic partition
  let target ← offset.target range
  if target < range.floor ∨ range.hwm + 1 < target then
    .error (.http 416 "reset offset outside retained range")
  else
    let g := (ts.group topic group).getD (.fresh τ)
    .ok (ts.setGroup topic group { g.setCursor partition target with
      delivered := Function.update g.delivered partition none }, target)

/-! ### The system -/

/-- What an accepted request of a member did. -/
inductive Effect where
  | fetched (next : ℤ)
  | committed (next : ℤ)
  | reset (next : ℤ)

/-- An accepted request, kept as history. -/
structure Accepted where
  topic : String
  group : String
  generation : ℕ
  partition : ℕ
  member : String
  session : String
  effect : Effect

/-- A group fetch between its two transactions; it holds its partition's lock. -/
structure Fetch where
  group : String
  member : String
  session : String
  generation : ℕ
  offset : ℤ

structure State (τ : Type) where
  topics : Topics τ
  now : τ
  fetching : String → ℕ → Option Fetch
  history : List Accepted

def State.setFetching (s : State τ) (topic : String) (partition : ℕ) (f : Option Fetch) : State τ :=
  { s with
    fetching := Function.update s.fetching topic (Function.update (s.fetching topic) partition f) }

/-- The range of one partition replaced. -/
def Topics.setRange (ts : Topics τ) (topic : String) (partition : ℕ) (r : Range) : Topics τ :=
  Function.update ts topic ((ts topic).map fun t => { t with ranges := Function.update t.ranges partition r })

/-- One transaction; the clock has moved on to the last reading. -/
inductive Step (deadline : τ → τ) : State τ → State τ → Prop
  | tick {s : State τ} {now : τ} (hnow : s.now ≤ now) : Step deadline s { s with now := now }
  | create {s : State τ} {topic : String} {partitions : ℕ} {ts : Topics τ}
      (h : create s.topics topic partitions = .ok ts) : Step deadline s { s with topics := ts }
  | expand {s : State τ} {topic : String} {partitions : ℕ} {ts : Topics τ}
      (h : expand s.topics topic partitions = .ok ts) : Step deadline s { s with topics := ts }
  /-- The session is a new random name. -/
  | join {s : State τ} {topic group member session : String} {n₁ n₂ n₃ : τ} {ts : Topics τ}
      {result : Assignment} (hclock : s.now ≤ n₁ ∧ n₁ ≤ n₂ ∧ n₂ ≤ n₃)
      (hsession : isName session = true)
      (h : join deadline n₁ n₂ n₃ s.topics topic group member session = .ok (ts, result)) :
      Step deadline s { s with topics := ts, now := n₃ }
  | heartbeat {s : State τ} {topic group member session : String} {n₁ n₂ : τ} {ts : Topics τ}
      {result : Assignment} (hclock : s.now ≤ n₁ ∧ n₁ ≤ n₂)
      (h : heartbeat deadline n₁ n₂ s.topics topic group member session = .ok (ts, result)) :
      Step deadline s { s with topics := ts, now := n₂ }
  | leave {s : State τ} {topic group member session : String} {now : τ} {ts : Topics τ}
      {generation : ℕ} (hclock : s.now ≤ now)
      (h : leave now s.topics topic group member session = .ok (ts, generation)) :
      Step deadline s { s with topics := ts, now := now }
  | fetchBegin {s : State τ} {topic group member session : String} {generation partition : ℕ}
      {now : τ} {ts : Topics τ} {offset : ℤ} (hclock : s.now ≤ now)
      (hfree : s.fetching topic partition = none)
      (h : fetchBegin now s.topics topic group member session generation partition = .ok (ts, offset)) :
      Step deadline s ({ s with topics := ts, now := now }.setFetching topic partition
        (some ⟨group, member, session, generation, offset⟩))
  | fetchEnd {s : State τ} {topic : String} {partition : ℕ} {f : Fetch} {n₁ n₂ : τ} {range : Range}
      {read : ℤ → Py (List (Envelope τ))} {limit : ℤ} {filters : Option (List String)}
      {page : Page τ} {atMostOnce : Bool} {ts : Topics τ} (hclock : s.now ≤ n₁ ∧ n₁ ≤ n₂)
      (hfetching : s.fetching topic partition = some f)
      (hrange : s.topics.part topic partition = .ok range)
      (hpage : fetch n₁ range read f.offset limit filters = .ok page)
      (h : fetchEnd n₂ s.topics topic f.group f.member f.session f.generation partition atMostOnce page.next = .ok ts) :
      Step deadline s ({ s with
        topics := ts
        now := n₂
        history := ⟨topic, f.group, f.generation, partition, f.member, f.session,
          .fetched page.next⟩ :: s.history }.setFetching topic partition none)
  /-- A fetch that failed. -/
  | fetchFail {s : State τ} {topic : String} {partition : ℕ} :
      Step deadline s (s.setFetching topic partition none)
  | commit {s : State τ} {topic group member session : String} {generation partition : ℕ}
      {next : ℤ} {expected : Option ℤ} {now : τ} {ts : Topics τ} (hclock : s.now ≤ now)
      (hfree : s.fetching topic partition = none)
      (h : commit now s.topics topic group member session generation partition next expected = .ok ts) :
      Step deadline s { s with
        topics := ts
        now := now
        history := ⟨topic, group, generation, partition, member, session, .committed next⟩ :: s.history }
  | reset {s : State τ} {topic group member session : String} {generation partition : ℕ}
      {offset : ResetTo} {target : ℤ} {now : τ} {ts : Topics τ} (hclock : s.now ≤ now)
      (hfree : s.fetching topic partition = none)
      (h : reset now s.topics topic group member session generation partition offset = .ok (ts, target)) :
      Step deadline s { s with
        topics := ts
        now := now
        history := ⟨topic, group, generation, partition, member, session, .reset target⟩ :: s.history }
  /-- A batch is published: the high water moves up. -/
  | publish {s : State τ} {topic : String} {partition : ℕ} {range : Range} {hwm : ℤ}
      (hrange : s.topics.part topic partition = .ok range) (hhwm : range.hwm ≤ hwm) :
      Step deadline s { s with topics := s.topics.setRange topic partition { range with hwm := hwm } }
  /-- Records are retired: the floor moves up. -/
  | retain {s : State τ} {topic : String} {partition : ℕ} {range : Range} {floor : ℤ}
      (hrange : s.topics.part topic partition = .ok range)
      (hfloor : range.floor ≤ floor ∧ floor ≤ range.hwm + 1) :
      Step deadline s { s with
        topics := s.topics.setRange topic partition { range with floor := floor } }
  /-- The coordinator stops and starts again. -/
  | restart {s : State τ} : Step deadline s { s with fetching := fun _ _ => none }

/-- Consumer groups from empty tables on. -/
def groups (deadline : τ → τ) : Transitions (State τ) where
  start s := (∀ topic, s.topics topic = none) ∧ (∀ topic p, s.fetching topic p = none) ∧ s.history = []
  step := Step deadline

end

end SystemDesign.MessageQueue
