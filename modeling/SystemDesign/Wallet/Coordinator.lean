import SystemDesign.Lib.Transitions
import SystemDesign.Wallet.Shard

/-!
The coordinator: its projection (`coordinator_projection.py`) and its operations
(`coordinator.py`), with the shards and the requests in flight.

The journal is what the coordinator sees of it: a list of events of which a
prefix is committed. Every operation first syncs, which commits all of it, and
then appends at most one event; an append that fails ambiguously leaves that
event behind, to be committed by a later sync.

A participant request once sent may be executed now, later, again or never, and
its reply may be lost; the retry table only chooses which transfer is advanced
next, so any pending one may be.
-/

namespace SystemDesign.Wallet

/-! ### The projection -/

inductive Decision where
  | commit
  | cancel
deriving DecidableEq

inductive Outcome where
  | pending
  | succeeded
  | canceled
  | rejected
deriving DecidableEq

structure Command where
  intent : Intent
  decision : Option Decision
  status : Outcome

inductive Event where
  | accepted (id : String) (intent : Intent)
  | decision (id : String) (decision : Decision)
  | completed (id : String) (status : Outcome)
deriving DecidableEq

abbrev Commands := Dict String Command

def Event.id : Event → String
  | .accepted id _ => id
  | .decision id _ => id
  | .completed id _ => id

/-- A completion that contradicts the decision. -/
def contradicts (decision : Option Decision) (status : Outcome) : Bool :=
  (decision = some .commit && status ≠ .succeeded) ||
    (decision = some .cancel && status ≠ .canceled) || (decision = none && status = .canceled)

/-- One round of the loop of `project`. -/
def projectEvent (state : Commands) (event : Event) : Py Commands :=
  if isIdentifier event.id = false then .error (.valueError "identifier")
  else match event with
    | .accepted id body =>
        if body.transactionId ≠ id then .error (.valueError "accepted identity mismatch")
        else if state.contains id then .error (.valueError "duplicate accepted command in journal")
        else .ok (state.set id ⟨body, none, .pending⟩)
    | .decision id decision =>
        match state.get? id with
        | none => .error (.valueError "decision requires pending command")
        | some value =>
            if value.status ≠ .pending then .error (.valueError "decision requires pending command")
            else if value.decision ≠ none then .error (.valueError "invalid or duplicate decision")
            else .ok (state.set id { value with decision := some decision })
    | .completed id status =>
        match state.get? id with
        | none => .error (.valueError "completion without command")
        | some value =>
            if contradicts value.decision status then
              .error (.valueError "completion conflicts with durable decision")
            else if value.status ≠ .pending ∨ status = .pending then
              .error (.valueError "invalid terminal status")
            else .ok (state.set id { value with status := status })

/-- `project` on the events of the rows. -/
def project (events : List Event) (initial : Commands) : Py Commands := events.foldlM projectEvent initial

/-! ### Advancing a transfer -/

/-- What one step of a transfer does next. -/
inductive Act where
  | send (kind : Kind) (role : Role)
  | append (event : Event)
  | fail (message : String)

def hasStatus (part : Option Part) (status : Status) : Bool := part.map Part.status = some status

def isRefused (part : Option Part) : Bool := hasStatus part .rejected || hasStatus part .canceled

/-- `Coordinator.advance` on a transfer between two shards, once both participants are read. -/
def advance (id : String) (value : Command) (left right : Option Part) : Act :=
  match value.decision with
  | none =>
      if isRefused left || isRefused right then .append (.decision id .cancel)
      else if left.isNone then .send .prepare .source
      else if right.isNone then .send .prepare .destination
      else if hasStatus left .prepared && hasStatus right .prepared then
        .append (.decision id .commit)
      else .fail "participant confirmed without durable coordinator decision"
  | some .commit =>
      if hasStatus left .confirmed = false then .send .confirm .source
      else if hasStatus right .confirmed = false then .send .confirm .destination
      else .append (.completed id .succeeded)
  | some .cancel =>
      if hasStatus left .canceled = false then .send .cancel .source
      else if hasStatus right .canceled = false then .send .cancel .destination
      else .append (.completed id .canceled)

/-- The completion of a transfer within one shard. -/
def completeLocal (id : String) (part : Part) : Event :=
  .completed id (if part.status = .confirmed then .succeeded else .rejected)

/-! ### The system -/

structure Request where
  index : ℕ
  body : Intent
  kind : Kind
  role : Role

/-- How far the coordinator got with the transfer it is advancing. -/
inductive Phase where
  | idle
  | started (id : String)
  | readSource (id : String) (left : Option Part)
  | readBoth (id : String) (left right : Option Part)
  | waiting (id : String)
  | answered (id : String) (part : Part)

structure System where
  shards : ℕ → Shard
  log : List Event
  committed : ℕ
  sent : List Request
  phase : Phase

/-- `Coordinator.state`: the projection of the committed rows. -/
def System.state (w : System) : Py Commands := project (w.log.take w.committed) .empty

def System.part (w : System) (index : ℕ) (id : String) : Option Part := (w.shards index).projection.parts.get? id

def System.init (config : Config) : System := ⟨Shard.init config, [], 0, [], .idle⟩

/-- The role of the participant that is read first. -/
def Config.firstRole (config : Config) (body : Intent) : Role := if config.crossShard body then .source else .localRole

/-- The shard a role of a transfer lives on. -/
def Config.place (config : Config) (body : Intent) (role : Role) : ℕ :=
  if role = .destination then (config.indices body).2 else (config.indices body).1

/-- A committed, pending transfer; every operation syncs before it looks. -/
structure System.Sees (w : System) (commands : Commands) (id : String) (value : Command) : Prop where
  synced : w.committed = w.log.length
  state : w.state = .ok commands
  found : commands.get? id = some value
  pending : value.status = .pending

inductive Step (config : Config) : System → System → Prop
  /-- A sync that reached its quorum. -/
  | sync {w : System} : Step config w { w with committed := w.log.length }
  /-- `create`: a new transfer from an owned account. -/
  | create {w : System} {commands : Commands} {body : Intent} {owner : String} {account : Account}
      (hidle : w.phase = .idle) (hsynced : w.committed = w.log.length)
      (hstate : w.state = .ok commands)
      (hsource : config.accounts.get? body.fromAccount = some account ∧ account.owner = owner)
      (hdestination : config.accounts.contains body.toAccount = true)
      (hnew : commands.get? body.transactionId = none) (hlimit : commands.entries.length < 1000) :
      Step config w { w with log := w.log ++ [.accepted body.transactionId body] }
  /-- `cancel`, and a definitive refusal by a participant before any decision. -/
  | cancel {w : System} {commands : Commands} {id : String} {value : Command}
      (hsees : w.Sees commands id value) (hdecision : value.decision = none)
      (hcross : config.crossShard value.intent) :
      Step config w { w with log := w.log ++ [.decision id .cancel], phase := .idle }
  /-- `step` picks a pending transfer. -/
  | start {w : System} {commands : Commands} {id : String} {value : Command}
      (hidle : w.phase = .idle) (hsees : w.Sees commands id value) :
      Step config w { w with phase := .started id }
  | readSource {w : System} {commands : Commands} {id : String} {value : Command}
      {left : Option Part} (hphase : w.phase = .started id) (hsees : w.Sees commands id value)
      (hread : participant (w.part (config.indices value.intent).1 id) value.intent
        (config.firstRole value.intent) = .ok left) :
      Step config w { w with phase := .readSource id left }
  | readDestination {w : System} {commands : Commands} {id : String} {value : Command}
      {left right : Option Part} (hphase : w.phase = .readSource id left)
      (hsees : w.Sees commands id value) (hcross : config.crossShard value.intent)
      (hread : participant (w.part (config.indices value.intent).2 id) value.intent .destination = .ok right) :
      Step config w { w with phase := .readBoth id left right }
  | append {w : System} {commands : Commands} {id : String} {value : Command}
      {left right : Option Part} {event : Event} (hphase : w.phase = .readBoth id left right)
      (hsees : w.Sees commands id value) (hact : advance id value left right = .append event) :
      Step config w { w with log := w.log ++ [event], phase := .idle }
  | send {w : System} {commands : Commands} {id : String} {value : Command}
      {left right : Option Part} {kind : Kind} {role : Role}
      (hphase : w.phase = .readBoth id left right) (hsees : w.Sees commands id value)
      (hact : advance id value left right = .send kind role) :
      Step config w { w with
        sent := w.sent ++ [⟨config.place value.intent role, value.intent, kind, role⟩]
        phase := .idle }
  /-- A transfer within one shard that has no participant yet. -/
  | sendLocal {w : System} {commands : Commands} {id : String} {value : Command}
      (hphase : w.phase = .readSource id none) (hsees : w.Sees commands id value)
      (hlocal : ¬ config.crossShard value.intent) :
      Step config w { w with
        sent := w.sent ++ [⟨(config.indices value.intent).1, value.intent, .localMove, .localRole⟩]
        phase := .waiting id }
  /-- The reply to it. -/
  | answer {w : System} {commands : Commands} {id : String} {value : Command} {part : Part}
      (hphase : w.phase = .waiting id) (hsees : w.Sees commands id value)
      (hread : participant (w.part (config.indices value.intent).1 id) value.intent .localRole = .ok (some part)) :
      Step config w { w with phase := .answered id part }
  | completeLocal {w : System} {commands : Commands} {id : String} {value : Command} {part : Part}
      (hphase : w.phase = .answered id part ∨ w.phase = .readSource id (some part))
      (hsees : w.Sees commands id value) (hlocal : ¬ config.crossShard value.intent) :
      Step config w { w with log := w.log ++ [completeLocal id part], phase := .idle }
  /-- An error, a timeout or a crash ends the operation. -/
  | abort {w : System} : Step config w { w with phase := .idle }
  /-- A shard executes a request that was sent, now or again. -/
  | execute {w : System} {request : Request} {shard : Shard} {part : Part}
      (hsent : request ∈ w.sent)
      (haction : (w.shards request.index).action config.shards request.index request.body
        request.kind request.role config.epoch config.leader = .ok (shard, part)) :
      Step config w { w with shards := Function.update w.shards request.index shard }

def wallet (config : Config) : Transitions System where
  start w := w = .init config
  step := Step config

/-- Two accounts on three shards. -/
def twoAccounts : Config where
  accounts := ⟨[("alice", ⟨"ann", 500⟩), ("bob", ⟨"ben", 0⟩)], by decide⟩
  shards := 3
  epoch := 1
  leader := "coordinator"
  names k a h := by
    have hmem := Dict.mem_entries.mpr h
    simp only [List.mem_cons, Prod.mk.injEq, List.not_mem_nil, or_false] at hmem
    rcases hmem with ⟨rfl, -⟩ | ⟨rfl, -⟩ <;> decide
  openings k a h := by
    have hmem := Dict.mem_entries.mpr h
    simp only [List.mem_cons, Prod.mk.injEq, List.not_mem_nil, or_false] at hmem
    rcases hmem with ⟨-, rfl⟩ | ⟨-, rfl⟩ <;> norm_num
  shardsPos := by decide

def firstTransfer : Intent where
  transactionId := "t1"
  fromAccount := "alice"
  toAccount := "bob"
  amount := 200
  identifiers := by decide
  bounds := by decide
  distinct := by decide

theorem create_firstTransfer : Step twoAccounts (.init twoAccounts)
    { System.init twoAccounts with log := [.accepted "t1" firstTransfer] } :=
  @Step.create twoAccounts _ .empty firstTransfer "ann" ⟨"ann", 500⟩ rfl rfl rfl ⟨rfl, rfl⟩ (by decide) rfl (by decide)

end SystemDesign.Wallet
