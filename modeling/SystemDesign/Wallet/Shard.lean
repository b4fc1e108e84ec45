import SystemDesign.Wallet.Contracts

/-!
A shard: the event reducer (`projection.py`) and the participant actions (`shard.py`).

`reduceAction_spec` says once what an event can do to the projection: the
participant's transition, and how much money the shard gains or loses.
-/

namespace SystemDesign.Wallet

structure Balance where
  available : ℤ
  held : ℤ
deriving DecidableEq

structure ShardState where
  accounts : Dict String Balance
  parts : Dict String Part
deriving DecidableEq

inductive ShardEvent where
  | genesis (accounts : Dict String ℤ)
  | action (kind : Kind) (role : Role) (intent : Intent)
deriving DecidableEq

def Role.text : Role → String
  | .source => "source"
  | .destination => "destination"
  | .localRole => "local"

def Kind.text : Kind → String
  | .localMove => "local"
  | .prepare => "prepare"
  | .confirm => "confirm"
  | .cancel => "cancel"

def ShardEvent.toJson : ShardEvent → Json
  | .genesis accounts => .obj [("kind", .str "genesis"),
      ("accounts", .obj (accounts.entries.map fun e => (e.1, .int e.2)))]
  | .action kind role intent => .obj [("kind", .str kind.text), ("role", .str role.text),
      ("intent", intent.toJson)]

/-! ### The reducer -/

/-- `accounts[account]` with its two balances changed. -/
def adjust (accounts : Dict String Balance) (account : String) (available held : ℤ) : Py (Dict String Balance) := do
  let balance ← accounts.getItem account
  return accounts.set account ⟨balance.available + available, balance.held + held⟩

def canPay (accounts : Dict String Balance) (account : String) (amount : ℤ) : Bool :=
  match accounts.get? account with
  | some balance => amount ≤ balance.available
  | none => false

/-- The branches of `reduce_event` on the participant's old record: new balances, new status. -/
def applyKind (accounts : Dict String Balance) (old : Option Part) (kind : Kind) (role : Role)
    (body : Intent) : Py (Dict String Balance × Status) :=
  match kind with
  | .localMove =>
      if old.isSome then .error (.valueError "duplicate local event")
      else if accounts.contains body.toAccount && canPay accounts body.fromAccount body.amount then do
        let accounts ← adjust accounts body.fromAccount (-body.amount) 0
        let accounts ← adjust accounts body.toAccount body.amount 0
        return (accounts, .confirmed)
      else .ok (accounts, .rejected)
  | .prepare =>
      if old.isSome then .error (.valueError "duplicate prepare event")
      else if role = .source then
        if canPay accounts body.fromAccount body.amount then do
          let accounts ← adjust accounts body.fromAccount (-body.amount) body.amount
          return (accounts, .prepared)
        else .ok (accounts, .rejected)
      else if accounts.contains body.toAccount then .ok (accounts, .prepared)
      else .ok (accounts, .rejected)
  | .confirm =>
      if old.map Part.status = some .prepared then do
        let accounts ← if role = .source then adjust accounts body.fromAccount 0 (-body.amount)
          else adjust accounts body.toAccount body.amount 0
        return (accounts, .confirmed)
      else .error (.valueError "confirm requires durable prepare")
  | .cancel =>
      if old.map Part.status = some .confirmed ∨ old.map Part.status = some .canceled then
        .error (.valueError "confirmed participant cannot cancel")
      else if old.map Part.status = some .prepared ∧ role = .source then do
        let accounts ← adjust accounts body.fromAccount body.amount (-body.amount)
        return (accounts, .canceled)
      else .ok (accounts, .canceled)

def isNegative (accounts : Dict String Balance) : Bool :=
  accounts.values.any fun balance => min balance.available balance.held < 0

/-- A participant of another intent or role under this id. -/
def conflicts (old : Option Part) (body : Intent) (role : Role) : Bool :=
  match old with
  | some part => part.intent ≠ body || part.role ≠ role
  | none => false

/-- `reduce_event` on an action. -/
def reduceAction (state : ShardState) (kind : Kind) (role : Role) (body : Intent) : Py ShardState :=
  if ¬ (kind = .localMove ↔ role = .localRole) then
    .error (.valueError "invalid event kind/role or missing genesis")
  else if conflicts (state.parts.get? body.transactionId) body role then
    .error (.valueError "participant identity conflict")
  else do
    let (accounts, status) ← applyKind state.accounts (state.parts.get? body.transactionId) kind role body
    if isNegative accounts then .error (.valueError "negative projection")
    else .ok ⟨accounts, state.parts.set body.transactionId ⟨body, role, status⟩⟩

/-- `reduce_event`; `none` is the empty state before genesis. -/
def reduceEvent (state : Option ShardState) (event : ShardEvent) : Py ShardState :=
  match event, state with
  | .genesis accounts, none =>
      if accounts.entries.all fun e => isIdentifier e.1 && 0 ≤ e.2 && e.2 ≤ 10 ^ 12 then
        .ok ⟨accounts.mapVal fun opening => ⟨opening, 0⟩, .empty⟩
      else .error (.valueError "integer cents/sequence outside reference limits")
  | .genesis _, some _ => .error (.valueError "duplicate genesis")
  | .action _ _ _, none => .error (.valueError "invalid event kind/role or missing genesis")
  | .action kind role intent, some state => reduceAction state kind role intent

/-! ### The shard -/

structure Shard where
  rows : List (Row ShardEvent)
  projection : ShardState
  epoch : ℕ
  leader : String

/-- `Shard.append`: the row and the projection in one transaction. -/
def Shard.append (shard : Shard) (event : ShardEvent) : Py Shard := do
  let updated ← reduceEvent (some shard.projection) event
  return { shard with
    rows := shard.rows ++ [HashLog.next ShardEvent.toJson shard.rows event]
    projection := updated }

/-- The end of `Shard.action`: the event is appended and its participant returned. -/
def Shard.perform (shard : Shard) (kind : Kind) (role : Role) (body : Intent) : Py (Shard × Part) := do
  let shard ← shard.append (.action kind role body)
  let part ← shard.projection.parts.getItem body.transactionId
  return (shard, part)

/-- A repeated action, answered with the participant as it is. -/
def isRepeated (kind : Kind) (status : Status) : Bool :=
  kind = .prepare || kind = .localMove || (kind = .confirm && status = .confirmed) ||
    (kind = .cancel && status = .canceled)

/-- An action against a participant that already ended the other way. -/
def isTerminalConflict (kind : Kind) (status : Status) : Bool :=
  (kind = .confirm && status ≠ .prepared) || (kind = .cancel && status = .confirmed)

/-- `Shard.action` on the shard at `index`; the shard afterwards and the participant returned. -/
def Shard.action (shard : Shard) (count index : ℕ) (body : Intent) (kind : Kind) (role : Role)
    (epoch : ℕ) (leader : String) : Py (Shard × Part) :=
  if ¬ (kind = .localMove ↔ role = .localRole) then
    .error (.valueError "invalid participant action")
  else if shardFor (if role = .destination then body.toAccount else body.fromAccount) count ≠ index ∨
      role = .localRole ∧ shardFor body.toAccount count ≠ index then
    .error (.http 409 "wrong shard")
  else if epoch ≠ shard.epoch ∨ leader ≠ shard.leader then
    .error (.http 409 "leader fenced; manual epoch recovery required")
  else match shard.projection.parts.get? body.transactionId with
    | some old =>
        if conflicts (some old) body role then .error (.http 409 "participant command conflict")
        else if isRepeated kind old.status then .ok (shard, old)
        else if isTerminalConflict kind old.status then
          .error (.http 409 "participant terminal conflict")
        else shard.perform kind role body
    | none =>
        if kind = .confirm then .error (.http 409 "confirm without prepare")
        else shard.perform kind role body

/-- `Shard.replay`. -/
def replay (rows : List (Row ShardEvent)) : Py (Option ShardState) := do
  let _ ← HashLog.verify ShardEvent.toJson rows
  rows.foldlM (fun state row => do
    let next ← reduceEvent state row.event
    return some next) none

/-- The opening balances of one shard. -/
def Config.opening (config : Config) (index : ℕ) : Dict String ℤ where
  entries := (config.accounts.entries.filter fun e => shardFor e.1 config.shards = index).map
    fun e => (e.1, e.2.opening)
  nodup := by
    rw [List.map_map]
    exact config.accounts.nodup.sublist (List.filter_sublist.map _)

/-- A new shard: its log holds the genesis event. -/
def Shard.init (config : Config) (index : ℕ) : Shard where
  rows := [HashLog.next ShardEvent.toJson [] (.genesis (config.opening index))]
  projection := ⟨(config.opening index).mapVal fun opening => ⟨opening, 0⟩, .empty⟩
  epoch := config.epoch
  leader := config.leader

/-! ### What an action does -/

def Balance.total (b : Balance) : ℤ := b.available + b.held

/-- The money on a shard. -/
def ShardState.total (state : ShardState) : ℤ := state.accounts.sum Balance.total

/-- The status a participant can move to. -/
inductive Moves : Kind → Option Status → Status → Prop
  | moved : Moves .localMove none .confirmed
  | refused : Moves .localMove none .rejected
  | prepared : Moves .prepare none .prepared
  | rejected : Moves .prepare none .rejected
  | confirmed : Moves .confirm (some .prepared) .confirmed
  | canceled {old : Option Status} : old ≠ some .confirmed → old ≠ some .canceled →
      Moves .cancel old .canceled

/-- What a shard gains by an action. -/
def gain : Kind → Role → ℤ → ℤ
  | .confirm, .source, amount => -amount
  | .confirm, _, amount => amount
  | _, _, _ => 0

theorem adjust_spec {accounts accounts' : Dict String Balance} {account : String}
    {available held : ℤ} (h : adjust accounts account available held = .ok accounts') :
    accounts'.sum Balance.total = accounts.sum Balance.total + (available + held) ∧ accounts'.keys = accounts.keys := by
  obtain ⟨balance, hget, h⟩ := Py.bind_eq_ok.mp h
  rw [Dict.getItem_eq_ok] at hget
  obtain rfl := Except.ok.inj h
  refine ⟨?_, Dict.set_keys_of_some hget _⟩
  rw [Dict.sum_set_of_some hget]
  simp only [Balance.total]
  ring

variable {body : Intent} {kind : Kind} {role : Role}

theorem applyKind_spec {accounts accounts' : Dict String Balance} {old : Option Part} {status : Status}
    (h : applyKind accounts old kind role body = .ok (accounts', status)) :
    Moves kind (old.map Part.status) status ∧ accounts'.keys = accounts.keys ∧
      accounts'.sum Balance.total = accounts.sum Balance.total + gain kind role body.amount := by
  cases kind with
  | localMove =>
    simp only [applyKind] at h
    split_ifs at h with hold hvalid
    · obtain rfl : old = none := by simpa using hold
      obtain ⟨middle, hfrom, h⟩ := Py.bind_eq_ok.mp h
      obtain ⟨last, hto, h⟩ := Py.bind_eq_ok.mp h
      obtain ⟨rfl, rfl⟩ := Prod.mk.inj (Except.ok.inj h)
      obtain ⟨hsum, hkeys⟩ := adjust_spec hfrom
      obtain ⟨hsum', hkeys'⟩ := adjust_spec hto
      refine ⟨.moved, hkeys'.trans hkeys, ?_⟩
      rw [hsum', hsum]
      simp only [gain]
      ring
    · obtain rfl : old = none := by simpa using hold
      obtain ⟨rfl, rfl⟩ := Prod.mk.inj (Except.ok.inj h)
      exact ⟨.refused, rfl, by simp [gain]⟩
  | prepare =>
    simp only [applyKind] at h
    split_ifs at h with hold hrole hpay hcontains
    · obtain rfl : old = none := by simpa using hold
      obtain ⟨last, hhold, h⟩ := Py.bind_eq_ok.mp h
      obtain ⟨rfl, rfl⟩ := Prod.mk.inj (Except.ok.inj h)
      obtain ⟨hsum, hkeys⟩ := adjust_spec hhold
      refine ⟨.prepared, hkeys, ?_⟩
      rw [hsum]
      simp only [gain]
      ring
    · obtain rfl : old = none := by simpa using hold
      obtain ⟨rfl, rfl⟩ := Prod.mk.inj (Except.ok.inj h)
      exact ⟨.rejected, rfl, by simp [gain]⟩
    · obtain rfl : old = none := by simpa using hold
      obtain ⟨rfl, rfl⟩ := Prod.mk.inj (Except.ok.inj h)
      exact ⟨.prepared, rfl, by simp [gain]⟩
    · obtain rfl : old = none := by simpa using hold
      obtain ⟨rfl, rfl⟩ := Prod.mk.inj (Except.ok.inj h)
      exact ⟨.rejected, rfl, by simp [gain]⟩
  | confirm =>
    simp only [applyKind] at h
    split_ifs at h with hold hrole
    · obtain ⟨last, hhold, h⟩ := Py.bind_eq_ok.mp h
      obtain ⟨rfl, rfl⟩ := Prod.mk.inj (Except.ok.inj h)
      obtain ⟨hsum, hkeys⟩ := adjust_spec hhold
      subst hrole
      refine ⟨hold ▸ .confirmed, hkeys, ?_⟩
      rw [hsum]
      simp only [gain]
      ring
    · obtain ⟨last, hhold, h⟩ := Py.bind_eq_ok.mp h
      obtain ⟨rfl, rfl⟩ := Prod.mk.inj (Except.ok.inj h)
      obtain ⟨hsum, hkeys⟩ := adjust_spec hhold
      refine ⟨hold ▸ .confirmed, hkeys, ?_⟩
      cases role with
      | source => exact absurd rfl hrole
      | destination =>
        rw [hsum]
        simp only [gain]
        ring
      | localRole =>
        rw [hsum]
        simp only [gain]
        ring
  | cancel =>
    simp only [applyKind] at h
    split_ifs at h with hold hprepared
    · obtain ⟨last, hhold, h⟩ := Py.bind_eq_ok.mp h
      obtain ⟨rfl, rfl⟩ := Prod.mk.inj (Except.ok.inj h)
      obtain ⟨hsum, hkeys⟩ := adjust_spec hhold
      refine ⟨.canceled (fun h => hold (.inl h)) fun h => hold (.inr h), hkeys, ?_⟩
      rw [hsum]
      simp only [gain]
      ring
    · obtain ⟨rfl, rfl⟩ := Prod.mk.inj (Except.ok.inj h)
      exact ⟨.canceled (fun h => hold (.inl h)) fun h => hold (.inr h), rfl, by simp [gain]⟩

/-- What an accepted action leaves behind. -/
structure ActionSpec (state state' : ShardState) (kind : Kind) (role : Role) (body : Intent)
    (status : Status) : Prop where
  moves : Moves kind ((state.parts.get? body.transactionId).map Part.status) status
  parts : state'.parts = state.parts.set body.transactionId ⟨body, role, status⟩
  same : ∀ p, state.parts.get? body.transactionId = some p → p.intent = body ∧ p.role = role
  total : state'.total = state.total + gain kind role body.amount
  keys : state'.accounts.keys = state.accounts.keys
  nonneg : ∀ b ∈ state'.accounts.values, 0 ≤ b.available ∧ 0 ≤ b.held
  isLocal : kind = .localMove ↔ role = .localRole

theorem conflicts_eq_false {old : Option Part} (h : conflicts old body role = false) {part : Part}
    (hp : old = some part) : part.intent = body ∧ part.role = role := by
  subst hp
  simpa [conflicts] using h

theorem reduceAction_spec {state state' : ShardState} (h : reduceAction state kind role body = .ok state') :
    ∃ status, ActionSpec state state' kind role body status := by
  unfold reduceAction at h
  split_ifs at h with hlocal hconflict
  obtain ⟨⟨accounts, status⟩, hkind, h⟩ := Py.bind_eq_ok.mp h
  simp only at h
  split_ifs at h with hnegative
  obtain rfl := Except.ok.inj h
  obtain ⟨hmoves, hkeys, hsum⟩ := applyKind_spec hkind
  refine ⟨status, hmoves, rfl, fun p hp => conflicts_eq_false (by simpa using hconflict) hp, hsum,
    hkeys, fun b hb => ?_, hlocal⟩
  simp only [isNegative, List.any_eq_true, decide_eq_true_eq, not_exists, not_and, not_lt, le_min_iff] at hnegative
  exact hnegative b hb

/-- What an action that returns did: nothing if it was repeated, else one event was appended. -/
structure Performed (shard shard' : Shard) (kind : Kind) (role : Role) (body : Intent)
    (status : Status) : Prop where
  spec : ActionSpec shard.projection shard'.projection kind role body status
  rows : shard'.rows = shard.rows ++ [HashLog.next ShardEvent.toJson shard.rows (.action kind role body)]
  reduced : reduceAction shard.projection kind role body = .ok shard'.projection
  fence : shard'.epoch = shard.epoch ∧ shard'.leader = shard.leader

theorem Shard.perform_spec {shard shard' : Shard} {part : Part}
    (h : shard.perform kind role body = .ok (shard', part)) :
    ∃ status, Performed shard shard' kind role body status ∧ part = ⟨body, role, status⟩ := by
  obtain ⟨next, happend, h⟩ := Py.bind_eq_ok.mp h
  obtain ⟨updated, hreduce, happend⟩ := Py.bind_eq_ok.mp happend
  obtain ⟨found, hget, h⟩ := Py.bind_eq_ok.mp h
  obtain ⟨rfl, rfl⟩ := Prod.mk.inj (Except.ok.inj h)
  obtain rfl := Except.ok.inj happend
  obtain ⟨status, hspec⟩ := reduceAction_spec hreduce
  refine ⟨status, ⟨hspec, rfl, hreduce, rfl, rfl⟩, ?_⟩
  rw [Dict.getItem_eq_ok] at hget
  simp only [hspec.parts, Dict.get?_set_self] at hget
  exact (Option.some.inj hget).symm

theorem Shard.action_spec {shard shard' : Shard} {count index : ℕ} {epoch : ℕ} {leader : String} {part : Part}
    (h : shard.action count index body kind role epoch leader = .ok (shard', part)) :
    (shard' = shard ∧ shard.projection.parts.get? body.transactionId = some part ∧
      part.intent = body ∧ part.role = role) ∨
    ∃ status, Performed shard shard' kind role body status ∧ part = ⟨body, role, status⟩ := by
  rw [Shard.action, Py.guard_eq_ok, Py.guard_eq_ok, Py.guard_eq_ok] at h
  obtain ⟨-, -, -, h⟩ := h
  split at h
  · next old hold =>
      split_ifs at h with hconflict hrepeated hterminal
      · obtain ⟨rfl, rfl⟩ := Prod.mk.inj (Except.ok.inj h)
        exact .inl ⟨rfl, hold, conflicts_eq_false (by simpa using hconflict) rfl⟩
      · exact .inr (Shard.perform_spec h)
  · split_ifs at h with hconfirm
    exact .inr (Shard.perform_spec h)

end SystemDesign.Wallet
