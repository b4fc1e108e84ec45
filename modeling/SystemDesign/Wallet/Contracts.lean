import SystemDesign.Lib.HashLog

/-!
Transfers, participants and configuration (`contracts.py`, `common.py`).

A transfer intent carries the checks of `intent` as fields, so an unchecked one
cannot be built; the currency is always USD.
-/

namespace SystemDesign.Wallet

/-- `identifier`: 1..80 ASCII letters, digits, underscores or hyphens. -/
def isIdentifier (s : String) : Bool :=
  1 ≤ s.toList.length && s.toList.length ≤ 80 && s.toList.all fun c => c.isAlphanum || c = '_' || c = '-'

structure Intent where
  transactionId : String
  fromAccount : String
  toAccount : String
  amount : ℤ
  identifiers : isIdentifier transactionId = true ∧ isIdentifier fromAccount = true ∧ isIdentifier toAccount = true
  bounds : 1 ≤ amount ∧ amount ≤ 100000000
  distinct : fromAccount ≠ toAccount
deriving DecidableEq

def Intent.toJson (body : Intent) : Json :=
  .obj [("transaction_id", .str body.transactionId), ("from_account", .str body.fromAccount),
    ("to_account", .str body.toAccount), ("amount", .int body.amount), ("currency", .str "USD")]

inductive Role where
  | source
  | destination
  | localRole
deriving DecidableEq

inductive Kind where
  | localMove
  | prepare
  | confirm
  | cancel
deriving DecidableEq

inductive Status where
  | prepared
  | rejected
  | canceled
  | confirmed
deriving DecidableEq

/-- A participant of a transfer on one shard. -/
structure Part where
  intent : Intent
  role : Role
  status : Status
deriving DecidableEq

/-- `participant`: a reply counts only if it is about this transfer and role. -/
def participant (value : Option Part) (body : Intent) (role : Role) : Py (Option Part) :=
  match value with
  | none => .ok none
  | some part =>
      if part.intent ≠ body ∨ part.role ≠ role then
        .error (.valueError "participant receipt conflicts with transfer")
      else if role = .localRole ∧ part.status ≠ .confirmed ∧ part.status ≠ .rejected then
        .error (.valueError "invalid local receipt")
      else .ok (some part)

structure Account where
  owner : String
  opening : ℤ

/-- The frozen configuration: account names passed `identifier`, opening balances `integer`. -/
structure Config where
  accounts : Dict String Account
  shards : ℕ
  epoch : ℕ
  leader : String
  names : ∀ k a, accounts.get? k = some a → isIdentifier k = true
  openings : ∀ k a, accounts.get? k = some a → 0 ≤ a.opening ∧ a.opening ≤ 10 ^ 12
  shardsPos : 0 < shards

/-- `shard_for`: the digest as a number, modulo the number of shards. -/
def shardFor (account : String) (count : ℕ) : ℕ :=
  (Sha256.digest account.toUTF8.data.toList).foldl (fun n b => n * 256 + b.toNat) 0 % count

/-- The source and destination shards of a transfer. -/
def Config.indices (config : Config) (body : Intent) : ℕ × ℕ :=
  (shardFor body.fromAccount config.shards, shardFor body.toAccount config.shards)

def Config.crossShard (config : Config) (body : Intent) : Prop := (config.indices body).1 ≠ (config.indices body).2

instance (config : Config) (body : Intent) : Decidable (config.crossShard body) := inferInstanceAs (Decidable (_ ≠ _))

theorem Config.indices_lt (config : Config) (body : Intent) :
    (config.indices body).1 < config.shards ∧ (config.indices body).2 < config.shards :=
  ⟨Nat.mod_lt _ config.shardsPos, Nat.mod_lt _ config.shardsPos⟩

end SystemDesign.Wallet
