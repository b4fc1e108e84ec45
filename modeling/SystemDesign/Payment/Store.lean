import SystemDesign.Lib.Json
import SystemDesign.Lib.Sha256
import SystemDesign.Lib.Transaction

/-!
The tables of the payment service (`schema.py`, `store.py`) and its contracts
(`common.py`, `contracts.py`).

A table is a dictionary from its primary key to its row. A ledger transaction's id is its
kind and operation, a job's id is what it is for, and an account is the clearing
account or one of the two fields of a merchant's wallet: identifiers hold no colon, so
the texts the source builds for them are distinct. The lines of a ledger transaction
are written with it and are a field of its row.
-/

namespace SystemDesign.Payment

inductive Error where
  | valueError (message : String)
  | http (status : ℕ) (message : String)
  | integrityError
deriving DecidableEq

/-! ### Tables -/

inductive Kind where
  | payin
  | payout
  | refund
deriving DecidableEq

inductive Status where
  | created
  | pending
  | unknown
  | succeeded
  | failed
deriving DecidableEq

def Status.terminal : Status → Bool
  | .succeeded => true
  | .failed => true
  | _ => false

structure Wallet where
  available : ℤ
  held : ℤ

structure Operation where
  merchant : String
  kind : Kind
  order : Option String
  parent : Option String
  amount : ℤ
  currency : String
  destination : String
  requestKey : String
  hash : String
  status : Status
  providerId : Option String
  revision : ℤ
  checkout : Option String

inductive Account where
  | clearing
  | available (merchant : String)
  | held (merchant : String)
deriving DecidableEq

structure Line where
  account : Account
  debit : ℤ
  credit : ℤ
deriving DecidableEq

inductive PostingKind where
  | reserve
  | release
  | settle
deriving DecidableEq

structure Posting where
  operation : String
  kind : PostingKind
  providerId : Option String
  posted : Bool
  lines : List Line
deriving DecidableEq

inductive JobId where
  | execute (operation : String)
  | notify (operation : String)
  | reconcile (run : String)
deriving DecidableEq

inductive JobStatus where
  | pending
  | inflight
  | done
  | dead
deriving DecidableEq

structure Job (τ : Type) where
  status : JobStatus
  attempts : ℕ
  failures : ℕ
  due : τ
  lease : Option τ
  token : String
  error : String

structure Review where
  operation : String
  reason : String
  detail : Json

/-- What `apply` answers, and what the inbox keeps for repeated events. -/
structure Result where
  applied : Bool
  duplicate : Bool
  review : Option String
  ignored : Option String

inductive Reconciliation where
  | pending
  | failed (error : String)

structure Store (τ : Type) where
  wallets : Dict String Wallet
  operations : Dict String Operation
  ledger : Dict (PostingKind × String) Posting
  versions : Dict (String × ℤ) String
  inbox : Dict String (String × Result)
  reviews : Dict String Review
  jobs : Dict JobId (Job τ)
  reconciliations : Dict String Reconciliation

/-- The clock's sums, and the check that a checkout is a local simulated URL. -/
structure Settings (τ : Type) where
  plus : τ → ℚ → τ
  isCheckout : String → Bool

/-- `Store.__init__` on an empty database. -/
def Store.init {τ : Type} (merchants : List String) : Store τ where
  wallets := merchants.foldl (fun wallets merchant => wallets.set merchant ⟨0, 0⟩) .empty
  operations := .empty
  ledger := .empty
  versions := .empty
  inbox := .empty
  reviews := .empty
  jobs := .empty
  reconciliations := .empty

/-! ### Contracts -/

def digest (value : Json) : String := Sha256.hexdigest value.encode

def isIdentifier (value : String) : Bool :=
  1 ≤ value.length && value.length ≤ 80 && value.toList.all fun c => c.isAlphanum || c = '_' || c = '-'

def identifier (value : String) : Except Error Unit :=
  require (isIdentifier value = true) (.valueError "invalid identifier")

def integer (value : ℤ) (name : String) (low high : ℤ) : Except Error Unit :=
  require (low ≤ value ∧ value ≤ high) (.valueError ("invalid " ++ name))

def money (value : ℤ) : Except Error Unit := integer value "amount (integer USD cents)" 1 100000000

def optional (check : String → Except Error Unit) : Option String → Except Error Unit
  | some value => check value
  | none => .ok ()

def Kind.text : Kind → String
  | .payin => "payin"
  | .payout => "payout"
  | .refund => "refund"

inductive ReceiptStatus where
  | pending
  | succeeded
  | failed
deriving DecidableEq

def ReceiptStatus.text : ReceiptStatus → String
  | .pending => "PENDING"
  | .succeeded => "SUCCEEDED"
  | .failed => "FAILED"

/-- The status an operation takes from a receipt. -/
def ReceiptStatus.status : ReceiptStatus → Status
  | .pending => .pending
  | .succeeded => .succeeded
  | .failed => .failed

structure Receipt where
  id : String
  merchant : String
  kind : Kind
  parent : Option String
  amount : ℤ
  currency : String
  providerId : String
  status : ReceiptStatus
  revision : ℤ
  checkout : Option String
deriving DecidableEq

def optionalText : Option String → Json
  | some text => .str text
  | none => .null

def Receipt.toJson (r : Receipt) : Json :=
  .obj [("id", .str r.id), ("merchant", .str r.merchant), ("kind", .str r.kind.text),
    ("parent", optionalText r.parent), ("amount", .int r.amount), ("currency", .str r.currency),
    ("provider_id", .str r.providerId), ("status", .str r.status.text),
    ("revision", .int r.revision), ("checkout", optionalText r.checkout)]

/-- `receipt_copy`, whose checks `apply` then makes again. -/
def receiptCopy {τ : Type} (e : Settings τ) (r : Receipt) : Except Error Unit := do
  identifier r.id
  identifier r.merchant
  identifier r.providerId
  money r.amount
  integer r.revision "provider revision" 1 (2 ^ 53)
  require (r.currency = "USD") (.valueError "invalid provider state")
  optional identifier r.parent
  require (r.kind = .refund ↔ r.parent.isSome = true) (.valueError "only refunds can reference a parent")
  require (r.checkout.all fun url => r.kind = .payin && e.isCheckout url)
    (.valueError "only local simulated checkout URLs accepted")

/-! ### Requests -/

/-- The body of `create`, by kind. -/
inductive Request where
  | payin (requestKey : String) (amount : ℤ) (currency orderId : String)
  | payout (requestKey : String) (amount : ℤ) (currency destination : String)
  | refund (requestKey : String) (amount : ℤ) (currency paymentId : String)

namespace Request

def kind : Request → Kind
  | .payin .. => .payin
  | .payout .. => .payout
  | .refund .. => .refund

def requestKey : Request → String
  | .payin key .. => key
  | .payout key .. => key
  | .refund key .. => key

def amount : Request → ℤ
  | .payin _ amount .. => amount
  | .payout _ amount .. => amount
  | .refund _ amount .. => amount

def currency : Request → String
  | .payin _ _ currency _ => currency
  | .payout _ _ currency _ => currency
  | .refund _ _ currency _ => currency

def order : Request → Option String
  | .payin _ _ _ order => some order
  | _ => none

def parent : Request → Option String
  | .refund _ _ _ payment => some payment
  | _ => none

def destination : Request → String
  | .payin .. => "hosted"
  | .payout _ _ _ destination => destination
  | .refund .. => "test-refund"

def toJson (body : Request) : Json :=
  .obj ([("request_key", .str body.requestKey), ("amount", .int body.amount),
    ("currency", .str body.currency)] ++ match body with
    | .payin _ _ _ order => [("order_id", .str order)]
    | .payout _ _ _ destination => [("destination", .str destination)]
    | .refund _ _ _ payment => [("payment_id", .str payment)])

/-- `digest([kind, body])`. -/
def fingerprint (body : Request) : String := digest (.arr [.str body.kind.text, body.toJson])

/-- The checks of `create` before its transaction. -/
def check (merchant : String) (body : Request) : Except Error Unit := do
  identifier merchant
  identifier body.requestKey
  money body.amount
  require (body.currency = "USD") (.valueError "only USD integer cents supported")
  optional identifier body.order
  optional identifier body.parent
  require (body.kind = .payout → body.destination = "test-bank-ok" ∨ body.destination = "test-bank-decline")
    (.valueError "only simulated destination token references supported")

end Request

end SystemDesign.Payment
