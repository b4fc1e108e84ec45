import SystemDesign.Payment.Store

/-!
The operations of the payment service: the ledger (`ledger.py`), creating operations and
applying provider receipts (`operations.py`) and the job queue (`jobs.py`).
-/

namespace SystemDesign.Payment

variable {τ : Type} (e : Settings τ)

/-! ### The ledger -/

/-- `operation`: the row, if it belongs to the merchant. -/
def findOperation (s : Store τ) (op : String) (merchant : Option String) :
    Except Error Operation :=
  match s.operations.get? op with
  | some row =>
    if merchant = none ∨ merchant = some row.merchant then .ok row
    else .error (.http 404 "operation missing")
  | none => .error (.http 404 "operation missing")

/-- The accounts a posting debits and credits. -/
def PostingKind.accounts (kind : PostingKind) (source : Operation) : Account × Account :=
  match kind with
  | .reserve => (.available source.merchant, .held source.merchant)
  | .release => (.held source.merchant, .available source.merchant)
  | .settle =>
    if source.kind = .payin then (.clearing, .available source.merchant)
    else (.held source.merchant, .clearing)

/-- The conditional `UPDATE` of a wallet field; the clearing account has no wallet. -/
def moveFunds (wallets : Dict String Wallet) (account : Account) (delta : ℤ) : Except Error (Dict String Wallet) :=
  let insufficient : Error := .http 409 "insufficient available/held merchant funds"
  match account with
  | .clearing => .ok wallets
  | .available merchant =>
    match wallets.get? merchant with
    | some w =>
      if 0 ≤ w.available + delta then
        .ok (wallets.set merchant { w with available := w.available + delta })
      else .error insufficient
    | none => .error insufficient
  | .held merchant =>
    match wallets.get? merchant with
    | some w =>
      if 0 ≤ w.held + delta then .ok (wallets.set merchant { w with held := w.held + delta })
      else .error insufficient
    | none => .error insufficient

def post (s : Store τ) (op : String) (kind : PostingKind) (debit credit : Account) (amount : ℤ)
    (provider : Option String) : Except Error (Store τ) := do
  money amount
  let source ← findOperation s op none
  require ((debit, credit) = kind.accounts source ∧ amount = source.amount ∧ (source.kind = .payin → kind = .settle))
    (.http 409 "ledger posting does not match operation")
  let lines : List Line := [⟨debit, amount, 0⟩, ⟨credit, 0, amount⟩]
  match s.ledger.get? (kind, op) with
  | some old => do
    require (old = ⟨op, kind, provider, true, lines⟩) (.http 409 "ledger identity reused for a different posting")
    return s
  | none => do
    let wallets ← moveFunds s.wallets debit (-amount)
    let wallets ← moveFunds wallets credit amount
    return { s with
      wallets := wallets
      ledger := s.ledger.set (kind, op) ⟨op, kind, provider, true, lines⟩ }

/-- `sum(l.credit-l.debit)` of an account over the posted transactions. -/
def total (s : Store τ) (account : Account) : ℤ :=
  s.ledger.sum fun p => if p.posted then
    (p.lines.map fun l => if l.account = account then l.credit - l.debit else 0).sum else 0

/-- `sum(l.debit-l.credit)` over the posted transactions. -/
def imbalance (s : Store τ) : ℤ :=
  s.ledger.sum fun p => if p.posted then (p.lines.map fun l => l.debit - l.credit).sum else 0

inductive AuditError where
  | walletMismatch (merchant field : String)
  | unbalancedOrUnposted
  | assetLiabilityMismatch

structure AuditReport where
  cash : ℤ
  merchantLiability : ℤ
  errors : List AuditError

def AuditReport.isMatch (report : AuditReport) : Bool := report.errors.isEmpty

/-- `LedgerMixin.audit`. -/
def audit (s : Store τ) : AuditReport :=
  let fields := s.wallets.entries.flatMap fun entry =>
    (if entry.2.available ≠ total s (.available entry.1) then
      [AuditError.walletMismatch entry.1 "available"] else []) ++
    (if entry.2.held ≠ total s (.held entry.1) then
      [AuditError.walletMismatch entry.1 "held"] else [])
  let balance := if imbalance s ≠ 0 ∨ (s.ledger.values.filter fun p => !p.posted) ≠ [] then
    [AuditError.unbalancedOrUnposted] else []
  let cash := -total s .clearing
  let liability := s.wallets.sum fun w => w.available + w.held
  let assets := if cash ≠ liability then [AuditError.assetLiabilityMismatch] else []
  ⟨cash, liability, fields ++ balance ++ assets⟩

/-! ### The job queue -/

/-- `enqueue`: `INSERT OR IGNORE`. -/
def enqueue (s : Store τ) (id : JobId) (now : τ) : Store τ :=
  match s.jobs.get? id with
  | some _ => s
  | none => { s with jobs := s.jobs.set id ⟨.pending, 0, 0, now, none, "", ""⟩ }

/-- `review`: the case is opened once. -/
def review (s : Store τ) (op reason : String) (detail : Json) : Store τ × String :=
  let id := digest (.arr [.str op, .str reason, detail])
  match s.reviews.get? id with
  | some _ => (s, id)
  | none => ({ s with reviews := s.reviews.set id ⟨op, reason, detail⟩ }, id)

def JobId.text : JobId → String
  | .execute op => "execute:" ++ op
  | .notify op => "notify:" ++ op
  | .reconcile run => "reconcile:" ++ run

/-- `payload.get("operation", row["id"])`. -/
def JobId.subject : JobId → String
  | .execute op => op
  | .notify op => op
  | .reconcile run => "reconcile:" ++ run

/-! ### Creating operations -/

/-- The amounts of the refunds of a pay-in that have not failed. -/
def refundsOf (s : Store τ) (parent : String) : ℤ :=
  s.operations.sum fun row => if row.parent = some parent ∧ row.status ≠ .failed then row.amount else 0

def checkRefund (s : Store τ) (merchant : String) (amount : ℤ) : Option String → Except Error Unit
  | none => .ok ()
  | some parent => do
    let source ← findOperation s parent (some merchant)
    require (source.kind = .payin ∧ source.status = .succeeded) (.http 409 "refund requires a successful owned pay-in")
    require (refundsOf s parent + amount ≤ source.amount)
      (.http 409 "refund amount exceeds original payment after pending refunds")

/-- The row `create` inserts. -/
def newOperation (merchant : String) (body : Request) : Operation :=
  { merchant := merchant, kind := body.kind, order := body.order, parent := body.parent,
    amount := body.amount, currency := "USD", destination := body.destination,
    requestKey := body.requestKey, hash := body.fingerprint, status := .created,
    providerId := none, revision := 0, checkout := none }

/-- Payouts and refunds hold their amount until the provider has settled it. -/
def reserveFunds (s : Store τ) (op merchant : String) (body : Request) : Except Error (Store τ) :=
  if body.kind = .payin then .ok s
  else post s op .reserve (.available merchant) (.held merchant) body.amount none

/-- The part of `create` after the idempotency check; `op` is the fresh `uuid4`. -/
def insertOperation (s : Store τ) (now : τ) (op merchant : String) (body : Request) :
    Except Error (Store τ × Operation) := do
  require (s.operations.entries.length < 10000) (.http 429 "reference operation capacity reached")
  require (body.order.all fun order => s.operations.values.all fun row =>
      !(row.merchant = merchant && row.kind = .payin && row.order = some order))
    (.http 409 "order already has a payment; reuse its original request key")
  require (s.wallets.contains merchant = true) (.http 404 "merchant missing")
  checkRefund s merchant body.amount body.parent
  require (s.operations.get? op = none) .integrityError
  let row := newOperation merchant body
  let s ← reserveFunds { s with operations := s.operations.set op row } op merchant body
  return (enqueue s (.execute op) now, row)

def create (now : τ) (op merchant : String) (body : Request) (s : Store τ) : Except Error (Store τ × Operation) := do
  body.check merchant
  match s.operations.values.find? fun row => row.merchant = merchant && row.requestKey = body.requestKey with
  | some old => do
    require (old.hash = body.fingerprint) (.http 409 "request key content conflict")
    return (s, old)
  | none => insertOperation s now op merchant body

/-! ### Applying receipts -/

inductive Verdict where
  | review (reason : String)
  | ignored (text : String)
  | apply

/-- The chain of guards of `apply`, in order. -/
def judge (s : Store τ) (row : Operation) (r : Receipt) : Verdict :=
  if (row.merchant, row.kind, row.parent, row.amount, row.currency) ≠
      (r.merchant, r.kind, r.parent, r.amount, r.currency) ∨
      (row.providerId.isSome ∧ row.providerId ≠ some r.providerId) then
    .review "RECEIPT_MISMATCH"
  else if s.operations.entries.any fun entry => entry.2.providerId = some r.providerId && entry.1 ≠ r.id then
    .review "PROVIDER_ID_REUSED"
  else if (s.versions.get? (r.id, r.revision)).any fun hash => hash ≠ digest r.toJson then
    .review "REVISION_CONFLICT"
  else if r.revision < row.revision then .ignored "older revision"
  else if row.status.terminal then
    if r.status.status ≠ row.status then .review "TERMINAL_CONFLICT"
    else .ignored "already terminal"
  else if r.revision = row.revision ∧ row.status ≠ .unknown ∧ row.status ≠ .created then
    if r.status.status ≠ row.status ∨ r.checkout ≠ row.checkout then
      .review "REVISION_CONFLICT"
    else .ignored "already applied revision"
  else .apply

/-- The posting of a terminal receipt. -/
def postReceipt (s : Store τ) (row : Operation) (r : Receipt) : Except Error (Store τ) :=
  match r.status with
  | .succeeded =>
    if row.kind = .payin then
      post s r.id .settle .clearing (.available row.merchant) row.amount (some r.providerId)
    else post s r.id .settle (.held row.merchant) .clearing row.amount (some r.providerId)
  | .failed =>
    if row.kind = .payin then .ok s
    else post s r.id .release (.held row.merchant) (.available row.merchant) row.amount (some r.providerId)
  | .pending => .ok s

/-- `UPDATE jobs SET status='done' WHERE id=?`. -/
def closeJob (s : Store τ) (id : JobId) : Store τ :=
  match s.jobs.get? id with
  | some job => { s with jobs := s.jobs.set id { job with status := .done } }
  | none => s

/-- The last branch of the chain. -/
def advance (s : Store τ) (now : τ) (row : Operation) (r : Receipt) : Except Error (Store τ) := do
  let s ← postReceipt s row r
  let s := { s with
    operations := s.operations.set r.id { row with
      status := r.status.status, providerId := some r.providerId, revision := r.revision,
      checkout := r.checkout } }
  if r.status = .pending then return s
  else return enqueue (closeJob s (.execute r.id)) (.notify r.id) now

/-- `INSERT OR IGNORE INTO provider_versions`. -/
def recordVersion (s : Store τ) (r : Receipt) : Store τ :=
  match s.versions.get? (r.id, r.revision) with
  | some _ => s
  | none => { s with versions := s.versions.set (r.id, r.revision) (digest r.toJson) }

/-- The receipt against the operation it names. -/
def applyTo (s : Store τ) (now : τ) (r : Receipt) : Except Error (Store τ × Result) :=
  match s.operations.get? r.id with
  | none =>
    let (s, id) := review s r.id "UNKNOWN_PROVIDER_OPERATION" r.toJson
    .ok (s, ⟨false, false, some id, none⟩)
  | some row =>
    match judge s row r with
    | .review reason =>
      let (s, id) := review s r.id reason r.toJson
      .ok (s, ⟨false, false, some id, none⟩)
    | .ignored text => .ok (recordVersion s r, ⟨false, false, none, some text⟩)
    | .apply => do
      let s ← advance s now row r
      return (recordVersion s r, ⟨true, false, none, none⟩)

/-- `INSERT INTO inbox`. -/
def recordEvent (s : Store τ) (r : Receipt) (result : Result) : Option String → Store τ
  | some event => { s with inbox := s.inbox.set event (digest r.toJson, result) }
  | none => s

def apply (now : τ) (r : Receipt) (event : Option String) (s : Store τ) : Except Error (Store τ × Result) := do
  receiptCopy e r
  optional identifier event
  match event.bind s.inbox.get? with
  | some (hash, result) => do
    require (hash = digest r.toJson) (.http 409 "webhook event ID payload conflict")
    return (s, { result with duplicate := true })
  | none => do
    let (s, result) ← applyTo s now r
    return (recordEvent s r result event, result)

/-! ### Running jobs -/

variable [LinearOrder τ]

/-- A job is due when it is pending and its time has come, or its lease has run out. -/
def isReady (now : τ) (job : Job τ) : Bool :=
  match job.status with
  | .pending => job.due ≤ now
  | .inflight => match job.lease with
    | some lease => lease ≤ now
    | none => true
  | _ => false

/-- `ORDER BY due,id`. -/
def dueBefore (a b : JobId × Job τ) : Bool := a.2.due < b.2.due || (a.2.due = b.2.due && a.1.text ≤ b.1.text)

def claim (now : τ) (leaseSeconds : ℤ) (token : String) (s : Store τ) : Except Error (Store τ × Option JobId) := do
  integer leaseSeconds "lease seconds" 1 60
  match ((s.jobs.entries.filter fun entry => isReady now entry.2).mergeSort dueBefore).head? with
  | none => return (s, none)
  | some (id, job) =>
    return ({ s with jobs := s.jobs.set id { job with
      status := .inflight, attempts := job.attempts + 1,
      lease := some (e.plus now leaseSeconds), token := token } }, some id)

/-- `UPDATE operations SET status='UNKNOWN' WHERE id=? AND status NOT IN(...)`. -/
def markUnknown (s : Store τ) (op : String) : Store τ :=
  match s.operations.get? op with
  | some row =>
    if row.status.terminal then s
    else { s with operations := s.operations.set op { row with status := .unknown } }
  | none => s

/-- An unknown outcome of a provider call reopens the operation. -/
def noteFailure (s : Store τ) (id : JobId) (error : Option String) : Store τ :=
  match id, error with
  | .execute op, some _ => markUnknown s op
  | _, _ => s

def failReconciliation (s : Store τ) (id : JobId) (error : String) : Store τ :=
  match id with
  | .reconcile run => match s.reconciliations.get? run with
    | some _ => { s with reconciliations := s.reconciliations.set run (.failed error) }
    | none => s
  | _ => s

def shorten (text : String) : String := String.ofList (text.toList.take 300)

/-- Five failures bury the job and open a review. -/
def exhaust (s : Store τ) (id : JobId) (error : Option String) : Store τ :=
  failReconciliation
    (review s id.subject "RETRY_EXHAUSTED"
      (.obj [("job", .str id.text), ("error", .str (shorten (error.getD "None")))])).1
    id (shorten (error.getD "None"))

/-- `0.2` for a pending outcome, else `min(30, 0.1 * 2 ** min(failures, 8))`. -/
def retryDelay (pending : Bool) (error : Option String) (failures : ℕ) : ℚ :=
  if pending && error.isNone then 1 / 5 else min 30 (1 / 10 * 2 ^ min failures 8)

def finishJob (now : τ) (id : JobId) (token : String) (pending : Bool) (error : Option String)
    (s : Store τ) : Except Error (Store τ × Bool) := do
  identifier token
  require (error.all fun text => text.length ≤ 1000) (.valueError "invalid job outcome")
  match s.jobs.get? id with
  | none => return (s, false)
  | some job =>
    if job.token = token ∧ job.status = .inflight ∧ job.lease.any (fun lease => now < lease) then
      let failures := job.failures + if error.isSome then 1 else 0
      let s := noteFailure s id error
      let buried := decide (5 ≤ failures)
      let s := if buried then exhaust s id error else s
      let status := if buried then JobStatus.dead
        else if pending || error.isSome then .pending else .done
      return ({ s with jobs := s.jobs.set id { job with
        status := status, failures := failures,
        due := e.plus now (retryDelay pending error failures),
        error := shorten (error.getD ""), lease := none, token := "" } }, true)
    else return (s, false)

/-- `retry`: the execute job of an operation that is not terminal runs again. -/
def retry (now : τ) (op : String) (s : Store τ) : Except Error (Store τ × Unit) := do
  let row ← findOperation s op none
  require (row.status.terminal = false) (.http 409 "terminal operation cannot execute again")
  match s.jobs.get? (.execute op) with
  | some job => return ({ s with jobs := s.jobs.set (.execute op) { job with
      status := .pending, failures := 0, due := now, lease := none, token := "" } }, ())
  | none => return (s, ())

/-- `retry_job`: a dead job is requeued. -/
def retryJob (now : τ) (id : JobId) (s : Store τ) : Except Error (Store τ × Unit) :=
  match s.jobs.get? id with
  | none => .error (.http 404 "job missing")
  | some job => do
    require (job.status = .dead) (.http 409 "only dead jobs can be manually requeued")
    let s := { s with jobs := s.jobs.set id { job with
      status := .pending, failures := 0, due := now, lease := none, token := "", error := "" } }
    match id with
    | .reconcile run => match s.reconciliations.get? run with
      | some _ => return ({ s with reconciliations := s.reconciliations.set run .pending }, ())
      | none => return (s, ())
    | _ => return (s, ())

end SystemDesign.Payment
