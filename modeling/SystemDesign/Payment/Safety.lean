import SystemDesign.Payment.LedgerSpec

/-!
The calls of the payment service and what holds over every run of them.
-/

namespace SystemDesign.Payment

variable {τ : Type}

/-! ### The job calls -/

theorem markUnknown_change (s : Store τ) (op : String) : Change s (markUnknown s op) := by
  unfold markUnknown
  split
  · rename_i row hget
    split
    · exact .same rfl rfl rfl
    · rename_i hopen
      exact .moved op row { row with status := .unknown } hget (by simpa using hopen)
        ⟨rfl, rfl, rfl, rfl⟩ rfl (.inl ⟨.inl rfl, rfl, rfl⟩)
  · exact .same rfl rfl rfl

theorem noteFailure_change (s : Store τ) (id : JobId) (error : Option String) : Change s (noteFailure s id error) := by
  unfold noteFailure
  split
  · exact markUnknown_change s _
  · exact .same rfl rfl rfl

theorem buried_frame (s : Store τ) (id : JobId) (error : Option String) (buried : Bool) :
    Frame s (if buried then exhaust s id error else s) := by
  split
  · exact exhaust_frame s id error
  · exact ⟨rfl, rfl, rfl⟩

variable {s s' : Store τ} {now : τ}

section Jobs

variable [LinearOrder τ] {e : Settings τ}

theorem claim_frame {leaseSeconds : ℤ} {token : String} {job : Option JobId}
    (h : claim e now leaseSeconds token s = .ok (s', job)) : Frame s s' := by
  obtain ⟨_, -, h⟩ := of_bind h
  split at h
  · obtain ⟨rfl, -⟩ := Prod.mk.inj (Except.ok.inj h)
    exact ⟨rfl, rfl, rfl⟩
  · obtain ⟨rfl, -⟩ := Prod.mk.inj (Except.ok.inj h)
    exact ⟨rfl, rfl, rfl⟩

theorem finishJob_change {id : JobId} {token : String} {pending : Bool} {error : Option String} {done : Bool}
    (h : finishJob e now id token pending error s = .ok (s', done)) : Change s s' := by
  obtain ⟨_, -, h⟩ := of_bind h
  obtain ⟨_, -, h⟩ := of_bind h
  split at h
  · obtain ⟨rfl, -⟩ := Prod.mk.inj (Except.ok.inj h)
    exact .same rfl rfl rfl
  · split at h
    · obtain ⟨rfl, -⟩ := Prod.mk.inj (Except.ok.inj h)
      exact (noteFailure_change s id error).frame ((buried_frame _ id error _).trans ⟨rfl, rfl, rfl⟩)
    · obtain ⟨rfl, -⟩ := Prod.mk.inj (Except.ok.inj h)
      exact .same rfl rfl rfl

section
omit [LinearOrder τ]

theorem retry_frame {op : String} {u : Unit} (h : retry now op s = .ok (s', u)) : Frame s s' := by
  obtain ⟨_, -, h⟩ := of_bind h
  obtain ⟨_, -, h⟩ := of_bind h
  split at h
  · obtain ⟨rfl, -⟩ := Prod.mk.inj (Except.ok.inj h)
    exact ⟨rfl, rfl, rfl⟩
  · obtain ⟨rfl, -⟩ := Prod.mk.inj (Except.ok.inj h)
    exact ⟨rfl, rfl, rfl⟩

theorem retryJob_frame {id : JobId} {u : Unit} (h : retryJob now id s = .ok (s', u)) : Frame s s' := by
  unfold retryJob at h
  split at h
  · cases h
  · obtain ⟨_, -, h⟩ := of_bind h
    split at h
    · dsimp only at h
      split at h
      · obtain ⟨rfl, -⟩ := Prod.mk.inj (Except.ok.inj h)
        exact ⟨rfl, rfl, rfl⟩
      · obtain ⟨rfl, -⟩ := Prod.mk.inj (Except.ok.inj h)
        exact ⟨rfl, rfl, rfl⟩
    · obtain ⟨rfl, -⟩ := Prod.mk.inj (Except.ok.inj h)
      exact ⟨rfl, rfl, rfl⟩

end

end Jobs

/-! ### Runs of the service -/

inductive Call where
  | create (op merchant : String) (body : Request)
  | apply (receipt : Receipt) (event : Option String)
  | claim (leaseSeconds : ℤ) (token : String)
  | finishJob (id : JobId) (token : String) (pending : Bool) (error : Option String)
  | retry (op : String)
  | retryJob (id : JobId)

inductive Reply where
  | operation (row : Operation)
  | result (result : Result)
  | job (id : Option JobId)
  | finished (done : Bool)
  | unit

def answer {α : Type} (reply : α → Reply) (x : Except Error (Store τ × α)) :
    Except Error (Store τ × Reply) := x.map fun p => (p.1, reply p.2)

theorem answer_eq_ok {α : Type} {reply : α → Reply} {x : Except Error (Store τ × α)} {a : Reply}
    (h : answer reply x = .ok (s', a)) : ∃ b, x = .ok (s', b) := by
  cases x with
  | error err => cases h
  | ok p =>
    obtain ⟨rfl, -⟩ := Prod.mk.inj (Except.ok.inj h)
    exact ⟨p.2, rfl⟩

/-! ### Empty books -/

theorem foldl_wallets (merchants : List String) {wallets : Dict String Wallet}
    (h : ∀ {m w}, wallets.get? m = some w → w = ⟨0, 0⟩) {m : String} {w : Wallet}
    (hw : (merchants.foldl (fun wallets merchant => wallets.set merchant ⟨0, 0⟩) wallets).get? m =
      some w) : w = ⟨0, 0⟩ := by
  induction merchants generalizing wallets with
  | nil => exact h hw
  | cons merchant merchants ih =>
    refine @ih (wallets.set merchant ⟨0, 0⟩) ?_ hw
    intro m w hm
    rcases Dict.get?_set_cases hm with ⟨-, rfl⟩ | ⟨-, hm⟩
    · rfl
    · exact h hm

theorem books_init (merchants : List String) : Books (Store.init (τ := τ) merchants) := by
  have hzero : ∀ {m w}, (Store.init (τ := τ) merchants).wallets.get? m = some w → w = ⟨0, 0⟩ :=
    foldl_wallets merchants fun hw => by cases hw
  constructor
  · exact fun hget => by cases hget
  · exact fun hget => by cases hget
  · exact fun hget => by cases hget
  · exact fun hget => by cases hget
  · exact fun hget => by cases hget
  · exact fun hget => by cases hget
  · intro m w hw
    rw [hzero hw]
    rfl
  · intro m w hw
    rw [hzero hw]
    rfl
  · have hsum : (Store.init (τ := τ) merchants).wallets.sum Wallet.total =
        (Store.init (τ := τ) merchants).wallets.sum fun _ => 0 := by
      refine Dict.sum_congr fun w hw => ?_
      obtain ⟨m, hm⟩ := Dict.mem_values.mp hw
      rw [hzero hm]
      rfl
    rw [hsum, Dict.sum_zero]
    rfl
  · intro m w hw
    rw [hzero hw]
    rfl
  · intro m w hw
    rw [hzero hw]
    exact ⟨le_rfl, le_rfl⟩
  · exact fun hget => by cases hget

/-! ### The audit -/

theorem imbalance_posting (op : String) (kind : PostingKind) (provider : Option String) (row : Operation) :
    ((posting op kind provider row).lines.map fun l => l.debit - l.credit).sum = 0 := by
  simp [posting, PostingKind.lines]

theorem Books.imbalance (hb : Books s) : imbalance s = 0 := by
  have hzero : Payment.imbalance s = s.ledger.sum fun _ => 0 := by
    refine Dict.sum_congr fun p hp => ?_
    obtain ⟨⟨kind, op⟩, hget⟩ := Dict.mem_values.mp hp
    obtain ⟨row, -, heq⟩ := hb.posting hget
    rw [heq, imbalance_posting]
    split <;> rfl
  rw [hzero, Dict.sum_zero]

theorem Books.posted (hb : Books s) {p : Posting} (hp : p ∈ s.ledger.values) : p.posted = true := by
  obtain ⟨⟨kind, op⟩, hget⟩ := Dict.mem_values.mp hp
  obtain ⟨row, -, heq⟩ := hb.posting hget
  rw [heq]
  rfl

theorem Books.audit (hb : Books s) : (audit s).isMatch = true := by
  have hfields : (s.wallets.entries.flatMap fun entry =>
    (if entry.2.available ≠ total s (.available entry.1) then
      [AuditError.walletMismatch entry.1 "available"] else []) ++
    (if entry.2.held ≠ total s (.held entry.1) then
      [AuditError.walletMismatch entry.1 "held"] else [])) = [] := by
    rw [List.flatMap_eq_nil_iff]
    rintro ⟨m, w⟩ hmem
    have hw := Dict.mem_entries.mp hmem
    simp [hb.available hw, hb.held hw]
  have hposted : (s.ledger.values.filter fun p => !p.posted) = [] := by
    rw [List.filter_eq_nil_iff]
    intro p hp
    simp [hb.posted hp]
  have hcash : -total s .clearing = s.wallets.sum fun w => w.available + w.held := by
    have hbalance : total s .clearing + (s.wallets.sum fun w => w.available + w.held) = 0 :=
      hb.balance
    linarith
  simp only [AuditReport.isMatch, Payment.audit, hfields, hposted, hcash, hb.imbalance]
  simp

/-! ### Postings of an operation -/

/-- The ledger transactions of an operation and a kind. -/
def postings (s : Store τ) (op : String) (kind : PostingKind) : List Posting :=
  s.ledger.values.filter fun p => p.operation = op ∧ p.kind = kind

theorem Books.postings_eq (hb : Books s) (op : String) (kind : PostingKind) :
    postings s op kind = (s.ledger.get? (kind, op)).toList := by
  refine Dict.filter_values fun {id p} hp => ?_
  obtain ⟨row, -, heq⟩ := hb.posting hp
  have hoperation : p.operation = id.2 := congrArg Posting.operation heq
  have hkind : p.kind = id.1 := congrArg Posting.kind heq
  simp [hoperation, hkind, Prod.ext_iff, and_comm]

variable [LinearOrder τ] (e : Settings τ)

def Call.run (now : τ) : Call → Store τ → Except Error (Store τ × Reply)
  | .create op merchant body, s => answer .operation (Payment.create now op merchant body s)
  | .apply receipt event, s => answer .result (Payment.apply e now receipt event s)
  | .claim leaseSeconds token, s => answer .job (Payment.claim e now leaseSeconds token s)
  | .finishJob id token pending error, s =>
    answer .finished (Payment.finishJob e now id token pending error s)
  | .retry op, s => answer (fun _ => .unit) (Payment.retry now op s)
  | .retryJob id, s => answer (fun _ => .unit) (Payment.retryJob now id s)

/-- A call in its transaction: the store afterwards and what was returned or raised. -/
def perform (now : τ) (call : Call) (s : Store τ) : Store τ × Except Error Reply :=
  transaction s (call.run e now)

/-- Any calls in any order, at any times, on the wallets of some merchants. -/
def service (merchants : List String) : Transitions (Store τ) where
  start s := s = .init merchants
  step s s' := ∃ now call, s' = (perform e now call s).1

variable {e}

theorem run_change {call : Call} {reply : Reply} (h : call.run e now s = .ok (s', reply)) (hb : Books s) :
    Change s s' := by
  unfold Call.run at h
  cases call with
  | create op merchant body =>
    obtain ⟨row, hrow⟩ := answer_eq_ok h
    exact create_change hrow hb
  | apply receipt event =>
    obtain ⟨result, hresult⟩ := answer_eq_ok h
    exact apply_change hresult hb
  | claim leaseSeconds token =>
    obtain ⟨job, hjob⟩ := answer_eq_ok h
    exact (claim_frame hjob).change
  | finishJob id token pending error =>
    obtain ⟨done, hdone⟩ := answer_eq_ok h
    exact finishJob_change hdone
  | retry op =>
    obtain ⟨u, hu⟩ := answer_eq_ok h
    exact (retry_frame hu).change
  | retryJob id =>
    obtain ⟨u, hu⟩ := answer_eq_ok h
    exact (retryJob_frame hu).change

theorem perform_change (now : τ) (call : Call) {s : Store τ} (hb : Books s) : Change s (perform e now call s).1 := by
  rcases transaction_cases s (call.run e now) with ⟨s', reply, hok, heq⟩ | ⟨err, _, heq⟩
  · rw [perform, heq]
    exact run_change hok hb
  · rw [perform, heq]
    exact .same rfl rfl rfl

theorem reachable_books {merchants : List String} (h : (service e merchants).Reachable s) : Books s := by
  refine h.invariant (P := Books) ?_ ?_
  · rintro s rfl
    exact books_init merchants
  · rintro s _ - hb ⟨now, call, rfl⟩
    exact (perform_change now call hb).books hb

omit [LinearOrder τ] in
/-- A change leaves terminal operations alone. -/
theorem Change.terminal (h : Change s s') {op : String} {row : Operation} (hget : s.operations.get? op = some row)
    (hterminal : row.status.terminal = true) : s'.operations.get? op = some row := by
  cases h with
  | same _ hoperations _ => rw [hoperations, hget]
  | opened op' row' hnew _ _ _ _ hoperations _ =>
    have hne : op ≠ op' := by
      rintro rfl
      rw [hnew] at hget
      cases hget
    rw [hoperations, Dict.get?_set_of_ne _ hne, hget]
  | moved op' row' row'' hget' hopen _ hoperations _ =>
    have hne : op ≠ op' := by
      rintro rfl
      obtain rfl := Option.some.inj (hget.symm.trans hget')
      rw [hterminal] at hopen
      cases hopen
    rw [hoperations, Dict.get?_set_of_ne _ hne, hget]

theorem terminal_final {merchants : List String} (hb : Books s)
    (hrun : Relation.ReflTransGen (service e merchants).step s s') :
    Books s' ∧ ∀ {op row}, s.operations.get? op = some row → row.status.terminal = true →
      s'.operations.get? op = some row := by
  induction hrun with
  | refl => exact ⟨hb, fun hget _ => hget⟩
  | tail _ hstep ih =>
    obtain ⟨hb', hkept⟩ := ih
    obtain ⟨now, call, rfl⟩ := hstep
    have hchange := @perform_change τ _ e now call _ hb'
    exact ⟨hchange.books hb', fun hget ht => hchange.terminal (hkept hget ht) ht⟩

/-- Every reachable store passes the audit; an operation settles or is released at most
once, as its status says; held balances, refunds and wallets stay within bounds, and a
terminal status is final. -/
theorem ledger_safe (e : Settings τ) (merchants : List String) {s : Store τ}
    (h : (service e merchants).Reachable s) :
    (audit s).isMatch = true ∧
    (∀ op row, s.operations.get? op = some row →
      (postings s op .settle).length ≤ 1 ∧ (postings s op .release).length ≤ 1 ∧
      (postings s op .settle = [] ∨ postings s op .release = []) ∧
      (row.status = .succeeded ↔ ∃ p ∈ postings s op .settle, p.posted = true) ∧
      (row.kind ≠ .payin →
        (row.status = .failed ↔ ∃ p ∈ postings s op .release, p.posted = true)) ∧
      refundsOf s op ≤ row.amount) ∧
    (∀ m w, s.wallets.get? m = some w → w.held = heldBy s m ∧ 0 ≤ w.available ∧ 0 ≤ w.held) ∧
    ∀ s', Relation.ReflTransGen (service e merchants).step s s' → ∀ op row,
      s.operations.get? op = some row → row.status.terminal = true →
      ∃ row', s'.operations.get? op = some row' ∧ row'.status = row.status := by
  have hb := reachable_books h
  refine ⟨hb.audit, ?_, ?_, ?_⟩
  · intro op row hget
    have hexists : ∀ kind, (∃ p ∈ postings s op kind, p.posted = true) ↔
        s.ledger.get? (kind, op) ≠ none := by
      intro kind
      rw [hb.postings_eq]
      cases hp : s.ledger.get? (kind, op) with
      | none => simp
      | some p => simpa using hb.posted (Dict.mem_values.mpr ⟨_, hp⟩)
    refine ⟨?_, ?_, ?_, ?_, ?_, hb.refunds hget⟩
    · rw [hb.postings_eq]
      exact Option.length_toList_le
    · rw [hb.postings_eq]
      exact Option.length_toList_le
    · rw [hb.postings_eq, hb.postings_eq]
      by_cases hsettle : s.ledger.get? (.settle, op) = none
      · exact .inl (by rw [hsettle]; rfl)
      · refine .inr ?_
        have hsucceeded := (hb.settled hget).mp hsettle
        have hnorelease : s.ledger.get? (.release, op) = none := by
          by_contra hne
          have hfailed := ((hb.released hget).mp hne).1
          rw [hsucceeded] at hfailed
          cases hfailed
        rw [hnorelease]
        rfl
    · rw [hexists, hb.settled hget]
    · intro hk
      rw [hexists, hb.released hget]
      exact ⟨fun hs => ⟨hs, hk⟩, fun hs => hs.1⟩
  · intro m w hw
    exact ⟨hb.pending hw, hb.nonneg hw⟩
  · intro s' hrun op row hget hterminal
    exact ⟨row, (terminal_final hb hrun).2 hget hterminal, rfl⟩

/-! ### A shop -/

/-- A clock that counts seconds; checkouts are not simulated. -/
def seconds : Settings ℕ := ⟨fun now s => now + ⌊s⌋.toNat, fun _ => false⟩

def payment : Request := .payin "key" 100 "USD" "order"

def paid : Receipt :=
  ⟨"op", "shop", .payin, none, 100, "USD", "provider", .succeeded, 1, none⟩

/-- The store once the payment is created. -/
def ordered : Store ℕ :=
  enqueue { Store.init ["shop"] with
    operations := Dict.empty.set "op" (newOperation "shop" payment) } (.execute "op") 0

theorem ordered_eq : (perform seconds 0 (.create "op" "shop" payment) (.init ["shop"])).1 = ordered := by
  have hids : identifier "shop" = .ok () ∧ identifier "key" = .ok () ∧ identifier "order" = .ok () := by decide
  simp [perform, transaction, Call.run, answer, create, Request.check, hids, payment,
    Request.requestKey, Request.amount, Request.currency, Request.order, Request.parent,
    Request.kind, Request.destination, optional, money, integer, require, insertOperation,
    checkRefund, reserveFunds, Store.init, Dict.values, Dict.empty, bind, Except.bind, pure,
    Except.pure, Except.map, Dict.contains, Dict.get?, Dict.set, ordered]

def shopStore : Store ℕ := (perform seconds 0 (.apply paid none) ordered).1

theorem shopStore_reachable : (service seconds ["shop"]).Reachable shopStore := by
  have hordered : (service seconds ["shop"]).Reachable ordered :=
    .step (.start rfl) ⟨0, _, ordered_eq.symm⟩
  exact .step hordered ⟨0, _, rfl⟩

theorem shopStore_wallet : shopStore.wallets.get? "shop" = some ⟨100, 0⟩ := by
  have hids : identifier "shop" = .ok () ∧ identifier "op" = .ok () ∧ identifier "provider" = .ok () := by decide
  have hreceipt : receiptCopy seconds paid = .ok () := by
    simp [receiptCopy, paid, hids, optional, money, integer, require, bind, Except.bind]
  have hjudge : judge ordered (newOperation "shop" payment) paid = .apply := by
    simp [judge, ordered, enqueue, newOperation, payment, paid, Store.init, Dict.set, Dict.empty,
      Dict.get?, Request.kind, Request.amount, Request.parent, Status.terminal]
  have hget : ordered.operations.get? paid.id = some (newOperation "shop" payment) := by
    simp [ordered, enqueue, Store.init, paid]
  have hadvance : ∃ s', advance ordered 0 (newOperation "shop" payment) paid = .ok s' ∧
      s'.wallets.get? "shop" = some ⟨100, 0⟩ := by
    simp [advance, postReceipt, paid, post, findOperation, ordered, enqueue, closeJob, Store.init,
      newOperation, payment, Request.kind, Request.amount, money, integer, require, moveFunds,
      PostingKind.accounts, bind, Except.bind, pure, Except.pure, Dict.get?_set]
  obtain ⟨s', hs', hwallet⟩ := hadvance
  have happly : shopStore = recordVersion s' paid := by
    simp [shopStore, perform, transaction, Call.run, answer, apply, hreceipt, optional, applyTo,
      hget, hjudge, hs', recordEvent, bind, Except.bind, pure, Except.pure, Except.map]
  rw [happly, (recordVersion_frame s' paid).wallets, hwallet]

theorem ledger_safe_shop :
    shopStore.wallets.get? "shop" = some ⟨100, 0⟩ ∧ (audit shopStore).isMatch = true :=
  ⟨shopStore_wallet, (ledger_safe seconds ["shop"] shopStore_reachable).1⟩

end SystemDesign.Payment
