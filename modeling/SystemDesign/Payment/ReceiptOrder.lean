import SystemDesign.Payment.Safety

/-!
The receipts of one operation, delivered in any order.

A provider numbers the receipts of an operation and only the last one is terminal. Until
the last receipt arrives the operation is open and has moved no funds; once it has
arrived the operation is closed by it. Job failures reopen an open operation and leave
a closed one alone, so every schedule that delivers the last receipt ends alike.
-/

namespace SystemDesign.Payment

open List hiding lt_irrefl
open Dict

variable {τ : Type}

/-! ### What the job calls do -/

/-- What a job call can do: an open operation becomes unknown, a buried job opens a review. -/
structure JobStep (s s' : Store τ) : Prop where
  wallets : s'.wallets = s.wallets
  ledger : s'.ledger = s.ledger
  versions : s'.versions = s.versions
  inbox : s'.inbox = s.inbox
  operations : s'.operations = s.operations ∨ ∃ id row, s.operations.get? id = some row ∧
    row.status.terminal = false ∧
    s'.operations = s.operations.set id { row with status := .unknown }
  reviews : ∀ {id v}, s'.reviews.get? id = some v → s.reviews.get? id = some v ∨ v.reason = "RETRY_EXHAUSTED"

theorem JobStep.refl (s : Store τ) : JobStep s s := ⟨rfl, rfl, rfl, rfl, .inl rfl, fun h => .inl h⟩

theorem markUnknown_jobStep (s : Store τ) (op : String) : JobStep s (markUnknown s op) := by
  unfold markUnknown
  split
  · rename_i row hget
    split
    · exact .refl s
    · rename_i hopen
      exact ⟨rfl, rfl, rfl, rfl, .inr ⟨op, row, hget, by simpa using hopen, rfl⟩, fun h => .inl h⟩
  · exact .refl s

theorem noteFailure_jobStep (s : Store τ) (id : JobId) (error : Option String) :
    JobStep s (noteFailure s id error) := by
  unfold noteFailure
  split
  · exact markUnknown_jobStep s _
  · exact .refl s

variable {s : Store τ} {id : String} {v : Review}

theorem review_reviews {op reason : String} {detail : Json}
    (h : (review s op reason detail).1.reviews.get? id = some v) :
    s.reviews.get? id = some v ∨ v.reason = reason := by
  unfold review at h
  dsimp only at h
  split at h
  · exact .inl h
  · rcases get?_set_cases h with ⟨-, rfl⟩ | ⟨-, h⟩
    · exact .inr rfl
    · exact .inl h

theorem review_rest (s : Store τ) (op reason : String) (detail : Json) :
    (review s op reason detail).1.versions = s.versions ∧ (review s op reason detail).1.inbox = s.inbox := by
  unfold review
  dsimp only
  split <;> exact ⟨rfl, rfl⟩

theorem failReconciliation_rest (s : Store τ) (id : JobId) (error : String) :
    (failReconciliation s id error).versions = s.versions ∧ (failReconciliation s id error).inbox = s.inbox ∧
      (failReconciliation s id error).reviews = s.reviews := by
  unfold failReconciliation
  split
  · split <;> exact ⟨rfl, rfl, rfl⟩
  · exact ⟨rfl, rfl, rfl⟩

variable {s' : Store τ}

/-- A review and a reconciliation's outcome go with any job step. -/
theorem JobStep.exhaust (h : JobStep s s') (id : JobId) (error : Option String) : JobStep s (exhaust s' id error) := by
  have hframe := exhaust_frame s' id error
  obtain ⟨hversions, hinbox⟩ := review_rest s' id.subject "RETRY_EXHAUSTED"
    (.obj [("job", .str id.text), ("error", .str (shorten (error.getD "None")))])
  obtain ⟨hversions', hinbox', hreviews'⟩ := failReconciliation_rest
    (review s' id.subject "RETRY_EXHAUSTED" (.obj [("job", .str id.text),
      ("error", .str (shorten (error.getD "None")))])).1 id (shorten (error.getD "None"))
  constructor
  · exact hframe.wallets.trans h.wallets
  · exact hframe.ledger.trans h.ledger
  · exact (hversions'.trans hversions).trans h.versions
  · exact (hinbox'.trans hinbox).trans h.inbox
  · rw [hframe.operations]
    exact h.operations
  · intro k v hv
    rw [Payment.exhaust, hreviews'] at hv
    rcases review_reviews hv with hv | hv
    · exact h.reviews hv
    · exact .inr hv

theorem JobStep.buried (h : JobStep s s') (id : JobId) (error : Option String) (buried : Bool) :
    JobStep s (if buried then Payment.exhaust s' id error else s') := by
  split
  · exact h.exhaust id error
  · exact h

theorem JobStep.jobs (h : JobStep s s') (jobs : Dict JobId (Job τ)) : JobStep s { s' with jobs := jobs } :=
  ⟨h.wallets, h.ledger, h.versions, h.inbox, h.operations, h.reviews⟩

variable {now : τ}

section JobCalls

variable [LinearOrder τ] {e : Settings τ}

theorem finishJob_jobStep {id : JobId} {token : String} {pending : Bool} {error : Option String} {done : Bool}
    (h : finishJob e now id token pending error s = .ok (s', done)) : JobStep s s' := by
  obtain ⟨_, -, h⟩ := of_bind h
  obtain ⟨_, -, h⟩ := of_bind h
  split at h
  · obtain ⟨rfl, -⟩ := Prod.mk.inj (Except.ok.inj h)
    exact .refl s
  · split at h
    · obtain ⟨rfl, -⟩ := Prod.mk.inj (Except.ok.inj h)
      exact ((noteFailure_jobStep s id error).buried id error _).jobs _
    · obtain ⟨rfl, -⟩ := Prod.mk.inj (Except.ok.inj h)
      exact .refl s

theorem claim_jobStep {leaseSeconds : ℤ} {token : String} {job : Option JobId}
    (h : claim e now leaseSeconds token s = .ok (s', job)) : JobStep s s' := by
  obtain ⟨_, -, h⟩ := of_bind h
  split at h
  · obtain ⟨rfl, -⟩ := Prod.mk.inj (Except.ok.inj h)
    exact .refl s
  · obtain ⟨rfl, -⟩ := Prod.mk.inj (Except.ok.inj h)
    exact (JobStep.refl s).jobs _

section
omit [LinearOrder τ]

theorem retry_jobStep {op : String} {u : Unit} (h : retry now op s = .ok (s', u)) : JobStep s s' := by
  obtain ⟨_, -, h⟩ := of_bind h
  obtain ⟨_, -, h⟩ := of_bind h
  split at h
  · obtain ⟨rfl, -⟩ := Prod.mk.inj (Except.ok.inj h)
    exact (JobStep.refl s).jobs _
  · obtain ⟨rfl, -⟩ := Prod.mk.inj (Except.ok.inj h)
    exact .refl s

theorem retryJob_jobStep {id : JobId} {u : Unit} (h : retryJob now id s = .ok (s', u)) : JobStep s s' := by
  unfold retryJob at h
  split at h
  · cases h
  · obtain ⟨_, -, h⟩ := of_bind h
    split at h
    · dsimp only at h
      split at h
      · obtain ⟨rfl, -⟩ := Prod.mk.inj (Except.ok.inj h)
        exact ⟨rfl, rfl, rfl, rfl, .inl rfl, fun hv => .inl hv⟩
      · obtain ⟨rfl, -⟩ := Prod.mk.inj (Except.ok.inj h)
        exact (JobStep.refl s).jobs _
    · obtain ⟨rfl, -⟩ := Prod.mk.inj (Except.ok.inj h)
      exact (JobStep.refl s).jobs _

end

end JobCalls

/-- The calls of the job queue. -/
def Call.isJob : Call → Bool
  | .claim .. => true
  | .finishJob .. => true
  | .retry .. => true
  | .retryJob .. => true
  | _ => false

theorem perform_jobStep [LinearOrder τ] (e : Settings τ) (now : τ) {call : Call} (s : Store τ)
    (hjob : call.isJob = true) : JobStep s (perform e now call s).1 := by
  rcases transaction_cases s (call.run e now) with ⟨s', reply, hok, heq⟩ | ⟨err, _, heq⟩
  · rw [perform, heq]
    unfold Call.run at hok
    cases call with
    | create op merchant body => cases hjob
    | apply receipt event => cases hjob
    | claim leaseSeconds token =>
      obtain ⟨job, hjob⟩ := answer_eq_ok hok
      exact claim_jobStep hjob
    | finishJob id token pending error =>
      obtain ⟨done, hdone⟩ := answer_eq_ok hok
      exact finishJob_jobStep hdone
    | retry op =>
      obtain ⟨u, hu⟩ := answer_eq_ok hok
      exact retry_jobStep hu
    | retryJob id =>
      obtain ⟨u, hu⟩ := answer_eq_ok hok
      exact retryJob_jobStep hu
  · rw [perform, heq]
    exact .refl s

/-! ### Operations no receipt has reached -/

/-- Versions are of operations with a revision; an operation without one is untouched. -/
structure Traces (s : Store τ) : Prop where
  version : ∀ {op rev hash}, s.versions.get? (op, rev) = some hash →
    ∃ row, s.operations.get? op = some row ∧ row.revision ≠ 0
  fresh : ∀ {op row}, s.operations.get? op = some row → row.revision = 0 →
    row.status.terminal = false ∧ row.status ≠ .pending ∧ row.providerId = none

theorem Traces.same (h : Traces s) (hversions : s'.versions = s.versions)
    (hoperations : s'.operations = s.operations) : Traces s' := by
  constructor
  · rw [hversions, hoperations]
    exact h.version
  · rw [hoperations]
    exact h.fresh

theorem Traces.jobStep (h : Traces s) (hstep : JobStep s s') : Traces s' := by
  rcases hstep.operations with heq | ⟨id, row, hget, hopen, heq⟩
  · exact h.same hstep.versions heq
  · constructor
    · intro op rev hash hv
      rw [hstep.versions] at hv
      obtain ⟨row', hget', hrev⟩ := h.version hv
      rw [heq, get?_set]
      split
      · rename_i hid
        subst hid
        obtain rfl := Option.some.inj (hget.symm.trans hget')
        exact ⟨_, rfl, hrev⟩
      · exact ⟨row', hget', hrev⟩
    · intro op row' hget' hrev
      rw [heq] at hget'
      rcases get?_set_cases hget' with ⟨-, rfl⟩ | ⟨-, hget'⟩
      · exact ⟨rfl, nofun, (h.fresh hget hrev).2.2⟩
      · exact h.fresh hget' hrev

/-- An operation is written whose versions, if any, fit. -/
theorem Traces.written {s s' : Store τ} (h : Traces s) {op : String} {row : Operation}
    (hoperations : s'.operations = s.operations.set op row)
    (hversions : ∀ {id rev hash}, s'.versions.get? (id, rev) = some hash → id = op ∨
      s.versions.get? (id, rev) = some hash)
    (hrow : row.revision = 0 → row.status.terminal = false ∧ row.status ≠ .pending ∧ row.providerId = none)
    (hnone : row.revision = 0 → ∀ rev, s'.versions.get? (op, rev) = none) : Traces s' := by
  constructor
  · intro id rev hash hv
    rw [hoperations]
    by_cases hid : id = op
    · subst hid
      refine ⟨row, get?_set_self _ _ _, fun hzero => ?_⟩
      rw [hnone hzero] at hv
      cases hv
    · rw [get?_set_of_ne _ hid]
      exact h.version ((hversions hv).resolve_left hid)
  · intro id row' hget hzero
    rw [hoperations] at hget
    rcases get?_set_cases hget with ⟨-, rfl⟩ | ⟨-, hget⟩
    · exact hrow hzero
    · exact h.fresh hget hzero

theorem enqueue_rest (s : Store τ) (id : JobId) (now : τ) :
    (enqueue s id now).versions = s.versions ∧ (enqueue s id now).reviews = s.reviews ∧
      (enqueue s id now).inbox = s.inbox := by
  unfold enqueue
  split <;> exact ⟨rfl, rfl, rfl⟩

theorem closeJob_rest (s : Store τ) (id : JobId) :
    (closeJob s id).versions = s.versions ∧ (closeJob s id).reviews = s.reviews ∧ (closeJob s id).inbox = s.inbox := by
  unfold closeJob
  split <;> exact ⟨rfl, rfl, rfl⟩

variable {r : Receipt}

theorem recordVersion_versions {id : String × ℤ} {hash : String}
    (h : (recordVersion s r).versions.get? id = some hash) :
    s.versions.get? id = some hash ∨ id = (r.id, r.revision) ∧ hash = digest r.toJson := by
  unfold recordVersion at h
  split at h
  · exact .inl h
  · rcases get?_set_cases h with ⟨rfl, rfl⟩ | ⟨-, h⟩
    · exact .inr ⟨rfl, rfl⟩
    · exact .inl h

theorem post_rest {op : String} {kind : PostingKind} {debit credit : Account} {amount : ℤ}
    {provider : Option String} (h : post s op kind debit credit amount provider = .ok s') :
    s'.versions = s.versions ∧ s'.operations = s.operations ∧ s'.reviews = s.reviews := by
  obtain ⟨_, -, h⟩ := of_bind h
  obtain ⟨_, -, h⟩ := of_bind h
  obtain ⟨_, -, h⟩ := of_bind h
  split at h
  · obtain ⟨_, -, h⟩ := of_bind h
    obtain rfl := Except.ok.inj h
    exact ⟨rfl, rfl, rfl⟩
  · obtain ⟨_, -, h⟩ := of_bind h
    obtain ⟨_, -, h⟩ := of_bind h
    obtain rfl := Except.ok.inj h
    exact ⟨rfl, rfl, rfl⟩

theorem postReceipt_rest {row : Operation} (h : postReceipt s row r = .ok s') :
    s'.versions = s.versions ∧ s'.operations = s.operations ∧ s'.reviews = s.reviews := by
  unfold postReceipt at h
  split at h
  · split at h <;> exact post_rest h
  · split at h
    · obtain rfl := Except.ok.inj h
      exact ⟨rfl, rfl, rfl⟩
    · exact post_rest h
  · obtain rfl := Except.ok.inj h
    exact ⟨rfl, rfl, rfl⟩

theorem advance_rest {row : Operation} (h : advance s now row r = .ok s') :
    s'.versions = s.versions ∧ s'.operations = s.operations.set r.id (row.after r) ∧ s'.reviews = s.reviews := by
  obtain ⟨s₁, hs₁, h⟩ := of_bind h
  obtain ⟨hversions, hoperations, hreviews⟩ := postReceipt_rest hs₁
  split at h
  · obtain rfl := Except.ok.inj h
    rw [← hversions, ← hoperations, ← hreviews]
    exact ⟨rfl, rfl, rfl⟩
  · obtain rfl := Except.ok.inj h
    rw [(enqueue_rest _ _ _).1, (closeJob_rest _ _).1, (enqueue_frame _ _ _).operations,
      (closeJob_frame _ _).operations, (enqueue_rest _ _ _).2.1, (closeJob_rest _ _).2.1,
      ← hversions, ← hoperations, ← hreviews]
    exact ⟨rfl, rfl, rfl⟩

theorem judge_ignored {row : Operation} {text : String} (h : judge s row r = .ignored text) :
    r.revision < row.revision ∨ row.status.terminal = true ∨ r.revision = row.revision := by
  by_contra hne
  simp only [not_or] at hne
  obtain ⟨hold, hopen, hsame⟩ := hne
  unfold judge at h
  simp only [if_neg hold, if_neg hopen, hsame, false_and, if_false] at h
  split_ifs at h

theorem receiptCopy_revision {e : Settings τ} {u : Unit} (h : receiptCopy e r = .ok u) : 0 < r.revision := by
  obtain ⟨_, -, h⟩ := of_bind h
  obtain ⟨_, -, h⟩ := of_bind h
  obtain ⟨_, -, h⟩ := of_bind h
  obtain ⟨_, -, h⟩ := of_bind h
  obtain ⟨_, hrevision, -⟩ := of_bind h
  have hrange : 1 ≤ r.revision ∧ r.revision ≤ 2 ^ 53 := require_eq_ok.mp hrevision
  linarith [hrange.1]

variable {result : Result}

theorem applyTo_traces (h : Traces s) (hrevision : 0 < r.revision) (happly : applyTo s now r = .ok (s', result)) :
    Traces s' := by
  have hrecorded : ∀ {s₁ : Store τ} {id rev hash}, (recordVersion s₁ r).versions.get? (id, rev) = some hash →
      id = r.id ∨ s₁.versions.get? (id, rev) = some hash := fun hv =>
    (recordVersion_versions hv).symm.imp_left fun heq => (Prod.mk.inj heq.1).1
  unfold applyTo at happly
  split at happly
  · obtain ⟨rfl, -⟩ := Prod.mk.inj (Except.ok.inj happly)
    exact h.same (review_rest _ _ _ _).1 (review_frame _ _ _ _).operations
  · rename_i row hget
    split at happly
    · obtain ⟨rfl, -⟩ := Prod.mk.inj (Except.ok.inj happly)
      exact h.same (review_rest _ _ _ _).1 (review_frame _ _ _ _).operations
    · rename_i text hjudge
      obtain ⟨rfl, -⟩ := Prod.mk.inj (Except.ok.inj happly)
      have hnonzero : row.revision ≠ 0 := by
        intro hzero
        rcases judge_ignored hjudge with hlt | hterminal | heq
        · omega
        · rw [(h.fresh hget hzero).1] at hterminal
          cases hterminal
        · omega
      constructor
      · intro id rev hash hv
        rw [(recordVersion_frame s r).operations]
        rcases hrecorded hv with rfl | hv
        · exact ⟨row, hget, hnonzero⟩
        · exact h.version hv
      · rw [(recordVersion_frame s r).operations]
        exact h.fresh
    · obtain ⟨s₁, hs₁, happly⟩ := of_bind happly
      obtain ⟨rfl, -⟩ := Prod.mk.inj (Except.ok.inj happly)
      obtain ⟨hversions, hoperations, -⟩ := advance_rest hs₁
      refine @Traces.written τ s (recordVersion s₁ r) h r.id (row.after r) ?_ ?_ ?_ ?_
      · rw [(recordVersion_frame s₁ r).operations, hoperations]
      · intro id rev hash hv
        rw [← hversions]
        exact hrecorded hv
      · exact fun hzero => absurd hzero hrevision.ne'
      · exact fun hzero => absurd hzero hrevision.ne'

variable {event : Option String}

theorem apply_traces {e : Settings τ} (h : Traces s) (happly : apply e now r event s = .ok (s', result)) :
    Traces s' := by
  obtain ⟨_, hcopy, happly⟩ := of_bind happly
  obtain ⟨_, -, happly⟩ := of_bind happly
  split at happly
  · obtain ⟨_, -, happly⟩ := of_bind happly
    obtain ⟨rfl, -⟩ := Prod.mk.inj (Except.ok.inj happly)
    exact h
  · obtain ⟨⟨s₁, result₁⟩, hs₁, happly⟩ := of_bind happly
    obtain ⟨rfl, -⟩ := Prod.mk.inj (Except.ok.inj happly)
    have hrest : (recordEvent s₁ r result₁ event).versions = s₁.versions := by
      cases event <;> rfl
    exact (applyTo_traces h (receiptCopy_revision hcopy) hs₁).same hrest (recordEvent_frame _ _ _ _).operations

theorem insertOperation_traces {op merchant : String} {body : Request} {row : Operation} (h : Traces s)
    (hinsert : insertOperation s now op merchant body = .ok (s', row)) : Traces s' := by
  obtain ⟨_, -, hinsert⟩ := of_bind hinsert
  obtain ⟨_, -, hinsert⟩ := of_bind hinsert
  obtain ⟨_, -, hinsert⟩ := of_bind hinsert
  obtain ⟨_, -, hinsert⟩ := of_bind hinsert
  obtain ⟨_, hnew, hinsert⟩ := of_bind hinsert
  obtain ⟨s₁, hs₁, hinsert⟩ := of_bind hinsert
  obtain ⟨rfl, -⟩ := Prod.mk.inj (Except.ok.inj hinsert)
  have hnone : s.operations.get? op = none := require_eq_ok.mp hnew
  have hrest : s₁.versions = s.versions ∧ s₁.operations = s.operations.set op (newOperation merchant body) := by
    unfold reserveFunds at hs₁
    split at hs₁
    · obtain rfl := Except.ok.inj hs₁
      exact ⟨rfl, rfl⟩
    · obtain ⟨hversions, hoperations, -⟩ := post_rest hs₁
      exact ⟨hversions, hoperations⟩
  obtain ⟨hversions, hoperations⟩ := hrest
  have hunversioned : ∀ rev, s.versions.get? (op, rev) = none := by
    intro rev
    by_contra hne
    obtain ⟨hash, hv⟩ := Option.ne_none_iff_exists'.mp hne
    obtain ⟨row', hget, -⟩ := h.version hv
    rw [hnone] at hget
    cases hget
  refine @Traces.written τ s _ h op (newOperation merchant body) ?_ ?_ ?_ ?_
  · rw [(enqueue_frame _ _ _).operations, hoperations]
  · intro id rev hash hv
    rw [(enqueue_rest _ _ _).1, hversions] at hv
    exact .inr hv
  · exact fun _ => ⟨rfl, nofun, rfl⟩
  · intro _ rev
    rw [(enqueue_rest _ _ _).1, hversions]
    exact hunversioned rev

theorem reachable_traces [LinearOrder τ] {e : Settings τ} {merchants : List String}
    (h : (service e merchants).Reachable s) : Traces s := by
  refine h.invariant (P := Traces) ?_ ?_
  · rintro s rfl
    constructor
    · exact fun hv => by cases hv
    · exact fun hget => by cases hget
  · rintro s _ - ht ⟨now, call, rfl⟩
    by_cases hjob : call.isJob = true
    · exact ht.jobStep (perform_jobStep e now s hjob)
    · rcases transaction_cases s (call.run e now) with ⟨s', reply, hok, heq⟩ | ⟨err, _, heq⟩
      · rw [perform, heq]
        unfold Call.run at hok
        cases call with
        | create op merchant body =>
          obtain ⟨row, hrow⟩ := answer_eq_ok hok
          obtain ⟨_, -, hrow⟩ := of_bind hrow
          split at hrow
          · obtain ⟨_, -, hrow⟩ := of_bind hrow
            obtain ⟨rfl, -⟩ := Prod.mk.inj (Except.ok.inj hrow)
            exact ht
          · exact insertOperation_traces ht hrow
        | apply receipt event =>
          obtain ⟨result, hresult⟩ := answer_eq_ok hok
          exact apply_traces ht hresult
        | claim leaseSeconds token => exact absurd rfl hjob
        | finishJob id token pending error => exact absurd rfl hjob
        | retry op => exact absurd rfl hjob
        | retryJob id => exact absurd rfl hjob
      · rw [perform, heq]
        exact ht

/-! ### Closing an operation -/

def Operation.terms (row : Operation) : String × Kind × Option String × ℤ × String :=
  (row.merchant, row.kind, row.parent, row.amount, row.currency)

def Receipt.terms (r : Receipt) : String × Kind × Option String × ℤ × String :=
  (r.merchant, r.kind, r.parent, r.amount, r.currency)

variable {cur : Operation}

/-- A posting reads the funds, the ledger and the terms of its operation only. -/
theorem post_transfer {s₀ : Store τ} {op : String} {row : Operation} (hwallets : s.wallets = s₀.wallets)
    (hledger : s.ledger = s₀.ledger) (hget₀ : s₀.operations.get? op = some row)
    (hget : s.operations.get? op = some cur) (hterms : cur.terms = row.terms) {kind : PostingKind}
    {debit credit : Account} {amount : ℤ} {provider : Option String} {t : Store τ}
    (h : post s₀ op kind debit credit amount provider = .ok t) :
    post s op kind debit credit amount provider = .ok { s with wallets := t.wallets, ledger := t.ledger } := by
  obtain ⟨hmerchant, hkind, -, hamount, -⟩ : cur.merchant = row.merchant ∧ cur.kind = row.kind ∧
      cur.parent = row.parent ∧ cur.amount = row.amount ∧ cur.currency = row.currency := by
    simpa [Operation.terms] using hterms
  have haccounts : kind.accounts cur = kind.accounts row := by
    simp [PostingKind.accounts, hmerchant, hkind]
  obtain ⟨_, hmoney, h⟩ := of_bind h
  obtain ⟨source, hsource, h⟩ := of_bind h
  obtain rfl := Option.some.inj (hget₀.symm.trans (findOperation_eq_ok hsource))
  obtain ⟨_, hmatch, h⟩ := of_bind h
  have hfind : findOperation s op none = .ok cur := by simp [findOperation, hget]
  refine bind_eq_ok.mpr ⟨(), hmoney, bind_eq_ok.mpr ⟨cur, hfind, ?_⟩⟩
  refine bind_eq_ok.mpr ⟨(), ?_, ?_⟩
  · rw [haccounts, hkind, hamount]
    exact hmatch
  · rw [hledger, hwallets]
    split at h
    · rename_i old hold
      obtain ⟨_, hsame, h⟩ := of_bind h
      obtain rfl := Except.ok.inj h
      dsimp only
      refine bind_eq_ok.mpr ⟨(), hsame, ?_⟩
      rw [← hwallets, ← hledger]
      rfl
    · rename_i hnone
      obtain ⟨middle, hdebit, h⟩ := of_bind h
      obtain ⟨wallets, hcredit, h⟩ := of_bind h
      obtain rfl := Except.ok.inj h
      dsimp only
      exact bind_eq_ok.mpr ⟨middle, hdebit, bind_eq_ok.mpr ⟨wallets, hcredit, rfl⟩⟩

theorem postReceipt_transfer {s₀ : Store τ} {row : Operation} (hwallets : s.wallets = s₀.wallets)
    (hledger : s.ledger = s₀.ledger) (hget₀ : s₀.operations.get? r.id = some row)
    (hget : s.operations.get? r.id = some cur) (hterms : cur.terms = row.terms) {t : Store τ}
    (h : postReceipt s₀ row r = .ok t) :
    postReceipt s cur r = .ok { s with wallets := t.wallets, ledger := t.ledger } := by
  obtain ⟨hmerchant, hkind, -, hamount, -⟩ : cur.merchant = row.merchant ∧ cur.kind = row.kind ∧
      cur.parent = row.parent ∧ cur.amount = row.amount ∧ cur.currency = row.currency := by
    simpa [Operation.terms] using hterms
  have hsame : t = s₀ → { s with wallets := t.wallets, ledger := t.ledger } = s := by
    rintro rfl
    rw [← hwallets, ← hledger]
  unfold postReceipt at h ⊢
  cases hr : r.status with
  | pending =>
    simp only [hr] at h ⊢
    rw [hsame (Except.ok.inj h).symm]
  | succeeded =>
    simp only [hr, hkind, hmerchant, hamount] at h ⊢
    split at h
    · rename_i hk
      rw [if_pos hk]
      exact post_transfer hwallets hledger hget₀ hget hterms h
    · rename_i hk
      rw [if_neg hk]
      exact post_transfer hwallets hledger hget₀ hget hterms h
  | failed =>
    simp only [hr, hkind, hmerchant, hamount] at h ⊢
    split at h
    · rename_i hk
      rw [if_pos hk, hsame (Except.ok.inj h).symm]
    · rename_i hk
      rw [if_neg hk]
      exact post_transfer hwallets hledger hget₀ hget hterms h

theorem moveAvailable_ok {wallets : Dict String Wallet} {m : String} {w : Wallet} {delta : ℤ}
    (hw : wallets.get? m = some w) (h : 0 ≤ w.available + delta) :
    moveFunds wallets (.available m) delta = .ok (wallets.set m { w with available := w.available + delta }) := by
  simp [moveFunds, hw, h]

theorem moveHeld_ok {wallets : Dict String Wallet} {m : String} {w : Wallet} {delta : ℤ}
    (hw : wallets.get? m = some w) (h : 0 ≤ w.held + delta) :
    moveFunds wallets (.held m) delta = .ok (wallets.set m { w with held := w.held + delta }) := by
  simp [moveFunds, hw, h]

/-- A posting that is not in the ledger goes through when its funds move. -/
theorem post_ok {s : Store τ} {op : String} {row : Operation} {kind : PostingKind}
    {provider : Option String} (hget : s.operations.get? op = some row)
    (hfresh : s.ledger.get? (kind, op) = none) (hmoney : money row.amount = .ok ())
    (hkind : row.kind = .payin → kind = .settle) {middle wallets : Dict String Wallet}
    (hdebit : moveFunds s.wallets (kind.accounts row).1 (-row.amount) = .ok middle)
    (hcredit : moveFunds middle (kind.accounts row).2 row.amount = .ok wallets) :
    ∃ t, post s op kind (kind.accounts row).1 (kind.accounts row).2 row.amount provider = .ok t := by
  have hfind : findOperation s op none = .ok row := by simp [findOperation, hget]
  refine ⟨{ s with
    wallets := wallets, ledger := s.ledger.set (kind, op) (posting op kind provider row) }, ?_⟩
  refine bind_eq_ok.mpr ⟨(), hmoney, bind_eq_ok.mpr ⟨row, hfind, bind_eq_ok.mpr ⟨(), ?_, ?_⟩⟩⟩
  · exact require_eq_ok.mpr ⟨rfl, rfl, hkind⟩
  · simp only [hfresh]
    exact bind_eq_ok.mpr ⟨middle, hdebit, bind_eq_ok.mpr ⟨wallets, hcredit, rfl⟩⟩

/-- What an open payout or refund holds is there. -/
theorem Books.covered (hb : Books s) {op : String} {row : Operation} {w : Wallet}
    (hget : s.operations.get? op = some row) (hopen : row.status.terminal = false) (hk : row.kind ≠ .payin)
    (hw : s.wallets.get? row.merchant = some w) : row.amount ≤ w.held := by
  have hnonneg : ∀ r ∈ s.operations.values, 0 ≤ Operation.holds row.merchant r := by
    intro r hr
    obtain ⟨id, hid⟩ := mem_values.mp hr
    have := hb.amount hid
    unfold Operation.holds
    split
    · exact this.le
    · exact le_rfl
  have hle : Operation.holds row.merchant row ≤ heldBy s row.merchant :=
    single_le_sum (fun x hx => by
      obtain ⟨r, hr, rfl⟩ := mem_map.mp hx
      exact hnonneg r hr) _ (mem_map_of_mem (mem_values.mpr ⟨op, hget⟩))
  rw [holds_open hopen, if_neg hk] at hle
  rw [hb.pending hw]
  exact hle

/-- A receipt can be posted on an open operation. -/
theorem postReceipt_ok (hb : Books s) {row : Operation} (hget : s.operations.get? r.id = some row)
    (hopen : row.status.terminal = false) (hmoney : money row.amount = .ok ()) :
    ∃ t, postReceipt s row r = .ok t := by
  obtain ⟨hnosettle, hnorelease⟩ := hb.open_ledger hget hopen
  obtain ⟨w, hw⟩ := hb.wallet hget
  obtain ⟨havailable, hheld⟩ := hb.nonneg hw
  have hamount := hb.amount hget
  unfold postReceipt
  cases hr : r.status with
  | pending => exact ⟨s, rfl⟩
  | succeeded =>
    by_cases hk : row.kind = .payin
    · have haccounts : PostingKind.settle.accounts row = (.clearing, .available row.merchant) := by
        simp [PostingKind.accounts, hk]
      have hcredit := @moveAvailable_ok s.wallets row.merchant w row.amount hw (by linarith)
      have hpost := @post_ok τ s r.id row .settle (some r.providerId) hget hnosettle hmoney
        (fun _ => rfl) s.wallets _ (by rw [haccounts]; rfl) (by rw [haccounts]; exact hcredit)
      rw [haccounts] at hpost
      simpa only [hk, if_true] using hpost
    · have haccounts : PostingKind.settle.accounts row = (.held row.merchant, .clearing) := by
        simp [PostingKind.accounts, hk]
      have hcovered := hb.covered hget hopen hk hw
      have hdebit := @moveHeld_ok s.wallets row.merchant w (-row.amount) hw (by linarith)
      have hpost := @post_ok τ s r.id row .settle (some r.providerId) hget hnosettle hmoney
        (fun h => absurd h hk) _ _ (by rw [haccounts]; exact hdebit) (by rw [haccounts]; rfl)
      rw [haccounts] at hpost
      simpa only [hk, if_false] using hpost
  | failed =>
    by_cases hk : row.kind = .payin
    · exact ⟨s, by simp only [hk, if_true]⟩
    · have hcovered := hb.covered hget hopen hk hw
      have hdebit := @moveHeld_ok s.wallets row.merchant w (-row.amount) hw (by linarith)
      have hcredit := @moveAvailable_ok _ row.merchant _ row.amount
        (get?_set_self s.wallets row.merchant { w with held := w.held + -row.amount })
        (by simpa using by linarith)
      have hpost := @post_ok τ s r.id row .release (some r.providerId) hget hnorelease hmoney
        (fun h => absurd h hk) _ _ hdebit hcredit
      simp only [hk, if_false]
      exact hpost

/-! ### Histories and schedules -/

/-- The receipts a provider issues for an operation, the terminal one last. -/
structure History (e : Settings τ) (op : String) (row : Operation) (earlier : List Receipt)
    (last : Receipt) : Prop where
  numbered : ∀ {i : ℕ} {r}, (earlier ++ [last])[i]? = some r → r.revision = i + 1
  pending : ∀ {r}, r ∈ earlier → r.status = .pending
  terminal : last.status ≠ .pending
  provider : ∀ {r}, r ∈ earlier → r.providerId = last.providerId
  issued : ∀ {r}, r ∈ earlier ++ [last] → r.id = op ∧ r.terms = row.terms
  valid : ∀ {r}, r ∈ earlier ++ [last] → receiptCopy e r = .ok ()

namespace History

variable {e : Settings τ} {op : String} {row : Operation} {earlier : List Receipt}
  {last r r' : Receipt}

theorem eq_of_revision (h : History e op row earlier last) (hr : r ∈ earlier ++ [last])
    (hr' : r' ∈ earlier ++ [last]) (heq : r.revision = r'.revision) : r = r' := by
  obtain ⟨i, hi⟩ := mem_iff_getElem?.mp hr
  obtain ⟨j, hj⟩ := mem_iff_getElem?.mp hr'
  rw [h.numbered hi, h.numbered hj] at heq
  obtain rfl : i = j := by omega
  exact Option.some.inj (hi.symm.trans hj)

theorem last_revision (h : History e op row earlier last) : last.revision = earlier.length + 1 := by
  apply h.numbered (i := earlier.length)
  rw [getElem?_append_right le_rfl]
  simp

theorem earlier_revision (h : History e op row earlier last) (hr : r ∈ earlier) : r.revision < last.revision := by
  obtain ⟨i, hi⟩ := mem_iff_getElem?.mp hr
  have hlt : i < earlier.length := (List.getElem?_eq_some_iff.mp hi).1
  have hrev := h.numbered (i := i) (r := r) (by rw [getElem?_append_left hlt]; exact hi)
  rw [hrev, h.last_revision]
  omega

theorem revision_pos (h : History e op row earlier last) (hr : r ∈ earlier ++ [last]) : 0 < r.revision := by
  obtain ⟨i, hi⟩ := mem_iff_getElem?.mp hr
  rw [h.numbered hi]
  omega

theorem mem_last : last ∈ earlier ++ [last] := mem_append_right _ mem_cons_self

theorem mem_earlier (hr : r ∈ earlier) : r ∈ earlier ++ [last] := mem_append_left _ hr

theorem providerId_eq (h : History e op row earlier last) (hr : r ∈ earlier ++ [last]) :
    r.providerId = last.providerId := by
  rcases mem_append.mp hr with hr | hr
  · exact h.provider hr
  · rw [mem_singleton.mp hr]

end History

/-! ### The progress of an operation -/

section Progress

variable {e : Settings τ} {op : String} {row : Operation} {earlier : List Receipt}
  {last : Receipt} {s₀ t : Store τ}

/-- The operation waits for its last receipt; no funds have moved. -/
structure Waiting (op : String) (row : Operation) (earlier : List Receipt) (last : Receipt)
    (s₀ s : Store τ) (cur : Operation) : Prop where
  found : s.operations.get? op = some cur
  terms : cur.terms = row.terms
  isOpen : cur.status.terminal = false
  provider : cur.providerId = none ∨ cur.providerId = some last.providerId
  revision : (cur.revision = 0 ∧ cur.status ≠ .pending) ∨
    ∃ r ∈ earlier, cur.revision = r.revision ∧ cur.checkout = r.checkout
  wallets : s.wallets = s₀.wallets
  ledger : s.ledger = s₀.ledger

/-- The last receipt has closed the operation; `t` has its posting. -/
structure Closed (op : String) (row : Operation) (last : Receipt) (t s : Store τ) : Prop where
  found : ∃ cur, s.operations.get? op = some cur ∧ cur.terms = row.terms ∧
    cur.status = last.status.status ∧ cur.revision = last.revision ∧
    cur.checkout = last.checkout ∧ cur.providerId = some last.providerId
  wallets : s.wallets = t.wallets
  ledger : s.ledger = t.ledger

/-- What holds between two steps of a schedule, the inbox apart. -/
structure Progress (op : String) (row : Operation) (earlier : List Receipt) (last : Receipt)
    (s₀ t s : Store τ) : Prop where
  books : Books s
  versions : ∀ {rev hash}, s.versions.get? (op, rev) = some hash →
    ∃ r ∈ earlier ++ [last], r.revision = rev ∧ hash = digest r.toJson
  others : ∀ {id other}, s.operations.get? id = some other → other.providerId = some last.providerId → id = op
  reviews : ∀ {id v}, s.reviews.get? id = some v → s₀.reviews.get? id = some v ∨ v.reason = "RETRY_EXHAUSTED"
  phase : (∃ cur, Waiting op row earlier last s₀ s cur) ∨ Closed op row last t s

theorem terminal_status (h : r.status ≠ .pending) : r.status.status.terminal = true := by
  cases hr : r.status with
  | pending => exact absurd hr h
  | succeeded => rfl
  | failed => rfl

/-- A job step leaves a closed operation closed and a waiting one waiting. -/
theorem Closed.jobStep (h : Closed op row last t s) (hterminal : last.status ≠ .pending) (hstep : JobStep s s') :
    Closed op row last t s' := by
  obtain ⟨⟨cur, hget, hcur⟩, hwallets, hledger⟩ := h
  refine ⟨⟨cur, ?_, hcur⟩, hstep.wallets.trans hwallets, hstep.ledger.trans hledger⟩
  rcases hstep.operations with heq | ⟨id, other, hother, hopen, heq⟩
  · rw [heq, hget]
  · have hne : op ≠ id := by
      rintro rfl
      obtain rfl := Option.some.inj (hget.symm.trans hother)
      rw [hcur.2.1, terminal_status hterminal] at hopen
      cases hopen
    rw [heq, get?_set_of_ne _ hne, hget]

theorem Waiting.jobStep (h : Waiting op row earlier last s₀ s cur) (hstep : JobStep s s') :
    ∃ cur', Waiting op row earlier last s₀ s' cur' := by
  obtain ⟨hget, hterms, hopen, hprovider, hrevision, hwallets, hledger⟩ := h
  have hwallets' := hstep.wallets.trans hwallets
  have hledger' := hstep.ledger.trans hledger
  rcases hstep.operations with heq | ⟨id, other, hother, hopen', heq⟩
  · exact ⟨cur, by rw [heq, hget], hterms, hopen, hprovider, hrevision, hwallets', hledger'⟩
  · by_cases hid : op = id
    · subst hid
      obtain rfl := Option.some.inj (hget.symm.trans hother)
      refine ⟨{ cur with status := .unknown }, by rw [heq, get?_set_self], hterms, rfl,
        hprovider, ?_, hwallets', hledger'⟩
      exact hrevision.imp_left fun hrev => ⟨hrev.1, nofun⟩
    · exact ⟨cur, by rw [heq, get?_set_of_ne _ hid, hget], hterms, hopen, hprovider,
        hrevision, hwallets', hledger'⟩

theorem Progress.jobStep (h : Progress op row earlier last s₀ t s) (hterminal : last.status ≠ .pending)
    (hstep : JobStep s s') (hbooks : Books s') : Progress op row earlier last s₀ t s' := by
  constructor
  · exact hbooks
  · rw [hstep.versions]
    exact h.versions
  · intro id other hget hprovider
    rcases hstep.operations with heq | ⟨id', row', hrow', -, heq⟩
    · rw [heq] at hget
      exact h.others hget hprovider
    · rw [heq] at hget
      rcases get?_set_cases hget with ⟨rfl, rfl⟩ | ⟨-, hget⟩
      · exact h.others hrow' hprovider
      · exact h.others hget hprovider
  · intro id v hv
    rcases hstep.reviews hv with hv | hv
    · exact h.reviews hv
    · exact .inr hv
  · rcases h.phase with ⟨cur, hcur⟩ | hclosed
    · exact .inl (hcur.jobStep hstep)
    · exact .inr (hclosed.jobStep hterminal hstep)

/-! ### Delivering a receipt -/

theorem Closed.frame (h : Closed op row last t s) (hframe : Frame s s') : Closed op row last t s' := by
  obtain ⟨hfound, hwallets, hledger⟩ := h
  refine ⟨?_, hframe.wallets.trans hwallets, hframe.ledger.trans hledger⟩
  rw [hframe.operations]
  exact hfound

theorem Waiting.frame (h : Waiting op row earlier last s₀ s cur) (hframe : Frame s s') :
    Waiting op row earlier last s₀ s' cur := by
  obtain ⟨hfound, hterms, hopen, hprovider, hrevision, hwallets, hledger⟩ := h
  exact ⟨by rw [hframe.operations, hfound], hterms, hopen, hprovider, hrevision,
    hframe.wallets.trans hwallets, hframe.ledger.trans hledger⟩

theorem recordVersion_reviews (s : Store τ) (r : Receipt) : (recordVersion s r).reviews = s.reviews := by
  unfold recordVersion
  split <;> rfl

/-- The recorded version of a receipt of the history. -/
theorem Progress.recordVersion (h : Progress op row earlier last s₀ t s) (hr : r ∈ earlier ++ [last]) :
    Progress op row earlier last s₀ t (recordVersion s r) := by
  have hframe := recordVersion_frame s r
  constructor
  · exact hframe.change.books h.books
  · intro rev hash hv
    rcases recordVersion_versions hv with hv | ⟨hid, rfl⟩
    · exact h.versions hv
    · exact ⟨r, hr, (congrArg Prod.snd hid).symm, rfl⟩
  · rw [hframe.operations]
    exact h.others
  · rw [recordVersion_reviews]
    exact h.reviews
  · rcases h.phase with ⟨cur, hcur⟩ | hclosed
    · exact .inl ⟨cur, hcur.frame hframe⟩
    · exact .inr (hclosed.frame hframe)

theorem recordEvent_inbox {hash : String} {res : Result}
    (h : (recordEvent s r result event).inbox.get? id = some (hash, res)) :
    s.inbox.get? id = some (hash, res) ∨ event = some id ∧ hash = digest r.toJson := by
  cases event with
  | none => exact .inl h
  | some event =>
    rcases get?_set_cases h with ⟨rfl, heq⟩ | ⟨-, h⟩
    · exact .inr ⟨rfl, congrArg Prod.fst heq⟩
    · exact .inl h

theorem Progress.recordEvent (h : Progress op row earlier last s₀ t s) (r : Receipt) (result : Result)
    (event : Option String) : Progress op row earlier last s₀ t (recordEvent s r result event) := by
  have hframe := recordEvent_frame s r result event
  have hrest : (Payment.recordEvent s r result event).versions = s.versions ∧
      (Payment.recordEvent s r result event).reviews = s.reviews := by
    cases event <;> exact ⟨rfl, rfl⟩
  constructor
  · exact hframe.change.books h.books
  · rw [hrest.1]
    exact h.versions
  · rw [hframe.operations]
    exact h.others
  · rw [hrest.2]
    exact h.reviews
  · rcases h.phase with ⟨cur, hcur⟩ | hclosed
    · exact .inl ⟨cur, hcur.frame hframe⟩
    · exact .inr (hclosed.frame hframe)

/-- The guards a receipt of the history always passes. -/
theorem judge_consistent (hist : History e op row earlier last) (h : Progress op row earlier last s₀ t s)
    (hterms : cur.terms = row.terms) (hprovider : cur.providerId = none ∨ cur.providerId = some last.providerId)
    (hr : r ∈ earlier ++ [last]) : judge s cur r =
      if r.revision < cur.revision then .ignored "older revision"
      else if cur.status.terminal then
        if r.status.status ≠ cur.status then .review "TERMINAL_CONFLICT"
        else .ignored "already terminal"
      else if r.revision = cur.revision ∧ cur.status ≠ .unknown ∧ cur.status ≠ .created then
        if r.status.status ≠ cur.status ∨ r.checkout ≠ cur.checkout then
          .review "REVISION_CONFLICT"
        else .ignored "already applied revision"
      else .apply := by
  obtain ⟨hid, hrterms⟩ := hist.issued hr
  have hpid := hist.providerId_eq hr
  have hmatch : ¬ (cur.terms ≠ r.terms ∨ (cur.providerId.isSome ∧ cur.providerId ≠ some r.providerId)) := by
    rintro (hne | ⟨hsome, hne⟩)
    · exact hne (hterms.trans hrterms.symm)
    · rcases hprovider with hnone | hsame
      · rw [hnone] at hsome
        cases hsome
      · exact hne (by rw [hsame, hpid])
  have hunused : ¬ (s.operations.entries.any fun entry =>
    entry.2.providerId = some r.providerId && entry.1 ≠ r.id) = true := by
    rw [any_eq_true]
    rintro ⟨⟨id, other⟩, hmem, hentry⟩
    simp only [Bool.and_eq_true, decide_eq_true_eq] at hentry
    rw [hpid] at hentry
    exact hentry.2 ((h.others (mem_entries.mp hmem) hentry.1).trans hid.symm)
  have hversion : ¬ ((s.versions.get? (r.id, r.revision)).any fun hash => hash ≠ digest r.toJson) = true := by
    rw [hid]
    cases hv : s.versions.get? (op, r.revision) with
    | none => simp
    | some hash =>
      obtain ⟨r', hr', hrev, rfl⟩ := h.versions hv
      obtain rfl := hist.eq_of_revision hr' hr hrev
      simp
  unfold judge
  simp only [Operation.terms, Receipt.terms] at hmatch
  rw [if_neg hmatch, if_neg hunused, if_neg hversion]

theorem advance_pending {s : Store τ} {now : τ} {cur : Operation} {r : Receipt} (hr : r.status = .pending) :
    advance s now cur r = .ok { s with operations := s.operations.set r.id (cur.after r) } := by
  simp [advance, postReceipt, hr, bind, Except.bind, pure, Except.pure, Operation.after]

theorem advance_terminal {s s₁ : Store τ} {now : τ} {cur : Operation} {r : Receipt}
    (hr : r.status ≠ .pending) (hpost : postReceipt s cur r = .ok s₁) :
    advance s now cur r = .ok (enqueue (closeJob
      { s₁ with operations := s₁.operations.set r.id (cur.after r) } (.execute r.id)) (.notify r.id) now) := by
  simp [advance, hpost, hr, bind, Except.bind, pure, Except.pure, Operation.after]

theorem recordVersion_inbox (s : Store τ) (r : Receipt) : (recordVersion s r).inbox = s.inbox := by
  unfold recordVersion
  split <;> rfl

/-- The operation after a receipt of the history, with the rest of the store as it was. -/
theorem Progress.advanced (h : Progress op row earlier last s₀ t s) (hbooks : Books s')
    (hversions : s'.versions = s.versions) (hreviews : s'.reviews = s.reviews)
    (hoperations : s'.operations = s.operations.set op (cur.after r))
    (hphase : (∃ cur, Waiting op row earlier last s₀ s' cur) ∨ Closed op row last t s') :
    Progress op row earlier last s₀ t s' := by
  constructor
  · exact hbooks
  · rw [hversions]
    exact h.versions
  · intro id other hget hprovider
    rw [hoperations] at hget
    rcases get?_set_cases hget with ⟨rfl, -⟩ | ⟨-, hget⟩
    · rfl
    · exact h.others hget hprovider
  · rw [hreviews]
    exact h.reviews
  · exact hphase

theorem advance_waiting (hist : History e op row earlier last) (hget₀ : s₀.operations.get? op = some row)
    (hpost : postReceipt s₀ row last = .ok t) (h : Progress op row earlier last s₀ t s)
    (hcur : Waiting op row earlier last s₀ s cur) (hr : r ∈ earlier ++ [last]) (now : τ) :
    ∃ s', advance s now cur r = .ok s' ∧ Progress op row earlier last s₀ t s' ∧
      s'.inbox = s.inbox ∧ (r = last → Closed op row last t s') := by
  obtain ⟨rfl, hrterms⟩ := hist.issued hr
  have hbooks : ∀ {s'}, advance s now cur r = .ok s' → Books s' := fun hs' =>
    (advance_change hs' h.books hcur.found hcur.isOpen).books h.books
  by_cases hlast : r = last
  · subst hlast
    have hpost' := postReceipt_transfer hcur.wallets hcur.ledger hget₀ hcur.found hcur.terms hpost
    have hadvance := @advance_terminal τ s _ now cur r hist.terminal hpost'
    obtain ⟨hv, hrv, hi⟩ := closeJob_rest { s with
      wallets := t.wallets, ledger := t.ledger,
      operations := s.operations.set r.id (cur.after r) } (.execute r.id)
    obtain ⟨hv', hrv', hi'⟩ := enqueue_rest (closeJob { s with
      wallets := t.wallets, ledger := t.ledger,
      operations := s.operations.set r.id (cur.after r) } (.execute r.id)) (.notify r.id) now
    have hframe := (closeJob_frame { s with
      wallets := t.wallets, ledger := t.ledger,
      operations := s.operations.set r.id (cur.after r) } (.execute r.id)).trans
      (enqueue_frame _ (.notify r.id) now)
    have hwritten : Closed r.id row r t { s with
        wallets := t.wallets, ledger := t.ledger,
        operations := s.operations.set r.id (cur.after r) } :=
      ⟨⟨cur.after r, get?_set_self _ _ _, hcur.terms, rfl, rfl, rfl, rfl⟩, rfl, rfl⟩
    have hclosed := hwritten.frame hframe
    exact ⟨_, hadvance, h.advanced (hbooks hadvance) (hv'.trans hv) (hrv'.trans hrv)
      hframe.operations (.inr hclosed), hi'.trans hi, fun _ => hclosed⟩
  · have hearlier : r ∈ earlier := by
      rcases mem_append.mp hr with hr | hr
      · exact hr
      · exact absurd (mem_singleton.mp hr) hlast
    have hpending := hist.pending hearlier
    have hadvance := @advance_pending τ s now cur r hpending
    refine ⟨_, hadvance, h.advanced (hbooks hadvance) rfl rfl rfl (.inl ?_), rfl, fun heq => absurd heq hlast⟩
    refine ⟨cur.after r, get?_set_self _ _ _, hcur.terms, ?_, ?_, ?_, hcur.wallets, hcur.ledger⟩
    · simp [Operation.after, hpending, ReceiptStatus.status, Status.terminal]
    · exact .inr (by rw [Operation.after, hist.provider hearlier])
    · exact .inr ⟨r, hearlier, rfl, rfl⟩

/-- A receipt of the history is applied or ignored; the last one closes the operation. -/
theorem applyTo_progress (hist : History e op row earlier last) (hget₀ : s₀.operations.get? op = some row)
    (hpost : postReceipt s₀ row last = .ok t) (h : Progress op row earlier last s₀ t s) (hr : r ∈ earlier ++ [last])
    (now : τ) : ∃ s' result, applyTo s now r = .ok (s', result) ∧ Progress op row earlier last s₀ t s' ∧
      s'.inbox = s.inbox ∧ (r = last ∨ Closed op row last t s → Closed op row last t s') := by
  obtain ⟨hid, -⟩ := hist.issued hr
  have hignored : ∀ {cur text}, s.operations.get? op = some cur → judge s cur r = .ignored text →
      applyTo s now r = .ok (recordVersion s r, ⟨false, false, none, some text⟩) := by
    intro cur text hget hjudge
    simp only [applyTo, hid, hget, hjudge]
  rcases h.phase with ⟨cur, hcur⟩ | hclosed
  · have hjudge := judge_consistent hist h hcur.terms hcur.provider hr
    have hnotclosed : ¬ Closed op row last t s := by
      rintro ⟨⟨cur', hget', -, hstatus, -⟩, -, -⟩
      obtain rfl := Option.some.inj (hcur.found.symm.trans hget')
      have hopen := hcur.isOpen
      rw [hstatus, terminal_status hist.terminal] at hopen
      cases hopen
    by_cases hold : r.revision < cur.revision
    · rw [if_pos hold] at hjudge
      refine ⟨_, _, hignored hcur.found hjudge, h.recordVersion hr, recordVersion_inbox s r, ?_⟩
      rintro (rfl | hc)
      · rcases hcur.revision with ⟨hzero, -⟩ | ⟨r', hr', hrev, -⟩
        · have := hist.revision_pos hr
          omega
        · have := hist.earlier_revision hr'
          omega
      · exact absurd hc hnotclosed
    · rw [if_neg hold, hcur.isOpen] at hjudge
      simp only [Bool.false_eq_true, if_false] at hjudge
      by_cases hsame : r.revision = cur.revision ∧ cur.status ≠ .unknown ∧ cur.status ≠ .created
      · -- the operation is pending at this very revision
        rw [if_pos hsame] at hjudge
        have hpending : cur.status = .pending := by
          have hopen := hcur.isOpen
          cases hs : cur.status with
          | created => exact absurd hs hsame.2.2
          | pending => rfl
          | unknown => exact absurd hs hsame.2.1
          | succeeded => rw [hs] at hopen; cases hopen
          | failed => rw [hs] at hopen; cases hopen
        obtain ⟨r', hr', hrev, hcheckout⟩ := hcur.revision.resolve_left fun hz => hz.2 hpending
        obtain rfl := hist.eq_of_revision hr (History.mem_earlier hr') (hsame.1.trans hrev)
        have hstatus : r.status.status = cur.status := by
          rw [hist.pending hr', hpending]
          rfl
        rw [if_neg (by simp [hstatus, hcheckout])] at hjudge
        refine ⟨_, _, hignored hcur.found hjudge, h.recordVersion hr, recordVersion_inbox s r, ?_⟩
        rintro (rfl | hc)
        · exact absurd (hist.earlier_revision hr') (lt_irrefl _)
        · exact absurd hc hnotclosed
      · rw [if_neg hsame] at hjudge
        obtain ⟨s', hs', hprogress, hinbox, hclosed⟩ := advance_waiting hist hget₀ hpost h hcur hr now
        refine ⟨recordVersion s' r, ⟨true, false, none, none⟩, ?_, hprogress.recordVersion hr,
          (recordVersion_inbox s' r).trans hinbox, ?_⟩
        · simp only [applyTo, hid, hcur.found, hjudge]
          exact bind_eq_ok.mpr ⟨s', hs', rfl⟩
        · rintro (hlast | hc)
          · exact (hclosed hlast).frame (recordVersion_frame s' r)
          · exact absurd hc hnotclosed
  · obtain ⟨⟨cur, hget, hterms, hstatus, hrevision, hcheckout, hprovider⟩, -, -⟩ := id hclosed
    have hjudge := judge_consistent hist h hterms (.inr hprovider) hr
    have hterminal : cur.status.terminal = true := by
      rw [hstatus, terminal_status hist.terminal]
    have hverdict : ∃ text, judge s cur r = .ignored text := by
      rw [hjudge]
      by_cases hold : r.revision < cur.revision
      · exact ⟨_, if_pos hold⟩
      · -- only the last receipt is not older than the operation
        have hlast : r = last := by
          rcases mem_append.mp hr with hr' | hr'
          · have := hist.earlier_revision hr'
            omega
          · exact mem_singleton.mp hr'
        rw [if_neg hold, if_pos hterminal, hlast, if_neg (by simp [hstatus])]
        exact ⟨_, rfl⟩
    obtain ⟨text, htext⟩ := hverdict
    exact ⟨_, _, hignored hget htext, h.recordVersion hr, recordVersion_inbox s r,
      fun _ => hclosed.frame (recordVersion_frame s r)⟩

/-! ### Schedules -/

/-- Deliveries and job calls of a schedule: every delivery is of a receipt of the history,
an event id names one receipt and no event seen before, and the last receipt is delivered. -/
structure Schedule (earlier : List Receipt) (last : Receipt) (s₀ : Store τ)
    (content : String → Receipt) (steps : List (τ × Call)) : Prop where
  calls : ∀ {now call}, (now, call) ∈ steps → call.isJob = true ∨
    ∃ r event, call = .apply r event ∧ r ∈ earlier ++ [last] ∧ optional identifier event = .ok ()
  events : ∀ {now r event}, (now, Call.apply r (some event)) ∈ steps → content event = r ∧ s₀.inbox.get? event = none
  delivered : ∃ now event, (now, Call.apply last event) ∈ steps

/-- The events of the schedule in the inbox name receipts that were taken. -/
def EventsTaken (op : String) (row : Operation) (last : Receipt) (s₀ t : Store τ)
    (content : String → Receipt) (s : Store τ) : Prop :=
  ∀ {event hash result}, s.inbox.get? event = some (hash, result) →
    s₀.inbox.get? event = some (hash, result) ∨
      hash = digest (content event).toJson ∧ (content event = last → Closed op row last t s)

def runAll [LinearOrder τ] (e : Settings τ) (steps : List (τ × Call)) (s : Store τ) : Store τ :=
  steps.foldl (fun s step => (perform e step.1 step.2 s).1) s

variable [LinearOrder τ] {content : String → Receipt}

theorem deliver_progress (hist : History e op row earlier last) (hget₀ : s₀.operations.get? op = some row)
    (hpost : postReceipt s₀ row last = .ok t) (h : Progress op row earlier last s₀ t s)
    (htaken : EventsTaken op row last s₀ t content s) (hr : r ∈ earlier ++ [last])
    (hevent : optional identifier event = .ok ())
    (hcontent : ∀ {id}, event = some id → content id = r ∧ s₀.inbox.get? id = none) (now : τ) :
    Progress op row earlier last s₀ t (perform e now (.apply r event) s).1 ∧
      EventsTaken op row last s₀ t content (perform e now (.apply r event) s).1 ∧
      (r = last ∨ Closed op row last t s → Closed op row last t (perform e now (.apply r event) s).1) := by
  have hrun : ∀ {s' result}, apply e now r event s = .ok (s', result) → (perform e now (.apply r event) s).1 = s' := by
    intro s' result happly
    simp [perform, transaction, Call.run, answer, happly, Except.map]
  cases hseen : event.bind s.inbox.get? with
  | some entry =>
    obtain ⟨hash, result⟩ := entry
    obtain ⟨id, rfl, hid⟩ := Option.bind_eq_some_iff.mp hseen
    obtain ⟨hcontent, hnew⟩ := hcontent rfl
    obtain ⟨hhash, hclosed⟩ := (htaken hid).resolve_left fun hold => by
      rw [hnew] at hold
      cases hold
    rw [hcontent] at hhash hclosed
    have happly : apply e now r (some id) s = .ok (s, { result with duplicate := true }) := by
      simp only [apply, hist.valid hr, hevent, hseen]
      exact bind_eq_ok.mpr ⟨(), rfl, bind_eq_ok.mpr ⟨(), rfl, bind_eq_ok.mpr ⟨(), require_eq_ok.mpr hhash, rfl⟩⟩⟩
    rw [hrun happly]
    exact ⟨h, htaken, fun hlast => hlast.elim hclosed fun hc => hc⟩
  | none =>
    obtain ⟨s', result, hs', hprogress, hinbox, hclosed⟩ := applyTo_progress hist hget₀ hpost h hr now
    have happly : apply e now r event s = .ok (recordEvent s' r result event, result) := by
      simp only [apply, hist.valid hr, hevent, hseen]
      exact bind_eq_ok.mpr ⟨(), rfl, bind_eq_ok.mpr ⟨(), rfl, bind_eq_ok.mpr ⟨(s', result), hs', rfl⟩⟩⟩
    rw [hrun happly]
    have hframe := recordEvent_frame s' r result event
    have hkept : r = last ∨ Closed op row last t s → Closed op row last t (recordEvent s' r result event) :=
      fun hlast => (hclosed hlast).frame hframe
    refine ⟨hprogress.recordEvent r result event, ?_, hkept⟩
    intro id hash res hid
    rcases recordEvent_inbox hid with hid | ⟨rfl, rfl⟩
    · rw [hinbox] at hid
      exact (htaken hid).imp_right fun hold => ⟨hold.1, fun hlast => hkept (.inr (hold.2 hlast))⟩
    · obtain ⟨rfl, -⟩ := hcontent rfl
      exact .inr ⟨rfl, fun hlast => hkept (.inl hlast)⟩

/-- A step of the schedule keeps the progress, and a delivery of the last receipt closes it. -/
theorem step_progress (hist : History e op row earlier last)
    (hget₀ : s₀.operations.get? op = some row) (hpost : postReceipt s₀ row last = .ok t)
    {s : Store τ} (h : Progress op row earlier last s₀ t s)
    (htaken : EventsTaken op row last s₀ t content s) {now : τ} {call : Call}
    (hcall : call.isJob = true ∨ ∃ r event, call = .apply r event ∧ r ∈ earlier ++ [last] ∧
      optional identifier event = .ok ())
    (hevents : ∀ {r event}, call = .apply r (some event) → content event = r ∧ s₀.inbox.get? event = none) :
    Progress op row earlier last s₀ t (perform e now call s).1 ∧
      EventsTaken op row last s₀ t content (perform e now call s).1 ∧
      ((∃ event, call = .apply last event) ∨ Closed op row last t s →
        Closed op row last t (perform e now call s).1) := by
  rcases hcall with hjob | ⟨r, event, rfl, hr, hevent⟩
  · have hstep := perform_jobStep e now s hjob
    have hclosed := fun hc : Closed op row last t s => hc.jobStep hist.terminal hstep
    refine ⟨h.jobStep hist.terminal hstep ((perform_change now call h.books).books h.books), ?_, ?_⟩
    · intro event hash result hget
      rw [hstep.inbox] at hget
      exact (htaken hget).imp_right fun hold => ⟨hold.1, fun hlast => hclosed (hold.2 hlast)⟩
    · rintro (⟨event, rfl⟩ | hc)
      · cases hjob
      · exact hclosed hc
  · obtain ⟨hprogress, htaken', hclosed⟩ := deliver_progress hist hget₀ hpost h htaken hr hevent
      (fun hid => hevents (by rw [hid])) now
    refine ⟨hprogress, htaken', ?_⟩
    rintro (⟨event', heq⟩ | hc)
    · exact hclosed (.inl (Call.apply.inj heq).1)
    · exact hclosed (.inr hc)

theorem runAll_progress (hist : History e op row earlier last) (hget₀ : s₀.operations.get? op = some row)
    (hpost : postReceipt s₀ row last = .ok t) {steps : List (τ × Call)}
    (hcalls : ∀ {now call}, (now, call) ∈ steps → call.isJob = true ∨ ∃ r event, call = .apply r event ∧ r ∈ earlier ++ [last] ∧ optional identifier event = .ok ())
    (hevents : ∀ {now r event}, (now, Call.apply r (some event)) ∈ steps → content event = r ∧ s₀.inbox.get? event = none)
    (h : Progress op row earlier last s₀ t s) (htaken : EventsTaken op row last s₀ t content s) :
    Progress op row earlier last s₀ t (runAll e steps s) ∧
      ((∃ now event, (now, Call.apply last event) ∈ steps) ∨ Closed op row last t s →
        Closed op row last t (runAll e steps s)) := by
  induction steps generalizing s with
  | nil =>
    refine ⟨h, ?_⟩
    rintro (⟨now, event, hmem⟩ | hc)
    · cases hmem
    · exact hc
  | cons step steps ih =>
    obtain ⟨now, call⟩ := step
    obtain ⟨hprogress, htaken', hclosed⟩ := @step_progress τ e op row earlier last s₀ t _ content
      hist hget₀ hpost s h htaken now call (hcalls mem_cons_self)
      (fun heq => hevents (by rw [← heq]; exact mem_cons_self))
    obtain ⟨hfinal, hclosed'⟩ := ih (fun hmem => hcalls (mem_cons_of_mem _ hmem))
      (fun hmem => hevents (mem_cons_of_mem _ hmem)) hprogress htaken'
    refine ⟨hfinal, ?_⟩
    rintro (⟨now', event, hmem⟩ | hc)
    · rcases mem_cons.mp hmem with heq | hmem
      · exact hclosed' (.inr (hclosed (.inl ⟨event, (Prod.mk.inj heq).2.symm⟩)))
      · exact hclosed' (.inl ⟨now', event, hmem⟩)
    · exact hclosed' (.inr (hclosed (.inr hc)))

/-- Where every schedule ends: the operation as the last receipt says, with its posting. -/
theorem runAll_closed (hist : History e op row earlier last)
    (hget₀ : s₀.operations.get? op = some row) (hbooks : Books s₀) (htraces : Traces s₀)
    (hfresh : row.revision = 0)
    (hunused : ∀ id other, s₀.operations.get? id = some other → other.providerId = some last.providerId → id = op)
    (hpost : postReceipt s₀ row last = .ok t) {steps : List (τ × Call)}
    (h : Schedule earlier last s₀ content steps) :
    Closed op row last t (runAll e steps s₀) ∧ Progress op row earlier last s₀ t (runAll e steps s₀) := by
  obtain ⟨hopen, hnotpending, hprovider⟩ := htraces.fresh hget₀ hfresh
  have hstart : Progress op row earlier last s₀ t s₀ := by
    refine ⟨hbooks, ?_, fun hid hp => hunused _ _ hid hp, fun hv => .inl hv, .inl ⟨row, ?_⟩⟩
    · intro rev hash hv
      obtain ⟨row', hget, hrev⟩ := htraces.version hv
      obtain rfl := Option.some.inj (hget₀.symm.trans hget)
      exact absurd hfresh hrev
    · exact ⟨hget₀, rfl, hopen, .inl hprovider, .inl ⟨hfresh, hnotpending⟩, rfl, rfl⟩
  have htaken : EventsTaken op row last s₀ t content s₀ := fun hget => .inl hget
  obtain ⟨hprogress, hclosed⟩ := runAll_progress hist hget₀ hpost h.calls h.events hstart htaken
  exact ⟨hclosed (.inl h.delivered), hprogress⟩

end Progress

/-- Two schedules of the receipts of an operation end alike: with the status, revision and
checkout of the last receipt and the same ledger and wallets; only the job queue opens
reviews, for jobs it gives up. -/
theorem receipts_any_order [LinearOrder τ] (e : Settings τ) (merchants : List String)
    {s : Store τ} (hs : (service e merchants).Reachable s) {op : String} {row : Operation}
    (hget : s.operations.get? op = some row) (hfresh : row.revision = 0)
    {earlier : List Receipt} {last : Receipt} (hist : History e op row earlier last)
    (hunused : ∀ id other, s.operations.get? id = some other → other.providerId = some last.providerId → id = op)
    {content content' : String → Receipt} {steps steps' : List (τ × Call)}
    (h : Schedule earlier last s content steps) (h' : Schedule earlier last s content' steps') :
    (∃ cur cur', (runAll e steps s).operations.get? op = some cur ∧
      (runAll e steps' s).operations.get? op = some cur' ∧
      (cur.status, cur.revision, cur.checkout) = (last.status.status, last.revision, last.checkout) ∧
      (cur'.status, cur'.revision, cur'.checkout) = (last.status.status, last.revision, last.checkout)) ∧
    (runAll e steps s).ledger = (runAll e steps' s).ledger ∧
    (runAll e steps s).wallets = (runAll e steps' s).wallets ∧
    ∀ id v, (runAll e steps s).reviews.get? id = some v →
      s.reviews.get? id = some v ∨ v.reason = "RETRY_EXHAUSTED" := by
  have hbooks := reachable_books hs
  have htraces := reachable_traces hs
  have hmoney : money row.amount = .ok () := by
    obtain ⟨_, -, hvalid⟩ := of_bind (hist.valid History.mem_last)
    obtain ⟨_, -, hvalid⟩ := of_bind hvalid
    obtain ⟨_, -, hvalid⟩ := of_bind hvalid
    obtain ⟨_, hmoney, -⟩ := of_bind hvalid
    have hterms := (hist.issued History.mem_last).2
    have hamount : last.amount = row.amount := congrArg (fun terms => terms.2.2.2.1) hterms
    rw [← hamount]
    exact hmoney
  obtain ⟨rfl, -⟩ := id (hist.issued History.mem_last)
  obtain ⟨t, ht⟩ := postReceipt_ok (r := last) hbooks hget (htraces.fresh hget hfresh).1 hmoney
  obtain ⟨hclosed, hprogress⟩ := runAll_closed hist hget hbooks htraces hfresh hunused ht h
  obtain ⟨hclosed', -⟩ := runAll_closed hist hget hbooks htraces hfresh hunused ht h'
  obtain ⟨cur, hcur, -, hstatus, hrevision, hcheckout, -⟩ := hclosed.found
  obtain ⟨cur', hcur', -, hstatus', hrevision', hcheckout', -⟩ := hclosed'.found
  refine ⟨⟨cur, cur', hcur, hcur', ?_, ?_⟩, ?_, ?_, fun id v hv => hprogress.reviews hv⟩
  · rw [hstatus, hrevision, hcheckout]
  · rw [hstatus', hrevision', hcheckout']
  · rw [hclosed.ledger, hclosed'.ledger]
  · rw [hclosed.wallets, hclosed'.wallets]

/-! ### A job that is given up -/

theorem review_kept {op reason : String} {detail : Json} (h : s.reviews.get? id = some v) :
    (review s op reason detail).1.reviews.get? id = some v := by
  unfold review
  dsimp only
  split
  · exact h
  · rename_i hnone
    have hne : id ≠ digest (.arr [.str op, .str reason, detail]) := by
      rintro rfl
      rw [hnone] at h
      cases h
    rw [get?_set_of_ne _ hne, h]

theorem review_opened (s : Store τ) (op reason : String) (detail : Json) :
    ∃ id v, (review s op reason detail).1.reviews.get? id = some v := by
  unfold review
  dsimp only
  split
  · rename_i v hv
    exact ⟨_, v, hv⟩
  · exact ⟨_, _, get?_set_self _ _ _⟩

theorem deliver_reviews [LinearOrder τ] (e : Settings τ) (now : τ) (r : Receipt) (event : Option String)
    (h : s.reviews.get? id = some v) : (perform e now (.apply r event) s).1.reviews.get? id = some v := by
  rcases transaction_cases s (Call.run e now (.apply r event)) with ⟨s', reply, hok, heq⟩ |
    ⟨err, _, heq⟩
  · rw [perform, heq]
    obtain ⟨result, happly⟩ := answer_eq_ok hok
    obtain ⟨_, -, happly⟩ := of_bind happly
    obtain ⟨_, -, happly⟩ := of_bind happly
    split at happly
    · obtain ⟨_, -, happly⟩ := of_bind happly
      obtain ⟨rfl, -⟩ := Prod.mk.inj (Except.ok.inj happly)
      exact h
    · obtain ⟨⟨s₁, result₁⟩, hs₁, happly⟩ := of_bind happly
      obtain ⟨rfl, -⟩ := Prod.mk.inj (Except.ok.inj happly)
      have hrest : (recordEvent s₁ r result₁ event).reviews = s₁.reviews := by
        cases event <;> rfl
      dsimp only
      rw [hrest]
      unfold applyTo at hs₁
      split at hs₁
      · obtain ⟨rfl, -⟩ := Prod.mk.inj (Except.ok.inj hs₁)
        exact review_kept h
      · split at hs₁
        · obtain ⟨rfl, -⟩ := Prod.mk.inj (Except.ok.inj hs₁)
          exact review_kept h
        · obtain ⟨rfl, -⟩ := Prod.mk.inj (Except.ok.inj hs₁)
          rw [recordVersion_reviews]
          exact h
        · obtain ⟨s₂, hs₂, hs₁⟩ := of_bind hs₁
          obtain ⟨rfl, -⟩ := Prod.mk.inj (Except.ok.inj hs₁)
          rw [recordVersion_reviews, (advance_rest hs₂).2.2]
          exact h
  · rw [perform, heq]
    exact h

theorem noteFailure_jobs (s : Store τ) (id : JobId) (error : Option String) :
    (noteFailure s id error).jobs = s.jobs := by
  unfold noteFailure markUnknown
  split
  · split
    · split <;> rfl
    · rfl
  · rfl

theorem exhaust_opened (s : Store τ) (id : JobId) (error : Option String) :
    ∃ k v, (exhaust s id error).reviews.get? k = some v := by
  unfold exhaust
  rw [(failReconciliation_rest _ _ _).2.2]
  exact review_opened _ _ _ _

/-- The execute job of the payment has failed `n` times and is due again. -/
def Failing (n : ℕ) (s : Store ℕ) : Prop :=
  ∃ job : Job ℕ, s.jobs = Dict.empty.set (.execute "op") job ∧ job.status = .pending ∧
    job.failures = n ∧ job.due ≤ 100 * n

/-- The worker claims the job and reports an error. -/
def failure (n : ℕ) : List (ℕ × Call) :=
  [(100 * n, .claim 2 "token"), (100 * n, .finishJob (.execute "op") "token" false (some "timeout"))]

theorem claim_failing {n : ℕ} {s : Store ℕ} {job : Job ℕ}
    (hjobs : s.jobs = Dict.empty.set (.execute "op") job) (hstatus : job.status = .pending)
    (hdue : job.due ≤ 100 * n) :
    (perform seconds (100 * n) (.claim 2 "token") s).1 = { s with
      jobs := Dict.empty.set (.execute "op") { job with
        status := .inflight, attempts := job.attempts + 1, lease := some (100 * n + 2),
        token := "token" } } := by
  have hready : isReady (100 * n) job = true := by simp [isReady, hstatus, hdue]
  have hlease : seconds.plus (100 * n) 2 = 100 * n + 2 := by simp [seconds]
  simp [perform, transaction, Call.run, answer, claim, integer, require, hjobs, Dict.set,
    Dict.empty, Dict.overwrite, hready, hlease, bind, Except.bind, pure, Except.pure, Except.map]

theorem finish_failing {n : ℕ} {s : Store ℕ} {job : Job ℕ}
    (hjobs : s.jobs = Dict.empty.set (.execute "op") job) (hstatus : job.status = .inflight)
    (htoken : job.token = "token") (hlease : job.lease = some (100 * n + 2))
    (hfailures : job.failures = n) :
    (n < 4 → Failing (n + 1) (perform seconds (100 * n)
      (.finishJob (.execute "op") "token" false (some "timeout")) s).1) ∧
    (n = 4 → ∃ id v, (perform seconds (100 * n)
      (.finishJob (.execute "op") "token" false (some "timeout")) s).1.reviews.get? id = some v) := by
  have htext : identifier "token" = .ok () := by decide
  have hlength : "timeout".length ≤ 1000 := by decide
  have hdelay : ⌊retryDelay false (some "timeout") (n + 1)⌋.toNat ≤ 30 := by
    have hle : retryDelay false (some "timeout") (n + 1) ≤ 30 := by
      simp only [retryDelay, Option.isNone_some, Bool.and_false, Bool.false_eq_true, if_false]
      exact min_le_left _ _
    have hfloor : ⌊retryDelay false (some "timeout") (n + 1)⌋ ≤ 30 := (Int.floor_mono hle).trans (by norm_num)
    omega
  have hjob : s.jobs.get? (.execute "op") = some job := by rw [hjobs, get?_set_self]
  have hrun : (perform seconds (100 * n) (.finishJob (.execute "op") "token" false (some "timeout")) s).1 =
      { (if decide (5 ≤ n + 1) then exhaust (noteFailure s (.execute "op") (some "timeout"))
          (.execute "op") (some "timeout") else noteFailure s (.execute "op") (some "timeout")) with
        jobs := (if decide (5 ≤ n + 1) then exhaust (noteFailure s (.execute "op") (some "timeout"))
          (.execute "op") (some "timeout")
          else noteFailure s (.execute "op") (some "timeout")).jobs.set (.execute "op") { job with
            status := if decide (5 ≤ n + 1) then .dead else .pending, failures := n + 1,
            due := seconds.plus (100 * n) (retryDelay false (some "timeout") (n + 1)),
            error := shorten "timeout", lease := none, token := "" } } := by
    simp [perform, transaction, Call.run, answer, finishJob, htext, hlength, require, hjob, hstatus,
      htoken, hlease, hfailures, bind, Except.bind, pure, Except.pure, Except.map]
  have hset : ∀ a b : Job ℕ, (Dict.empty.set (.execute "op") a).set (.execute "op") b =
      Dict.empty.set (JobId.execute "op") b := fun a b => by
    simp [Dict.set, Dict.empty, Dict.overwrite]
  rw [hrun]
  constructor
  · intro hn
    have hfew : decide (5 ≤ n + 1) = false := by simpa using by omega
    simp only [hfew, Bool.false_eq_true, if_false, noteFailure_jobs, hjobs]
    refine ⟨_, hset _ _, rfl, rfl, ?_⟩
    simp only [seconds]
    omega
  · rintro rfl
    simp only [show decide (5 ≤ 4 + 1) = true from rfl, if_true]
    exact exhaust_opened _ _ _

/-- Five failures, then the receipt. -/
def fiveFailures : List (ℕ × Call) :=
  (failure 0 ++ failure 1 ++ failure 2 ++ failure 3 ++ failure 4) ++ [(1000, .apply paid none)]

theorem failing_round {n : ℕ} {s : Store ℕ} (h : Failing n s) :
    (n < 4 → Failing (n + 1) (runAll seconds (failure n) s)) ∧
    (n = 4 → ∃ id v, (runAll seconds (failure n) s).reviews.get? id = some v) := by
  obtain ⟨job, hjobs, hstatus, hfailures, hdue⟩ := h
  have hclaim := claim_failing hjobs hstatus hdue
  simp only [runAll, failure, foldl_cons, foldl_nil, hclaim]
  exact finish_failing rfl rfl rfl rfl hfailures

theorem paid_history : History seconds "op" (newOperation "shop" payment) [] paid := by
  have hids : identifier "shop" = .ok () ∧ identifier "op" = .ok () ∧ identifier "provider" = .ok () := by decide
  constructor
  · intro i r hi
    cases i with
    | zero =>
      obtain rfl := Option.some.inj hi
      rfl
    | succ i => cases hi
  · exact fun hr => by cases hr
  · nofun
  · exact fun hr => by cases hr
  · intro r hr
    obtain rfl := mem_singleton.mp hr
    exact ⟨rfl, rfl⟩
  · intro r hr
    obtain rfl := mem_singleton.mp hr
    simp [receiptCopy, paid, hids, optional, money, integer, require, bind, Except.bind]

theorem ordered_reachable : (service seconds ["shop"]).Reachable ordered := .step (.start rfl) ⟨0, _, ordered_eq.symm⟩

theorem fiveFailures_schedule : Schedule [] paid ordered (fun _ => paid) fiveFailures := by
  constructor
  · intro now call hmem
    simp only [fiveFailures, failure, cons_append, nil_append, mem_cons, Prod.mk.injEq, not_mem_nil, or_false] at hmem
    rcases hmem with ⟨-, rfl⟩ | ⟨-, rfl⟩ | ⟨-, rfl⟩ | ⟨-, rfl⟩ | ⟨-, rfl⟩ | ⟨-, rfl⟩ | ⟨-, rfl⟩ |
      ⟨-, rfl⟩ | ⟨-, rfl⟩ | ⟨-, rfl⟩ | ⟨-, rfl⟩
    all_goals first
      | exact .inl rfl
      | exact .inr ⟨paid, none, rfl, History.mem_last, rfl⟩
  · intro now r event hmem
    simp [fiveFailures, failure] at hmem
  · exact ⟨1000, none, by simp [fiveFailures]⟩

/-- The receipt arrives, but not before the job queue has opened a review. -/
theorem review_in_schedule : (service seconds ["shop"]).Reachable ordered ∧
    ordered.operations.get? "op" = some (newOperation "shop" payment) ∧
    History seconds "op" (newOperation "shop" payment) [] paid ∧
    Schedule [] paid ordered (fun _ => paid) fiveFailures ∧
    ∃ id v, (runAll seconds fiveFailures ordered).reviews.get? id = some v ∧ ordered.reviews.get? id = none := by
  refine ⟨ordered_reachable, rfl, paid_history, fiveFailures_schedule, ?_⟩
  have hstart : Failing 0 ordered := ⟨_, rfl, rfl, rfl, le_rfl⟩
  have h1 := (failing_round hstart).1 (by decide)
  have h2 := (failing_round h1).1 (by decide)
  have h3 := (failing_round h2).1 (by decide)
  have h4 := (failing_round h3).1 (by decide)
  obtain ⟨id, v, hv⟩ := (failing_round h4).2 rfl
  refine ⟨id, v, ?_, rfl⟩
  simp only [runAll, fiveFailures, foldl_append, foldl_cons, foldl_nil]
  exact deliver_reviews _ _ _ _ hv

/-- One delivery, or an event and its repetition. -/
theorem receipts_any_order_shop :
    (runAll seconds [(0, .apply paid none)] ordered).ledger =
      (runAll seconds [(0, .apply paid (some "event")), (9, .apply paid (some "event"))] ordered).ledger := by
  have hevent : identifier "event" = .ok () := by decide
  have hunused : ∀ id other, ordered.operations.get? id = some other →
      other.providerId = some paid.providerId → id = "op" := by
    intro id other hget hprovider
    rcases get?_set_cases hget with ⟨rfl, -⟩ | ⟨-, hget⟩
    · rfl
    · cases hget
  have honce : Schedule [] paid ordered (fun _ => paid) [(0, .apply paid none)] := by
    constructor
    · intro now call hmem
      obtain ⟨-, rfl⟩ := Prod.mk.inj (mem_singleton.mp hmem)
      exact .inr ⟨paid, none, rfl, History.mem_last, rfl⟩
    · intro now r event hmem
      cases mem_singleton.mp hmem
    · exact ⟨0, none, mem_singleton.mpr rfl⟩
  have htwice : Schedule [] paid ordered (fun _ => paid)
      [(0, .apply paid (some "event")), (9, .apply paid (some "event"))] := by
    constructor
    · intro now call hmem
      refine .inr ⟨paid, some "event", ?_, History.mem_last, hevent⟩
      rcases mem_cons.mp hmem with heq | hmem
      · exact (Prod.mk.inj heq).2
      · exact (Prod.mk.inj (mem_singleton.mp hmem)).2
    · intro now r event hmem
      have hcall : Call.apply r (some event) = .apply paid (some "event") := by
        rcases mem_cons.mp hmem with heq | hmem
        · exact (Prod.mk.inj heq).2
        · exact (Prod.mk.inj (mem_singleton.mp hmem)).2
      exact ⟨(Call.apply.inj hcall).1.symm, rfl⟩
    · exact ⟨0, some "event", mem_cons_self⟩
  exact (receipts_any_order seconds ["shop"] ordered_reachable rfl rfl paid_history hunused honce htwice).2.1

end SystemDesign.Payment
