import SystemDesign.Payment.Operations
import SystemDesign.Lib.Transitions

/-!
The ledger invariant of the payment service.

`Books` is what every reachable store satisfies. `Change` says once what a call can do
to wallets, operations and ledger: nothing, open an operation, or move an open one, with
the posting that goes with it. The invariant, the audit and the finality of terminal
operations all follow from it.
-/

namespace SystemDesign.Payment

open Dict hiding sum

variable {τ : Type}

/-! ### Postings -/

/-- What a posting changes: the two wallet fields and the clearing account. -/
structure Delta where
  available : ℤ
  held : ℤ
  clearing : ℤ

def PostingKind.delta (kind : PostingKind) (row : Operation) : Delta :=
  match kind with
  | .reserve => ⟨-row.amount, row.amount, 0⟩
  | .release => ⟨row.amount, -row.amount, 0⟩
  | .settle => if row.kind = .payin then ⟨row.amount, 0, -row.amount⟩ else ⟨0, -row.amount, row.amount⟩

def PostingKind.lines (kind : PostingKind) (row : Operation) : List Line :=
  [⟨(kind.accounts row).1, row.amount, 0⟩, ⟨(kind.accounts row).2, 0, row.amount⟩]

/-- The posting of an operation. -/
def posting (op : String) (kind : PostingKind) (provider : Option String) (row : Operation) :
    Posting := ⟨op, kind, provider, true, kind.lines row⟩

/-- What a posting adds to an account. -/
def Posting.net (account : Account) (p : Posting) : ℤ :=
  if p.posted then
    (p.lines.map fun l => if l.account = account then l.credit - l.debit else 0).sum else 0

theorem total_eq (s : Store τ) (account : Account) : total s account = s.ledger.sum (Posting.net account) := rfl

theorem delta_sum (kind : PostingKind) (row : Operation) :
    (kind.delta row).available + (kind.delta row).held = -(kind.delta row).clearing := by
  cases kind with
  | reserve => simp [PostingKind.delta]
  | release => simp [PostingKind.delta]
  | settle =>
    simp only [PostingKind.delta]
    split <;> simp

/-- A posting moves the funds of its merchant only. -/
theorem net_wallet (op : String) (kind : PostingKind) (provider : Option String) (row : Operation) (m : String) :
    (posting op kind provider row).net (.available m) = (if m = row.merchant then (kind.delta row).available else 0) ∧
      (posting op kind provider row).net (.held m) = if m = row.merchant then (kind.delta row).held else 0 := by
  cases kind with
  | reserve =>
    by_cases h : m = row.merchant <;>
      simp [Posting.net, posting, PostingKind.lines, PostingKind.accounts, PostingKind.delta, h, eq_comm]
  | release =>
    by_cases h : m = row.merchant <;>
      simp [Posting.net, posting, PostingKind.lines, PostingKind.accounts, PostingKind.delta, h, eq_comm]
  | settle =>
    by_cases hk : row.kind = .payin <;> by_cases h : m = row.merchant <;>
      simp [Posting.net, posting, PostingKind.lines, PostingKind.accounts, PostingKind.delta, hk, h, eq_comm]

theorem net_clearing (op : String) (kind : PostingKind) (provider : Option String) (row : Operation) :
    (posting op kind provider row).net .clearing = (kind.delta row).clearing := by
  cases kind with
  | reserve => simp [Posting.net, posting, PostingKind.lines, PostingKind.accounts, PostingKind.delta]
  | release => simp [Posting.net, posting, PostingKind.lines, PostingKind.accounts, PostingKind.delta]
  | settle =>
    by_cases hk : row.kind = .payin <;>
      simp [Posting.net, posting, PostingKind.lines, PostingKind.accounts, PostingKind.delta, hk]

/-! ### What a posting does -/

variable {wallets wallets' : Dict String Wallet} {m : String}

/-- A wallet update succeeds on a wallet whose field stays non-negative. -/
theorem moveAvailable {delta : ℤ} (h : moveFunds wallets (.available m) delta = .ok wallets') :
    ∃ w, wallets.get? m = some w ∧ 0 ≤ w.available + delta ∧
      wallets' = wallets.set m { w with available := w.available + delta } := by
  simp only [moveFunds] at h
  split at h
  · rename_i w hw
    split at h
    · rename_i hpos
      exact ⟨w, hw, hpos, (Except.ok.inj h).symm⟩
    · cases h
  · cases h

theorem moveHeld {delta : ℤ} (h : moveFunds wallets (.held m) delta = .ok wallets') :
    ∃ w, wallets.get? m = some w ∧ 0 ≤ w.held + delta ∧ wallets' = wallets.set m { w with held := w.held + delta } := by
  simp only [moveFunds] at h
  split at h
  · rename_i w hw
    split at h
    · rename_i hpos
      exact ⟨w, hw, hpos, (Except.ok.inj h).symm⟩
    · cases h
  · cases h

def Wallet.total (w : Wallet) : ℤ := w.available + w.held

/-- A new posting of an operation, with the wallet it moves. -/
structure Posted (s s' : Store τ) (op : String) (row : Operation) (kind : PostingKind)
    (provider : Option String) (w : Wallet) : Prop where
  fresh : s.ledger.get? (kind, op) = none
  ledger : s'.ledger = s.ledger.set (kind, op) (posting op kind provider row)
  wallet : s.wallets.get? row.merchant = some w
  available : 0 ≤ w.available → 0 ≤ w.available + (kind.delta row).available
  held : 0 ≤ w.held → 0 ≤ w.held + (kind.delta row).held
  moved : ∀ m, s'.wallets.get? m = if m = row.merchant then
    some ⟨w.available + (kind.delta row).available, w.held + (kind.delta row).held⟩
    else s.wallets.get? m
  sum : s'.wallets.sum Wallet.total = s.wallets.sum Wallet.total + ((kind.delta row).available + (kind.delta row).held)

variable {row : Operation} {kind : PostingKind}

/-- The two moves of a posting, on the wallet of its merchant. -/
theorem moves_spec {middle : Dict String Wallet}
    (hdebit : moveFunds wallets (kind.accounts row).1 (-row.amount) = .ok middle)
    (hcredit : moveFunds middle (kind.accounts row).2 row.amount = .ok wallets') :
    ∃ w, wallets.get? row.merchant = some w ∧ (0 ≤ w.available → 0 ≤ w.available + (kind.delta row).available) ∧
      (0 ≤ w.held → 0 ≤ w.held + (kind.delta row).held) ∧
      (∀ m, wallets'.get? m = if m = row.merchant then
        some ⟨w.available + (kind.delta row).available, w.held + (kind.delta row).held⟩
        else wallets.get? m) ∧
      wallets'.sum Wallet.total = wallets.sum Wallet.total + ((kind.delta row).available + (kind.delta row).held) := by
  -- the wallet afterwards, by what the last write left there
  have hlast : ∀ (w w₂ : Wallet), wallets.get? row.merchant = some w →
      (∀ m, wallets'.get? m = if m = row.merchant then some w₂ else wallets.get? m) →
      wallets'.sum Wallet.total = wallets.sum Wallet.total + (w₂.total - w.total) →
      w₂ = ⟨w.available + (kind.delta row).available, w.held + (kind.delta row).held⟩ →
      (∀ m, wallets'.get? m = if m = row.merchant then
        some ⟨w.available + (kind.delta row).available, w.held + (kind.delta row).held⟩
        else wallets.get? m) ∧
      wallets'.sum Wallet.total = wallets.sum Wallet.total + ((kind.delta row).available + (kind.delta row).held) := by
    rintro w w₂ hw hget hsum rfl
    refine ⟨hget, hsum.trans ?_⟩
    simp only [Wallet.total]
    ring
  have htwice : ∀ (w w₁ w₂ : Wallet), wallets.get? row.merchant = some w →
      wallets' = (wallets.set row.merchant w₁).set row.merchant w₂ →
      (∀ m, wallets'.get? m = if m = row.merchant then some w₂ else wallets.get? m) ∧
      wallets'.sum Wallet.total = wallets.sum Wallet.total + (w₂.total - w.total) := by
    rintro w w₁ w₂ hw rfl
    constructor
    · intro m
      rw [get?_set, get?_set]
      split <;> rfl
    · have hmiddle : (wallets.set row.merchant w₁).get? row.merchant = some w₁ := by
        rw [get?_set, if_pos rfl]
      rw [sum_set_of_some hmiddle, sum_set_of_some hw]
      ring
  cases kind with
  | reserve =>
    obtain ⟨w, hw, hpos, rfl⟩ := moveAvailable hdebit
    obtain ⟨w', hw', hpos', rfl⟩ := moveHeld hcredit
    rw [get?_set, if_pos rfl] at hw'
    obtain rfl := Option.some.inj hw'
    obtain ⟨hget, hsum⟩ := htwice w _ _ hw rfl
    exact ⟨w, hw, fun _ => hpos, fun _ => hpos', hlast w _ hw hget hsum rfl⟩
  | release =>
    obtain ⟨w, hw, hpos, rfl⟩ := moveHeld hdebit
    obtain ⟨w', hw', hpos', rfl⟩ := moveAvailable hcredit
    rw [get?_set, if_pos rfl] at hw'
    obtain rfl := Option.some.inj hw'
    obtain ⟨hget, hsum⟩ := htwice w _ _ hw rfl
    exact ⟨w, hw, fun _ => hpos', fun _ => hpos, hlast w _ hw hget hsum rfl⟩
  | settle =>
    by_cases hk : row.kind = .payin
    · simp only [PostingKind.accounts, hk, if_true] at hdebit hcredit
      obtain rfl := Except.ok.inj hdebit
      obtain ⟨w, hw, hpos, rfl⟩ := moveAvailable hcredit
      have hdelta : PostingKind.settle.delta row = ⟨row.amount, 0, -row.amount⟩ := by
        simp [PostingKind.delta, hk]
      refine ⟨w, hw, ?_, ?_, hlast w _ hw (fun m => get?_set _ _ _ _) (sum_set_of_some hw _ _) ?_⟩
      · exact fun _ => hdelta ▸ hpos
      · rw [hdelta]
        exact fun hheld => by simpa using hheld
      · rw [hdelta]
        simp
    · simp only [PostingKind.accounts, hk, if_false] at hdebit hcredit
      obtain rfl := Except.ok.inj hcredit
      obtain ⟨w, hw, hpos, rfl⟩ := moveHeld hdebit
      have hdelta : PostingKind.settle.delta row = ⟨0, -row.amount, row.amount⟩ := by
        simp [PostingKind.delta, hk]
      refine ⟨w, hw, ?_, ?_, hlast w _ hw (fun m => get?_set _ _ _ _) (sum_set_of_some hw _ _) ?_⟩
      · rw [hdelta]
        exact fun havailable => by simpa using havailable
      · exact fun _ => hdelta ▸ hpos
      · rw [hdelta]
        simp

variable {provider : Option String} {s s' : Store τ} {op : String} {amount : ℤ}

/-- `post` on a transaction that is not in the ledger yet. -/
theorem post_posted {debit credit : Account} (h : post s op kind debit credit amount provider = .ok s')
    (hrow : s.operations.get? op = some row) (hfresh : s.ledger.get? (kind, op) = none) :
    (∃ w, Posted s s' op row kind provider w) ∧ s' = { s with wallets := s'.wallets, ledger := s'.ledger } := by
  replace h := of_check h
  obtain ⟨source, hsource, h⟩ := of_bind h
  obtain rfl : source = row := by
    simp only [findOperation, hrow, true_or, if_true] at hsource
    exact (Except.ok.inj hsource).symm
  obtain ⟨_, hmatch, h⟩ := of_bind h
  obtain ⟨haccounts, rfl, -⟩ := require_eq_ok.mp hmatch
  rw [hfresh] at h
  obtain ⟨middle, hdebit, h⟩ := of_bind h
  obtain ⟨wallets, hcredit, h⟩ := of_bind h
  obtain rfl := Except.ok.inj h
  obtain ⟨rfl, rfl⟩ : debit = (kind.accounts source).1 ∧ credit = (kind.accounts source).2 :=
    ⟨congrArg Prod.fst haccounts, congrArg Prod.snd haccounts⟩
  obtain ⟨w, hw, havailable, hheld, hmoved, hsum⟩ := moves_spec hdebit hcredit
  exact ⟨⟨w, hfresh, rfl, hw, havailable, hheld, hmoved, hsum⟩, rfl⟩

/-! ### The invariant -/

/-- What an operation holds of its merchant's funds. -/
def Operation.holds (merchant : String) (row : Operation) : ℤ :=
  if row.merchant = merchant ∧ row.kind ≠ .payin ∧ row.status.terminal = false then row.amount else 0

/-- The amounts of a merchant's open payouts and refunds. -/
def heldBy (s : Store τ) (merchant : String) : ℤ := s.operations.sum (Operation.holds merchant)

/-- What an operation takes of a pay-in as its refund. -/
def Operation.refunds (parent : String) (row : Operation) : ℤ :=
  if row.parent = some parent ∧ row.status ≠ .failed then row.amount else 0

theorem refundsOf_eq (s : Store τ) (parent : String) :
    refundsOf s parent = s.operations.sum (Operation.refunds parent) := rfl

structure Books (s : Store τ) : Prop where
  wallet : ∀ {op row}, s.operations.get? op = some row → ∃ w, s.wallets.get? row.merchant = some w
  parent : ∀ {op row p}, s.operations.get? op = some row → row.parent = some p →
    ∃ source, s.operations.get? p = some source
  amount : ∀ {op row}, s.operations.get? op = some row → 0 < row.amount
  posting : ∀ {kind op p}, s.ledger.get? (kind, op) = some p →
    ∃ row, s.operations.get? op = some row ∧ p = posting op kind p.providerId row
  settled : ∀ {op row}, s.operations.get? op = some row → (s.ledger.get? (.settle, op) ≠ none ↔ row.status = .succeeded)
  released : ∀ {op row}, s.operations.get? op = some row →
    (s.ledger.get? (.release, op) ≠ none ↔ row.status = .failed ∧ row.kind ≠ .payin)
  available : ∀ {m w}, s.wallets.get? m = some w → w.available = total s (.available m)
  held : ∀ {m w}, s.wallets.get? m = some w → w.held = total s (.held m)
  balance : total s .clearing + s.wallets.sum Wallet.total = 0
  pending : ∀ {m w}, s.wallets.get? m = some w → w.held = heldBy s m
  nonneg : ∀ {m w}, s.wallets.get? m = some w → 0 ≤ w.available ∧ 0 ≤ w.held
  refunds : ∀ {op row}, s.operations.get? op = some row → refundsOf s op ≤ row.amount

/-- Two versions of an operation that differ in its progress only. -/
def SameTerms (row row' : Operation) : Prop :=
  row'.merchant = row.merchant ∧ row'.kind = row.kind ∧ row'.parent = row.parent ∧ row'.amount = row.amount

/-- What one call can do to wallets, operations and ledger. -/
inductive Change (s s' : Store τ) : Prop
  | same (hwallets : s'.wallets = s.wallets) (hoperations : s'.operations = s.operations)
      (hledger : s'.ledger = s.ledger)
  | opened (op : String) (row : Operation) (hnew : s.operations.get? op = none)
      (hwallet : ∃ w, s.wallets.get? row.merchant = some w) (hamount : 0 < row.amount)
      (hstatus : row.status = .created)
      (hparent : ∀ p, row.parent = some p → ∃ source, s.operations.get? p = some source ∧
        refundsOf s p + row.amount ≤ source.amount)
      (hoperations : s'.operations = s.operations.set op row)
      (hposted : row.kind = .payin ∧ s'.wallets = s.wallets ∧ s'.ledger = s.ledger ∨
        row.kind ≠ .payin ∧ ∃ w, Posted s s' op row .reserve none w)
  | moved (op : String) (row row' : Operation) (hget : s.operations.get? op = some row)
      (hopen : row.status.terminal = false) (hterms : SameTerms row row')
      (hoperations : s'.operations = s.operations.set op row')
      (hposted : (row'.status.terminal = false ∨ row'.status = .failed ∧ row.kind = .payin) ∧
          s'.wallets = s.wallets ∧ s'.ledger = s.ledger ∨
        row'.status = .succeeded ∧ (∃ provider w, Posted s s' op row .settle provider w) ∨
        row'.status = .failed ∧ row.kind ≠ .payin ∧ ∃ provider w, Posted s s' op row .release provider w)

variable {w : Wallet}

theorem total_posted (h : Posted s s' op row kind provider w) (account : Account) :
    total s' account = total s account + (posting op kind provider row).net account := by
  rw [total_eq, total_eq, h.ledger, sum_set_of_none h.fresh]

/-- The wallets and totals after a posting, for every merchant. -/
theorem Posted.totals (h : Posted s s' op row kind provider w) (hb : Books s) {w' : Wallet}
    (hw' : s'.wallets.get? m = some w') :
    w'.available = total s' (.available m) ∧ w'.held = total s' (.held m) ∧ (0 ≤ w'.available ∧ 0 ≤ w'.held) ∧
      ∃ w₀, s.wallets.get? m = some w₀ ∧ w'.held = w₀.held + if m = row.merchant then (kind.delta row).held else 0 := by
  rw [total_posted h, total_posted h, (net_wallet ..).1, (net_wallet ..).2]
  rw [h.moved] at hw'
  by_cases hm : m = row.merchant
  · subst hm
    rw [if_pos rfl] at hw'
    obtain rfl := Option.some.inj hw'
    obtain ⟨hpos, hpos'⟩ := hb.nonneg h.wallet
    simp only [if_true]
    refine ⟨by rw [hb.available h.wallet], by rw [hb.held h.wallet],
      ⟨h.available hpos, h.held hpos'⟩, w, h.wallet, rfl⟩
  · rw [if_neg hm] at hw'
    simp only [hm, if_false, add_zero]
    exact ⟨hb.available hw', hb.held hw', hb.nonneg hw', w', hw', rfl⟩

theorem Posted.balance {s s' : Store τ} {op : String} {row : Operation} {kind : PostingKind}
    {provider : Option String} {w : Wallet} (h : Posted s s' op row kind provider w)
    (hb : Books s) : total s' .clearing + s'.wallets.sum Wallet.total = 0 := by
  rw [total_posted h, net_clearing, h.sum, delta_sum]
  have := hb.balance
  linarith

/-- A wallet exists after a posting exactly when it did before. -/
theorem Posted.wallet_exists (h : Posted s s' op row kind provider w) (hw : ∃ w₀, s.wallets.get? m = some w₀) :
    ∃ w', s'.wallets.get? m = some w' := by
  rw [h.moved]
  split
  · exact ⟨_, rfl⟩
  · exact hw

theorem Posted.get?_ledger (h : Posted s s' op row kind provider w) (id : PostingKind × String) :
    s'.ledger.get? id = if id = (kind, op) then some (posting op kind provider row)
      else s.ledger.get? id := by
  rw [h.ledger, get?_set]

theorem posting_congr {row' : Operation} (h : SameTerms row row') :
    posting op kind provider row' = posting op kind provider row := by
  obtain ⟨hm, hk, -, ha⟩ := h
  simp [posting, PostingKind.lines, PostingKind.accounts, hm, hk, ha]

/-! ### Preservation -/

/-- What a change does to the funds: one merchant's held balance moves by `d`. -/
structure Funds (s s' : Store τ) (merchant : String) (d : ℤ) : Prop where
  totals : ∀ {m w'}, s'.wallets.get? m = some w' →
    w'.available = total s' (.available m) ∧ w'.held = total s' (.held m) ∧
      (0 ≤ w'.available ∧ 0 ≤ w'.held) ∧
      ∃ w₀, s.wallets.get? m = some w₀ ∧ w'.held = w₀.held + if m = merchant then d else 0
  balance : total s' .clearing + s'.wallets.sum Wallet.total = 0
  wallet_exists : ∀ {m}, (∃ w₀, s.wallets.get? m = some w₀) → ∃ w', s'.wallets.get? m = some w'

theorem Posted.funds (h : Posted s s' op row kind provider w) (hb : Books s) :
    Funds s s' row.merchant (kind.delta row).held :=
  ⟨h.totals hb, h.balance hb, h.wallet_exists⟩

theorem Funds.same (hb : Books s) (hwallets : s'.wallets = s.wallets) (hledger : s'.ledger = s.ledger)
    (merchant : String) : Funds s s' merchant 0 := by
  have htotal : ∀ account, total s' account = total s account := fun account => by
    rw [total_eq, total_eq, hledger]
  constructor
  · intro m w' hw'
    rw [hwallets] at hw'
    rw [htotal, htotal]
    exact ⟨hb.available hw', hb.held hw', hb.nonneg hw', w', hw', by simp⟩
  · rw [htotal, hwallets]
    exact hb.balance
  · intro m hw
    rwa [hwallets]

theorem Funds.pending {s s' : Store τ} {merchant : String} {d : ℤ} (h : Funds s s' merchant d)
    (hb : Books s) (hheld : ∀ m, heldBy s' m = heldBy s m + if m = merchant then d else 0)
    {m : String} {w : Wallet} (hw : s'.wallets.get? m = some w) : w.held = heldBy s' m := by
  obtain ⟨-, -, -, w₀, hw₀, heq⟩ := h.totals hw
  rw [heq, hheld, hb.pending hw₀]

theorem Books.same {s s' : Store τ} (hb : Books s) (hwallets : s'.wallets = s.wallets)
    (hoperations : s'.operations = s.operations) (hledger : s'.ledger = s.ledger) : Books s' := by
  have hfunds := Funds.same hb hwallets hledger ""
  have hheld : ∀ m, heldBy s' m = heldBy s m := fun m => by rw [heldBy, heldBy, hoperations]
  have hrefunds : ∀ m, refundsOf s' m = refundsOf s m := fun m => by
    rw [refundsOf_eq, refundsOf_eq, hoperations]
  constructor
  · rw [hoperations]
    exact fun hget => hfunds.wallet_exists (hb.wallet hget)
  · rw [hoperations]
    exact hb.parent
  · rw [hoperations]
    exact hb.amount
  · rw [hoperations, hledger]
    exact hb.posting
  · rw [hoperations, hledger]
    exact hb.settled
  · rw [hoperations, hledger]
    exact hb.released
  · exact fun hw => (hfunds.totals hw).1
  · exact fun hw => (hfunds.totals hw).2.1
  · exact hfunds.balance
  · exact hfunds.pending hb fun m => by simp [hheld]
  · exact fun hw => (hfunds.totals hw).2.2.1
  · rw [hoperations]
    exact fun hget => (hrefunds _).trans_le (hb.refunds hget)

/-- An operation that was never opened has no posting and no refund. -/
theorem Books.ledger_none (hb : Books s) (hnew : s.operations.get? op = none) (kind : PostingKind) :
    s.ledger.get? (kind, op) = none := by
  by_contra hne
  obtain ⟨p, hp⟩ := Option.ne_none_iff_exists'.mp hne
  obtain ⟨row, hrow, -⟩ := hb.posting hp
  rw [hnew] at hrow
  cases hrow

theorem Books.refundsOf_none (hb : Books s) (hnew : s.operations.get? op = none) : refundsOf s op = 0 := by
  rw [refundsOf_eq]
  have hzero : s.operations.sum (Operation.refunds op) = s.operations.sum fun _ => 0 := by
    refine sum_congr fun row hrow => ?_
    obtain ⟨id, hget⟩ := mem_values.mp hrow
    rw [Operation.refunds, if_neg]
    rintro ⟨hparent, -⟩
    obtain ⟨source, hsource⟩ := hb.parent hget hparent
    rw [hnew] at hsource
    cases hsource
  rw [hzero, sum_zero]

theorem books_opened (hb : Books s) (hnew : s.operations.get? op = none)
    (hwallet : ∃ w, s.wallets.get? row.merchant = some w) (hamount : 0 < row.amount) (hstatus : row.status = .created)
    (hparent : ∀ p, row.parent = some p → ∃ source, s.operations.get? p = some source ∧
      refundsOf s p + row.amount ≤ source.amount) (hoperations : s'.operations = s.operations.set op row) {d : ℤ}
    (hfunds : Funds s s' row.merchant d) (hd : d = row.holds row.merchant)
    (hledger : ∀ kind id, s'.ledger.get? (kind, id) = s.ledger.get? (kind, id) ∨
      kind = .reserve ∧ id = op ∧ s'.ledger.get? (kind, id) = some (posting op kind none row)) : Books s' := by
  have hother : ∀ {kind : PostingKind}, kind ≠ .reserve → ∀ id,
      s'.ledger.get? (kind, id) = s.ledger.get? (kind, id) := fun hkind id =>
    (hledger _ id).resolve_right fun h => hkind h.1
  constructor
  · intro id r hget
    rw [hoperations] at hget
    rcases get?_set_cases hget with ⟨rfl, rfl⟩ | ⟨-, hget⟩
    · exact hfunds.wallet_exists hwallet
    · exact hfunds.wallet_exists (hb.wallet hget)
  · intro id r p hget hp
    rw [hoperations] at hget ⊢
    rcases get?_set_cases hget with ⟨rfl, rfl⟩ | ⟨-, hget⟩
    · obtain ⟨source, hsource, -⟩ := hparent p hp
      exact exists_get?_set ⟨source, hsource⟩
    · exact exists_get?_set (hb.parent hget hp)
  · intro id r hget
    rw [hoperations] at hget
    rcases get?_set_cases hget with ⟨rfl, rfl⟩ | ⟨-, hget⟩
    · exact hamount
    · exact hb.amount hget
  · intro kind id p hp
    rw [hoperations]
    rcases hledger kind id with hsame | ⟨rfl, rfl, hposted⟩
    · rw [hsame] at hp
      obtain ⟨r, hr, heq⟩ := hb.posting hp
      have hne : id ≠ op := by
        rintro rfl
        rw [hnew] at hr
        cases hr
      exact ⟨r, by rw [get?_set_of_ne _ hne, hr], heq⟩
    · rw [hposted] at hp
      obtain rfl := Option.some.inj hp
      exact ⟨row, get?_set_self _ _ _, rfl⟩
  · intro id r hget
    rw [hoperations] at hget
    rw [hother (by decide)]
    rcases get?_set_cases hget with ⟨rfl, rfl⟩ | ⟨-, hget⟩
    · simp [hb.ledger_none hnew, hstatus]
    · exact hb.settled hget
  · intro id r hget
    rw [hoperations] at hget
    rw [hother (by decide)]
    rcases get?_set_cases hget with ⟨rfl, rfl⟩ | ⟨-, hget⟩
    · simp [hb.ledger_none hnew, hstatus]
    · exact hb.released hget
  · exact fun hw => (hfunds.totals hw).1
  · exact fun hw => (hfunds.totals hw).2.1
  · exact hfunds.balance
  · refine hfunds.pending hb fun m => ?_
    rw [heldBy, hoperations, sum_set_of_none hnew, hd, heldBy]
    congr 1
    by_cases hm : m = row.merchant
    · rw [if_pos hm, hm]
    · rw [if_neg hm, Operation.holds, if_neg fun h => hm h.1.symm]
  · exact fun hw => (hfunds.totals hw).2.2.1
  · intro id r hget
    rw [refundsOf_eq, hoperations, sum_set_of_none hnew, ← refundsOf_eq]
    rw [hoperations] at hget
    rcases get?_set_cases hget with ⟨rfl, rfl⟩ | ⟨-, hget⟩
    · have hself : r.refunds id = 0 := by
        rw [Operation.refunds, if_neg]
        rintro ⟨hp, -⟩
        obtain ⟨source, hsource, -⟩ := hparent id hp
        rw [hnew] at hsource
        cases hsource
      rw [hb.refundsOf_none hnew, hself]
      simpa using hamount.le
    · by_cases hp : row.parent = some id
      · obtain ⟨source, hsource, hle⟩ := hparent id hp
        obtain rfl := Option.some.inj (hget.symm.trans hsource)
        rwa [Operation.refunds, if_pos ⟨hp, by simp [hstatus]⟩]
      · rw [Operation.refunds, if_neg fun h => hp h.1, add_zero]
        exact hb.refunds hget

theorem books_moved (hb : Books s) {row' : Operation} (hget : s.operations.get? op = some row)
    (hopen : row.status.terminal = false) (hterms : SameTerms row row')
    (hoperations : s'.operations = s.operations.set op row') {d : ℤ} (hfunds : Funds s s' row.merchant d)
    (hd : d = row'.holds row.merchant - row.holds row.merchant)
    (hledger : ∀ kind id, s'.ledger.get? (kind, id) = s.ledger.get? (kind, id) ∨
      id = op ∧ ∃ provider, s'.ledger.get? (kind, id) = some (posting op kind provider row))
    (hsettled : s'.ledger.get? (.settle, op) ≠ none ↔ row'.status = .succeeded)
    (hreleased : s'.ledger.get? (.release, op) ≠ none ↔ row'.status = .failed ∧ row'.kind ≠ .payin) : Books s' := by
  obtain ⟨hmerchant, hkind, hparent, hamount⟩ := id hterms
  have hother : ∀ {id : String}, id ≠ op → ∀ kind,
      s'.ledger.get? (kind, id) = s.ledger.get? (kind, id) := fun hne kind =>
    (hledger kind _).resolve_right fun h => hne h.1
  constructor
  · intro id r hr
    rw [hoperations] at hr
    rcases get?_set_cases hr with ⟨rfl, rfl⟩ | ⟨-, hr⟩
    · rw [hmerchant]
      exact hfunds.wallet_exists (hb.wallet hget)
    · exact hfunds.wallet_exists (hb.wallet hr)
  · intro id r p hr hp
    rw [hoperations] at hr ⊢
    rcases get?_set_cases hr with ⟨rfl, rfl⟩ | ⟨-, hr⟩
    · exact exists_get?_set (hb.parent hget (hparent ▸ hp))
    · exact exists_get?_set (hb.parent hr hp)
  · intro id r hr
    rw [hoperations] at hr
    rcases get?_set_cases hr with ⟨rfl, rfl⟩ | ⟨-, hr⟩
    · rw [hamount]
      exact hb.amount hget
    · exact hb.amount hr
  · intro kind id p hp
    rw [hoperations]
    rcases hledger kind id with hsame | ⟨rfl, provider, hposted⟩
    · rw [hsame] at hp
      obtain ⟨r, hr, heq⟩ := hb.posting hp
      by_cases hid : id = op
      · subst hid
        obtain rfl := Option.some.inj (hget.symm.trans hr)
        exact ⟨row', get?_set_self _ _ _, heq.trans (posting_congr hterms).symm⟩
      · exact ⟨r, by rw [get?_set_of_ne _ hid, hr], heq⟩
    · rw [hposted] at hp
      obtain rfl := Option.some.inj hp
      exact ⟨row', get?_set_self _ _ _, (posting_congr hterms).symm⟩
  · intro id r hr
    rw [hoperations] at hr
    rcases get?_set_cases hr with ⟨rfl, rfl⟩ | ⟨hne, hr⟩
    · exact hsettled
    · rw [hother hne]
      exact hb.settled hr
  · intro id r hr
    rw [hoperations] at hr
    rcases get?_set_cases hr with ⟨rfl, rfl⟩ | ⟨hne, hr⟩
    · exact hreleased
    · rw [hother hne]
      exact hb.released hr
  · exact fun hw => (hfunds.totals hw).1
  · exact fun hw => (hfunds.totals hw).2.1
  · exact hfunds.balance
  · refine hfunds.pending hb fun m => ?_
    rw [heldBy, hoperations, sum_set_of_some hget, hd, heldBy]
    congr 1
    by_cases hm : m = row.merchant
    · rw [if_pos hm, hm]
    · have hne : row.merchant ≠ m := Ne.symm hm
      simp [hm, Operation.holds, hmerchant, hne]
  · exact fun hw => (hfunds.totals hw).2.2.1
  · intro id r hr
    have hle : refundsOf s' id ≤ refundsOf s id := by
      rw [refundsOf_eq, hoperations, sum_set_of_some hget, ← refundsOf_eq]
      have hrow : row.status ≠ .failed := by
        intro h
        rw [h] at hopen
        cases hopen
      have hpos := hb.amount hget
      simp only [Operation.refunds, hparent, hamount]
      split
      · rename_i h
        rw [if_pos ⟨h.1, hrow⟩]
        simp
      · split
        · linarith
        · simp
    rw [hoperations] at hr
    rcases get?_set_cases hr with ⟨rfl, rfl⟩ | ⟨-, hr⟩
    · rw [hamount]
      exact hle.trans (hb.refunds hget)
    · exact hle.trans (hb.refunds hr)

theorem Posted.ledger_cases (h : Posted s s' op row kind provider w) (kind' : PostingKind) (id : String) :
    s'.ledger.get? (kind', id) = s.ledger.get? (kind', id) ∨
      kind' = kind ∧ id = op ∧ s'.ledger.get? (kind', id) = some (posting op kind' provider row) := by
  rw [h.get?_ledger]
  by_cases hid : (kind', id) = (kind, op)
  · obtain ⟨rfl, rfl⟩ := Prod.mk.inj hid
    exact .inr ⟨rfl, rfl, by rw [if_pos rfl]⟩
  · exact .inl (by rw [if_neg hid])

/-- An open operation has neither settled nor been released. -/
theorem Books.open_ledger (hb : Books s) (hget : s.operations.get? op = some row)
    (hopen : row.status.terminal = false) :
    s.ledger.get? (.settle, op) = none ∧ s.ledger.get? (.release, op) = none := by
  have hsucceeded : row.status ≠ .succeeded := by
    intro h
    rw [h] at hopen
    cases hopen
  have hfailed : row.status ≠ .failed := by
    intro h
    rw [h] at hopen
    cases hopen
  constructor
  · by_contra hne
    exact hsucceeded ((hb.settled hget).mp hne)
  · by_contra hne
    exact hfailed ((hb.released hget).mp hne).1

theorem holds_open (hopen : row.status.terminal = false) :
    row.holds row.merchant = if row.kind = .payin then 0 else row.amount := by
  by_cases hk : row.kind = .payin <;> simp [Operation.holds, hk, hopen]

theorem holds_closed (hclosed : row.status.terminal = true) (m : String) : row.holds m = 0 := by
  simp [Operation.holds, hclosed]

/-- The books stay right over every change. -/
theorem Change.books (h : Change s s') (hb : Books s) : Books s' := by
  cases h with
  | same hwallets hoperations hledger => exact hb.same hwallets hoperations hledger
  | opened op row hnew hwallet hamount hstatus hparent hoperations hposted =>
    have hopen : row.status.terminal = false := by rw [hstatus]; rfl
    rcases hposted with ⟨hk, hwallets, hledger⟩ | ⟨hk, w, hposted⟩
    · apply books_opened hb hnew hwallet hamount hstatus hparent hoperations
        (Funds.same hb hwallets hledger row.merchant)
      · rw [holds_open hopen, if_pos hk]
      · exact fun kind id => .inl (by rw [hledger])
    · apply books_opened hb hnew hwallet hamount hstatus hparent hoperations (hposted.funds hb)
      · rw [holds_open hopen, if_neg hk]
        rfl
      · exact hposted.ledger_cases
  | moved op row row' hget hopen hterms hoperations hposted =>
    obtain ⟨hmerchant, hkind, -, hamount⟩ := id hterms
    obtain ⟨hnosettle, hnorelease⟩ := hb.open_ledger hget hopen
    have hholds : row'.status.terminal = false → row'.holds row.merchant = row.holds row.merchant :=
      fun h => by rw [← hmerchant, holds_open h, hmerchant, holds_open hopen, hkind, hamount]
    rcases hposted with ⟨hstatus, hwallets, hledger⟩ | ⟨hstatus, provider, w, hposted⟩ |
      ⟨hstatus, hk, provider, w, hposted⟩
    · apply books_moved hb hget hopen hterms hoperations (Funds.same hb hwallets hledger row.merchant)
      · rcases hstatus with hstatus | ⟨hstatus, hk⟩
        · rw [hholds hstatus, sub_self]
        · rw [holds_closed (by rw [hstatus]; rfl), holds_open hopen, if_pos hk, sub_self]
      · exact fun kind id => .inl (by rw [hledger])
      · rw [hledger, hnosettle]
        rcases hstatus with hstatus | ⟨hstatus, -⟩
        · cases hs : row'.status <;> simp_all [Status.terminal]
        · simp [hstatus]
      · rw [hledger, hnorelease, hkind]
        rcases hstatus with hstatus | ⟨hstatus, hk⟩
        · cases hs : row'.status <;> simp_all [Status.terminal]
        · simp [hk]
    · apply books_moved hb hget hopen hterms hoperations (hposted.funds hb)
      · rw [holds_closed (by rw [hstatus]; rfl), holds_open hopen, PostingKind.delta]
        split <;> simp
      · exact fun kind id => (hposted.ledger_cases kind id).imp_right fun h => ⟨h.2.1, _, h.2.2⟩
      · simp [hposted.get?_ledger, hstatus]
      · simp [hposted.get?_ledger, hstatus, hnorelease]
    · apply books_moved hb hget hopen hterms hoperations (hposted.funds hb)
      · rw [holds_closed (by rw [hstatus]; rfl), holds_open hopen, if_neg hk, zero_sub]
        rfl
      · exact fun kind id => (hposted.ledger_cases kind id).imp_right fun h => ⟨h.2.1, _, h.2.2⟩
      · simp [hposted.get?_ledger, hstatus, hnosettle]
      · simp [hposted.get?_ledger, hstatus, hkind, hk]

/-! ### What the calls do -/

/-- Nothing but jobs, versions, events, reviews and reconciliations differs. -/
structure Frame (s s' : Store τ) : Prop where
  wallets : s'.wallets = s.wallets
  operations : s'.operations = s.operations
  ledger : s'.ledger = s.ledger

theorem Frame.trans {s s₁ s' : Store τ} (h : Frame s s₁) (h' : Frame s₁ s') : Frame s s' :=
  ⟨h'.wallets.trans h.wallets, h'.operations.trans h.operations, h'.ledger.trans h.ledger⟩

theorem Frame.change (h : Frame s s') : Change s s' := .same h.wallets h.operations h.ledger

theorem enqueue_frame (s : Store τ) (id : JobId) (now : τ) : Frame s (enqueue s id now) := by
  unfold enqueue
  split <;> exact ⟨rfl, rfl, rfl⟩

theorem review_frame (s : Store τ) (op reason : String) (detail : Json) : Frame s (review s op reason detail).1 := by
  unfold review
  dsimp only
  split <;> exact ⟨rfl, rfl, rfl⟩

theorem closeJob_frame (s : Store τ) (id : JobId) : Frame s (closeJob s id) := by
  unfold closeJob
  split <;> exact ⟨rfl, rfl, rfl⟩

theorem recordVersion_frame (s : Store τ) (r : Receipt) : Frame s (recordVersion s r) := by
  unfold recordVersion
  split <;> exact ⟨rfl, rfl, rfl⟩

theorem recordEvent_frame (s : Store τ) (r : Receipt) (result : Result) (event : Option String) :
    Frame s (recordEvent s r result event) := by
  cases event <;> exact ⟨rfl, rfl, rfl⟩

theorem failReconciliation_frame (s : Store τ) (id : JobId) (error : String) :
    Frame s (failReconciliation s id error) := by
  unfold failReconciliation
  split
  · split <;> exact ⟨rfl, rfl, rfl⟩
  · exact ⟨rfl, rfl, rfl⟩

theorem exhaust_frame (s : Store τ) (id : JobId) (error : Option String) : Frame s (exhaust s id error) :=
  (review_frame s id.subject "RETRY_EXHAUSTED" _).trans (failReconciliation_frame _ id _)

theorem Posted.frame {s₁ : Store τ} (h : Posted s s₁ op row kind provider w) (hwallets : s'.wallets = s₁.wallets)
    (hledger : s'.ledger = s₁.ledger) : Posted s s' op row kind provider w := by
  obtain ⟨hfresh, hl, hw, ha, hh, hm, hs⟩ := h
  exact ⟨hfresh, hledger.trans hl, hw, ha, hh, hwallets ▸ hm, hwallets ▸ hs⟩

theorem Change.frame {s s₁ s' : Store τ} (h : Change s s₁) (h' : Frame s₁ s') : Change s s' := by
  obtain ⟨hwallets, hoperations, hledger⟩ := h'
  cases h with
  | same hw ho hl => exact .same (hwallets.trans hw) (hoperations.trans ho) (hledger.trans hl)
  | opened op row hnew hwallet hamount hstatus hparent ho hposted =>
    apply Change.opened op row hnew hwallet hamount hstatus hparent (hoperations.trans ho)
    rcases hposted with ⟨hk, hw, hl⟩ | ⟨hk, w, hposted⟩
    · exact .inl ⟨hk, hwallets.trans hw, hledger.trans hl⟩
    · exact .inr ⟨hk, w, hposted.frame hwallets hledger⟩
  | moved op row row' hget hopen hterms ho hposted =>
    apply Change.moved op row row' hget hopen hterms (hoperations.trans ho)
    rcases hposted with ⟨hs, hw, hl⟩ | ⟨hs, provider, w, hposted⟩ | ⟨hs, hk, provider, w, hposted⟩
    · exact .inl ⟨hs, hwallets.trans hw, hledger.trans hl⟩
    · exact .inr (.inl ⟨hs, provider, w, hposted.frame hwallets hledger⟩)
    · exact .inr (.inr ⟨hs, hk, provider, w, hposted.frame hwallets hledger⟩)

variable {r : Receipt}

/-- The posting of a receipt on an open operation. -/
theorem postReceipt_cases {s₁ : Store τ} (h : postReceipt s row r = .ok s₁) (hb : Books s)
    (hget : s.operations.get? r.id = some row) (hopen : row.status.terminal = false) :
    s₁.operations = s.operations ∧
      ((r.status = .pending ∨ r.status = .failed ∧ row.kind = .payin) ∧ s₁.wallets = s.wallets ∧ s₁.ledger = s.ledger ∨
        r.status = .succeeded ∧ (∃ provider w, Posted s s₁ r.id row .settle provider w) ∨
        r.status = .failed ∧ row.kind ≠ .payin ∧ ∃ provider w, Posted s s₁ r.id row .release provider w) := by
  obtain ⟨hnosettle, hnorelease⟩ := hb.open_ledger hget hopen
  unfold postReceipt at h
  cases hr : r.status with
  | pending =>
    rw [hr] at h
    obtain rfl := Except.ok.inj h
    exact ⟨rfl, .inl ⟨.inl rfl, rfl, rfl⟩⟩
  | succeeded =>
    simp only [hr] at h
    have hpost : ∃ debit credit, post s r.id .settle debit credit row.amount (some r.providerId) =
        .ok s₁ := by
      split at h
      · exact ⟨_, _, h⟩
      · exact ⟨_, _, h⟩
    obtain ⟨debit, credit, hpost⟩ := hpost
    obtain ⟨⟨w, hposted⟩, hs₁⟩ := post_posted hpost hget hnosettle
    have hoperations := congrArg Store.operations hs₁
    exact ⟨hoperations, .inr (.inl ⟨rfl, _, w, hposted⟩)⟩
  | failed =>
    simp only [hr] at h
    split at h
    · rename_i hk
      obtain rfl := Except.ok.inj h
      exact ⟨rfl, .inl ⟨.inr ⟨rfl, hk⟩, rfl, rfl⟩⟩
    · rename_i hk
      obtain ⟨⟨w, hposted⟩, hs₁⟩ := post_posted h hget hnorelease
      have hoperations := congrArg Store.operations hs₁
      exact ⟨hoperations, .inr (.inr ⟨rfl, hk, _, w, hposted⟩)⟩

/-- The row of an operation after a receipt. -/
def Operation.after (row : Operation) (r : Receipt) : Operation :=
  { row with
    status := r.status.status, providerId := some r.providerId, revision := r.revision,
    checkout := r.checkout }

variable {now : τ}

theorem advance_change (h : advance s now row r = .ok s') (hb : Books s) (hget : s.operations.get? r.id = some row)
    (hopen : row.status.terminal = false) : Change s s' := by
  obtain ⟨s₁, hs₁, h⟩ := of_bind h
  obtain ⟨hoperations, hposted⟩ := postReceipt_cases hs₁ hb hget hopen
  have hchange : Change s { s₁ with operations := s₁.operations.set r.id (row.after r) } := by
    apply Change.moved r.id row (row.after r) hget hopen ⟨rfl, rfl, rfl, rfl⟩
    · simp only [hoperations]
    · rcases hposted with ⟨hstatus, hwallets, hledger⟩ | ⟨hstatus, provider, w, hposted⟩ |
        ⟨hstatus, hk, provider, w, hposted⟩
      · refine .inl ⟨?_, hwallets, hledger⟩
        rcases hstatus with hstatus | ⟨hstatus, hk⟩
        · exact .inl (by simp [Operation.after, hstatus, ReceiptStatus.status, Status.terminal])
        · exact .inr ⟨by simp [Operation.after, hstatus, ReceiptStatus.status], hk⟩
      · exact .inr (.inl ⟨by simp [Operation.after, hstatus, ReceiptStatus.status], provider, w, hposted.frame rfl rfl⟩)
      · exact .inr (.inr ⟨by simp [Operation.after, hstatus, ReceiptStatus.status], hk, provider, w,
          hposted.frame rfl rfl⟩)
  split at h
  · obtain rfl := Except.ok.inj h
    exact hchange
  · obtain rfl := Except.ok.inj h
    exact hchange.frame ((closeJob_frame _ _).trans (enqueue_frame _ _ _))

theorem judge_apply (h : judge s row r = .apply) : row.status.terminal = false := by
  unfold judge at h
  by_contra hne
  have hterminal : row.status.terminal = true := by simpa using hne
  simp only [hterminal, if_true] at h
  split_ifs at h

theorem applyTo_change {result : Result} (h : applyTo s now r = .ok (s', result)) (hb : Books s) : Change s s' := by
  unfold applyTo at h
  split at h
  · obtain ⟨rfl, -⟩ := Prod.mk.inj (Except.ok.inj h)
    exact (review_frame _ _ _ _).change
  · rename_i row hget
    split at h
    · obtain ⟨rfl, -⟩ := Prod.mk.inj (Except.ok.inj h)
      exact (review_frame _ _ _ _).change
    · obtain ⟨rfl, -⟩ := Prod.mk.inj (Except.ok.inj h)
      exact (recordVersion_frame _ _).change
    · rename_i hjudge
      obtain ⟨s₁, hs₁, h⟩ := of_bind h
      obtain ⟨rfl, -⟩ := Prod.mk.inj (Except.ok.inj h)
      exact (advance_change hs₁ hb hget (judge_apply hjudge)).frame (recordVersion_frame _ _)

theorem apply_change {e : Settings τ} {event : Option String} {result : Result}
    (h : apply e now r event s = .ok (s', result)) (hb : Books s) : Change s s' := by
  replace h := of_check h
  replace h := of_check h
  split at h
  · replace h := of_check h
    obtain ⟨rfl, -⟩ := Prod.mk.inj (Except.ok.inj h)
    exact .same rfl rfl rfl
  · obtain ⟨⟨s₁, result₁⟩, hs₁, h⟩ := of_bind h
    obtain ⟨rfl, -⟩ := Prod.mk.inj (Except.ok.inj h)
    exact (applyTo_change hs₁ hb).frame (recordEvent_frame _ _ _ _)

theorem findOperation_eq_ok {merchant : Option String} (h : findOperation s op merchant = .ok row) :
    s.operations.get? op = some row := by
  unfold findOperation at h
  split at h
  · rename_i row' hget
    split at h
    · rw [hget, Except.ok.inj h]
    · cases h
  · cases h

variable {merchant : String}

theorem checkRefund_spec {parent : Option String} (h : checkRefund s merchant amount parent = .ok ()) {p : String}
    (hp : parent = some p) : ∃ source, s.operations.get? p = some source ∧ refundsOf s p + amount ≤ source.amount := by
  subst hp
  obtain ⟨source, hsource, h⟩ := of_bind h
  replace h := of_check h
  exact ⟨source, findOperation_eq_ok hsource, require_eq_ok.mp h⟩

theorem money_pos {u : Unit} (h : money amount = .ok u) : 0 < amount := by
  have hrange : 1 ≤ amount ∧ amount ≤ 100000000 := require_eq_ok.mp h
  linarith [hrange.1]

theorem insertOperation_change {body : Request} (h : insertOperation s now op merchant body = .ok (s', row))
    (hb : Books s) (hamount : 0 < body.amount) : Change s s' := by
  replace h := of_check h
  replace h := of_check h
  obtain ⟨_, hwallet, h⟩ := of_bind h
  obtain ⟨_, hrefund, h⟩ := of_bind h
  obtain ⟨_, hnew, h⟩ := of_bind h
  obtain ⟨s₁, hs₁, h⟩ := of_bind h
  obtain ⟨rfl, -⟩ := Prod.mk.inj (Except.ok.inj h)
  have hnew' : s.operations.get? op = none := require_eq_ok.mp hnew
  have hopened := fun hoperations hposted => @Change.opened τ s s₁ op (newOperation merchant body)
    hnew' (Dict.contains_iff.mp (require_eq_ok.mp hwallet)) hamount rfl
    (fun p hp => checkRefund_spec hrefund hp) hoperations hposted
  refine Change.frame ?_ (enqueue_frame _ _ _)
  unfold reserveFunds at hs₁
  split at hs₁
  · rename_i hk
    obtain rfl := Except.ok.inj hs₁
    exact hopened rfl (.inl ⟨hk, rfl, rfl⟩)
  · rename_i hk
    obtain ⟨⟨w, hposted⟩, heq⟩ := post_posted hs₁ (get?_set_self _ _ _) (hb.ledger_none hnew' _)
    have hoperations := congrArg Store.operations heq
    refine hopened hoperations (.inr ⟨hk, w, ?_⟩)
    exact ⟨hposted.fresh, hposted.ledger, hposted.wallet, hposted.available, hposted.held, hposted.moved, hposted.sum⟩

theorem create_change {body : Request} (h : create now op merchant body s = .ok (s', row)) (hb : Books s) :
    Change s s' := by
  obtain ⟨_, hcheck, h⟩ := of_bind h
  replace hcheck := of_check hcheck
  replace hcheck := of_check hcheck
  obtain ⟨_, hmoney, -⟩ := of_bind hcheck
  split at h
  · replace h := of_check h
    obtain ⟨rfl, -⟩ := Prod.mk.inj (Except.ok.inj h)
    exact .same rfl rfl rfl
  · exact insertOperation_change h hb (money_pos hmoney)

end SystemDesign.Payment
