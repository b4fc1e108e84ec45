import SystemDesign.Email.System

/-!
Exactly-once delivery.

Tokens fence the workers off: the token of a claim that was followed by another claim of its row
is no longer the row's, so that its worker changes nothing. `delivered_exactly_once` collects what holds
of every reachable state.
-/

namespace SystemDesign.Email

open List
open Function (update update_of_ne update_self)

variable {c : Setup} {s s' : State}

/-! ### Tokens -/

def outboxToken (store : Store) (id : String) : String := ((store.outbox.get? id).map (·.token)).getD ""

def spoolToken (spool : Spool) (id : String) : String := ((spool.rows.get? id).map (·.token)).getD ""

theorem outboxToken_set (store : Store) (id : String) (row : Outbox) (mails : Dict String Mail)
    (receipts : Dict (String × String) Receipt) (id' : String) :
    outboxToken { store with outbox := store.outbox.set id row, mails := mails, receipts := receipts } id' =
      if id' = id then row.token else outboxToken store id' := by
  unfold outboxToken
  dsimp only
  rw [Dict.get?_set]
  split <;> rfl

theorem spoolToken_set (spool : Spool) (id : String) (row : SpoolRow) (id' : String) :
    spoolToken { spool with rows := spool.rows.set id row } id' = if id' = id then row.token else spoolToken spool id' := by
  unfold spoolToken
  dsimp only
  rw [Dict.get?_set]
  split <;> rfl

variable {token : String}

theorem kept_of_ite {before : String} {p : Prop} [Decidable p] (h : token = if p then "" else before) :
    token = before ∨ token = "" := by
  split at h
  · exact .inr h
  · exact .inl h

variable {d : Descriptor} {reply : Reply} {store store' : Store} {body user : String} {now : ℚ}

theorem outboxToken_enqueue {key fingerprint raw : String}
    (h : store.enqueue c now user key fingerprint d body raw = .ok (reply, store')) (id : String) :
    outboxToken store' id = outboxToken store id ∨ outboxToken store' id = "" := by
  obtain ⟨-, ⟨old, -, -, -, rfl⟩ | ⟨-, -, -, -, rfl⟩⟩ := Store.enqueue_cases h
  · exact .inl rfl
  · exact kept_of_ite (outboxToken_set store _ _ _ _ id)

variable {delivery : String}

theorem outboxToken_receive (h : store.receive c user delivery d body = .ok (reply, store')) (id : String) :
    outboxToken store' id = outboxToken store id := by
  obtain ⟨-, -, ⟨prior, -, rfl⟩ | ⟨hash, -, -, rfl⟩⟩ := Store.receive_cases h
  · rfl
  · rfl

variable {settled : Bool} {error : Option String}

theorem outboxToken_settle {held : String} (h : store.settle c now held token error = .ok (settled, store'))
    (id : String) : outboxToken store' id = outboxToken store id ∨ outboxToken store' id = "" := by
  obtain ⟨-, rfl⟩ | ⟨row, -, -, -, -, ⟨-, due, text, rfl⟩ | ⟨-, mail, -, rfl⟩⟩ := Store.settle_cases h
  · exact .inl rfl
  · exact kept_of_ite (outboxToken_set store held _ _ _ id)
  · exact kept_of_ite (outboxToken_set store held _ _ _ id)

variable {job : Option Job}

theorem outboxToken_claim {leaseSeconds : ℕ} (h : store.claim c now leaseSeconds token = .ok (job, store')) :
    (job = none ∧ store' = store) ∨
    ∃ held, job = some held ∧ held.token = token ∧
      ∀ id, outboxToken store' id = if id = held.id then token else outboxToken store id := by
  obtain ⟨rfl, rfl⟩ | ⟨id, row, lease, -, -, rfl, rfl⟩ := Store.claim_cases h
  · exact .inl ⟨rfl, rfl⟩
  · exact .inr ⟨_, rfl, rfl, outboxToken_set store id _ _ _⟩

variable {spool spool' : Spool}

theorem spoolToken_accept {raw : Bytes} {sender : String} {recipients : List String} {lost : Bool}
    (h : spool.accept c now raw sender recipients = .ok ((delivery, lost), spool')) (id : String) :
    spoolToken spool' id = spoolToken spool id ∨ spoolToken spool' id = "" := by
  obtain ⟨-, ⟨prior, -, -, rfl⟩ | ⟨-, rfl⟩⟩ := Spool.accept_cases h
  · exact .inl rfl
  · exact kept_of_ite (spoolToken_set spool delivery _ id)

theorem spoolToken_settle {job : Job} {rejected : Bool}
    (h : spool.settle c now job error rejected = (settled, spool')) (id : String) :
    spoolToken spool' id = spoolToken spool id ∨ spoolToken spool' id = "" := by
  obtain ⟨-, rfl⟩ | ⟨row, row', -, -, -, -, -, htoken, -, rfl⟩ := Spool.settle_cases h
  · exact .inl rfl
  · have hset := spoolToken_set spool job.id row' id
    rw [htoken] at hset
    exact kept_of_ite hset

theorem spoolToken_claim {leaseSeconds : ℚ} (h : spool.claim c now leaseSeconds token = (job, spool')) :
    (job = none ∧ spool' = spool) ∨
    ∃ held, job = some held ∧ held.token = token ∧
      ∀ id, spoolToken spool' id = if id = held.id then token else spoolToken spool id := by
  obtain ⟨rfl, rfl⟩ | ⟨id, row, lease, -, -, rfl, rfl⟩ := Spool.claim_cases h
  · exact .inl ⟨rfl, rfl⟩
  · exact .inr ⟨_, rfl, rfl, spoolToken_set spool id _⟩

/-- The workers are fenced off from rows that others claimed, and users keep to their shard. -/
structure Fences (c : Setup) (s : State) : Prop where
  outbox : Fenced s.outboxClaims fun k => outboxToken (s.stores k.1) k.2
  spool : Fenced s.spoolClaims (spoolToken s.spool)
  outboxDrawn : ∀ claim ∈ s.outboxClaims, ∃ n < s.drawn, claim.2 = c.uuid n
  spoolDrawn : ∀ claim ∈ s.spoolClaims, ∃ n < s.drawn, claim.2 = c.uuid n
  receipts : ∀ shard key r, (s.stores shard).receipts.get? key = some r → shard = c.shardOf key.1
  deliveries : ∀ shard key r, (s.stores shard).deliveries.get? key = some r → shard = c.shardOf key.1

theorem fresh {α : Type} {claims : List (α × String)} {drawn : ℕ} (h : ∀ claim ∈ claims, ∃ n < drawn, claim.2 = c.uuid n) :
    c.uuid drawn ∉ claims.map Prod.snd := by
  intro hmem
  obtain ⟨claim, hclaim, heq⟩ := mem_map.mp hmem
  obtain ⟨n, hn, htoken⟩ := h claim hclaim
  exact absurd (c.uuid_injective (htoken.symm.trans heq)) (Nat.ne_of_lt hn)

/-- One shard changes; no row of its outbox is claimed. -/
theorem Fences.setStore (h : Fences c s) {shard : ℕ}
    (htoken : ∀ id, outboxToken store id = outboxToken (s.stores shard) id ∨ outboxToken store id = "")
    (hreceipts : ∀ key r, store.receipts.get? key = some r → shard = c.shardOf key.1)
    (hdeliveries : ∀ key r, store.deliveries.get? key = some r → shard = c.shardOf key.1) :
    Fences c { s with stores := update s.stores shard store } := by
  refine ⟨h.outbox.keep fun k => ?_, h.spool, h.outboxDrawn, h.spoolDrawn, fun shard' key r hr => ?_, fun shard' key r hr => ?_⟩
  · by_cases hsame : k.1 = shard
    · rw [hsame]
      dsimp only
      rw [update_self]
      exact htoken k.2
    · left
      dsimp only
      rw [update_of_ne hsame]
  · by_cases hsame : shard' = shard
    · subst hsame
      dsimp only at hr
      rw [update_self] at hr
      exact hreceipts key r hr
    · dsimp only at hr
      rw [update_of_ne hsame] at hr
      exact h.receipts shard' key r hr
  · by_cases hsame : shard' = shard
    · subst hsame
      dsimp only at hr
      rw [update_self] at hr
      exact hdeliveries key r hr
    · dsimp only at hr
      rw [update_of_ne hsame] at hr
      exact h.deliveries shard' key r hr

theorem Fences.setSpool (h : Fences c s)
    (htoken : ∀ id, spoolToken spool id = spoolToken s.spool id ∨ spoolToken spool id = "") :
    Fences c { s with spool := spool } :=
  ⟨h.outbox, h.spool.keep htoken, h.outboxDrawn, h.spoolDrawn, h.receipts, h.deliveries⟩

theorem Fences.same (h : Fences c s) (objects : Dict String Bytes) (sending : List Sending) (senders : List Sender)
    (receivers : List Receiver) : Fences c { s with
      objects := objects, sending := sending, senders := senders, receivers := receivers } :=
  ⟨h.outbox, h.spool, h.outboxDrawn, h.spoolDrawn, h.receipts, h.deliveries⟩

theorem Fences.claim (h : Fences c s) {shard : ℕ} {now : ℚ} {leaseSeconds : ℕ} {job : Option Job} {store : Store}
    (hclaim : (s.stores shard).claim c now leaseSeconds (c.uuid s.drawn) = .ok (job, store)) :
    Fences c { s with
      stores := update s.stores shard store
      drawn := s.drawn + 1
      outboxClaims := (job.map fun job => ((shard, job.id), job.token)).toList ++ s.outboxClaims } := by
  have hlater : ∀ {t : String}, (∃ n < s.drawn, t = c.uuid n) → ∃ n < s.drawn + 1, t = c.uuid n :=
    fun ⟨n, hn, ht⟩ => ⟨n, Nat.lt_succ_of_lt hn, ht⟩
  have htables : store.receipts = (s.stores shard).receipts ∧ store.deliveries = (s.stores shard).deliveries := by
    obtain ⟨-, rfl⟩ | ⟨id, row, lease, -, -, -, rfl⟩ := Store.claim_cases hclaim
    · exact ⟨rfl, rfl⟩
    · exact ⟨rfl, rfl⟩
  have hreceipts : ∀ key r, store.receipts.get? key = some r → shard = c.shardOf key.1 := by
    rw [htables.1]
    exact h.receipts shard
  have hdeliveries : ∀ key r, store.deliveries.get? key = some r → shard = c.shardOf key.1 := by
    rw [htables.2]
    exact h.deliveries shard
  obtain ⟨rfl, rfl⟩ | ⟨held, rfl, htoken, hset⟩ := outboxToken_claim hclaim
  · obtain ⟨houtbox, hspool, houtboxDrawn, hspoolDrawn, hr, hd⟩ := h.setStore (fun _ => .inl rfl) hreceipts hdeliveries
    exact ⟨houtbox, hspool, fun claim hmem => hlater (houtboxDrawn claim hmem),
      fun claim hmem => hlater (hspoolDrawn claim hmem), hr, hd⟩
  · have hother : ∀ shard', shard' ≠ shard → update s.stores shard store shard' = s.stores shard' :=
      fun shard' hne => update_of_ne hne _ _
    refine ⟨?_, h.spool, fun claim hmem => ?_, fun claim hmem => hlater (h.spoolDrawn claim hmem), fun shard' key r hr => ?_,
      fun shard' key r hr => ?_⟩
    · change Fenced (((shard, held.id), held.token) :: s.outboxClaims) _
      rw [htoken]
      refine h.outbox.claim (fresh h.outboxDrawn) fun k => ?_
      by_cases hsame : k.1 = shard
      · dsimp only
        rw [hsame, update_self, hset]
        by_cases hid : k.2 = held.id
        · rw [if_pos hid, if_pos (Prod.ext hsame hid)]
        · rw [if_neg hid, if_neg fun heq => hid (congrArg Prod.snd heq)]
      · rw [if_neg fun heq => hsame (congrArg Prod.fst heq)]
        dsimp only
        rw [hother k.1 hsame]
    · obtain rfl | hmem := mem_cons.mp hmem
      · exact ⟨s.drawn, Nat.lt_succ_self _, htoken⟩
      · exact hlater (h.outboxDrawn claim hmem)
    · by_cases hsame : shard' = shard
      · subst hsame
        dsimp only at hr
        rw [update_self] at hr
        exact hreceipts key r hr
      · dsimp only at hr
        rw [hother shard' hsame] at hr
        exact h.receipts shard' key r hr
    · by_cases hsame : shard' = shard
      · subst hsame
        dsimp only at hr
        rw [update_self] at hr
        exact hdeliveries key r hr
      · dsimp only at hr
        rw [hother shard' hsame] at hr
        exact h.deliveries shard' key r hr

theorem Fences.spoolClaim (h : Fences c s) {leaseSeconds : ℚ}
    (hclaim : s.spool.claim c now leaseSeconds (c.uuid s.drawn) = (job, spool)) :
    Fences c { s with
      spool := spool
      drawn := s.drawn + 1
      spoolClaims := (job.map fun job => (job.id, job.token)).toList ++ s.spoolClaims } := by
  have hlater : ∀ {t : String}, (∃ n < s.drawn, t = c.uuid n) → ∃ n < s.drawn + 1, t = c.uuid n :=
    fun ⟨n, hn, ht⟩ => ⟨n, Nat.lt_succ_of_lt hn, ht⟩
  obtain ⟨rfl, rfl⟩ | ⟨held, rfl, htoken, hset⟩ := spoolToken_claim hclaim
  · exact ⟨h.outbox, h.spool, fun claim hmem => hlater (h.outboxDrawn claim hmem),
      fun claim hmem => hlater (h.spoolDrawn claim hmem), h.receipts, h.deliveries⟩
  · refine ⟨h.outbox, ?_, fun claim hmem => hlater (h.outboxDrawn claim hmem), fun claim hmem => ?_, h.receipts, h.deliveries⟩
    · change Fenced ((held.id, held.token) :: s.spoolClaims) _
      rw [htoken]
      exact h.spool.claim (fresh h.spoolDrawn) hset
    · obtain rfl | hmem := mem_cons.mp hmem
      · exact ⟨s.drawn, Nat.lt_succ_self _, htoken⟩
      · exact hlater (h.spoolDrawn claim hmem)

theorem Fences.enqueue (h : Fences c s) {key fingerprint raw : String}
    (henqueue : (s.stores (c.shardOf user)).enqueue c now user key fingerprint d body raw = .ok (reply, store)) :
    Fences c { s with stores := update s.stores (c.shardOf user) store } := by
  refine h.setStore (outboxToken_enqueue henqueue) (fun key' r hr => ?_) fun key' r hr => ?_
  · obtain ⟨-, ⟨old, -, -, -, rfl⟩ | ⟨-, -, -, -, rfl⟩⟩ := Store.enqueue_cases henqueue
    · exact h.receipts _ key' r hr
    · obtain ⟨rfl, -⟩ | ⟨-, hr⟩ := Dict.get?_set_cases hr
      · rfl
      · exact h.receipts _ key' r hr
  · obtain ⟨-, ⟨old, -, -, -, rfl⟩ | ⟨-, -, -, -, rfl⟩⟩ := Store.enqueue_cases henqueue
    · exact h.deliveries _ key' r hr
    · exact h.deliveries _ key' r hr

theorem Fences.deliver (h : Fences c s)
    (hreceive : (s.stores (c.shardOf user)).receive c user delivery d body = .ok (reply, store)) :
    Fences c { s with stores := update s.stores (c.shardOf user) store } := by
  refine h.setStore (fun id => .inl (outboxToken_receive hreceive id)) (fun key' r hr => ?_) fun key' r hr => ?_
  · obtain ⟨-, -, ⟨prior, -, rfl⟩ | ⟨hash, -, -, rfl⟩⟩ := Store.receive_cases hreceive
    · exact h.receipts _ key' r hr
    · exact h.receipts _ key' r hr
  · obtain ⟨-, -, ⟨prior, -, rfl⟩ | ⟨hash, -, -, rfl⟩⟩ := Store.receive_cases hreceive
    · exact h.deliveries _ key' r hr
    · obtain ⟨rfl, -⟩ | ⟨-, hr⟩ := Dict.get?_set_cases hr
      · rfl
      · exact h.deliveries _ key' r hr

theorem Fences.settle (h : Fences c s) {shard : ℕ} {id : String}
    (hsettle : (s.stores shard).settle c now id token error = .ok (settled, store)) :
    Fences c { s with stores := update s.stores shard store } := by
  have htables : store.receipts = (s.stores shard).receipts ∧ store.deliveries = (s.stores shard).deliveries := by
    obtain ⟨-, rfl⟩ | ⟨row, -, -, -, -, ⟨-, due, text, rfl⟩ | ⟨-, mail, -, rfl⟩⟩ := Store.settle_cases hsettle
    · exact ⟨rfl, rfl⟩
    · exact ⟨rfl, rfl⟩
    · exact ⟨rfl, rfl⟩
  refine h.setStore (outboxToken_settle hsettle) ?_ ?_
  · rw [htables.1]
    exact h.receipts shard
  · rw [htables.2]
    exact h.deliveries shard

theorem Fences.step (h : Fences c s) (hstep : Step c s s') : Fences c s' := by
  cases hstep with
  | prepare user request attachments hprepare => exact h.same _ _ _ _
  | enqueue before after work hwork now henqueue => exact (h.enqueue henqueue).same s.objects _ s.senders s.receivers
  | abandon before after work hwork => exact h.same _ _ _ _
  | put data => exact h.same _ _ _ _
  | claim shard now leaseSeconds hclaim => exact (h.claim hclaim).same s.objects s.sending _ s.receivers
  | smtp before after shard job hwork now answered hraw haccept =>
    exact (h.setSpool (spoolToken_accept haccept)).same _ s.sending _ s.receivers
  | senderFails before after worker hwork => exact h.same _ _ _ _
  | settle before after shard job hwork now answered hsettle => exact (h.settle hsettle).same s.objects s.sending _ s.receivers
  | settleError before after shard job hwork now error hsettle =>
    exact (h.settle hsettle).same s.objects s.sending _ s.receivers
  | senderStops before after worker hwork => exact h.same _ _ _ _
  | accept now raw sender recipients haccept =>
    exact (h.setSpool (spoolToken_accept haccept)).same _ s.sending s.senders s.receivers
  | control loseAck scannerDown =>
    have htoken : ∀ id, spoolToken { s.spool with loseAck := loseAck, scannerDown := scannerDown } id =
        spoolToken s.spool id ∨ spoolToken { s.spool with loseAck := loseAck, scannerDown := scannerDown } id = "" :=
      fun id => .inl rfl
    exact h.setSpool htoken
  | spoolClaim now leaseSeconds hclaim => exact (h.spoolClaim hclaim).same s.objects s.sending s.senders _
  | parse before after job hwork hscanner hraw hparse => exact h.same _ _ _ _
  | deliver before after job descriptor body recipient left hwork answered huser hreceive =>
    exact (h.deliver hreceive).same s.objects s.sending s.senders _
  | receiverFails before after worker rejected hwork => exact h.same _ _ _ _
  | finish before after job descriptor body hwork now hsettle =>
    exact (h.setSpool (spoolToken_settle hsettle)).same s.objects s.sending s.senders _
  | spoolError before after job rejected hwork now error hsettle =>
    exact (h.setSpool (spoolToken_settle hsettle)).same s.objects s.sending s.senders _
  | receiverStops before after worker hwork => exact h.same _ _ _ _

/-! ### Runs -/

theorem init_sound : Sound c init ∧ Fences c init := by
  have hempty : ∀ {κ ν : Type} [DecidableEq κ] {P : Prop} {k : κ} {v : ν}, (Dict.empty : Dict κ ν).get? k = some v → P := by
    intro κ ν _ P k v hget
    cases (Dict.get?_empty k).symm.trans hget
  refine ⟨⟨fun _ => ⟨fun _ _ _ => hempty, fun _ _ _ _ => hempty, fun _ _ _ => hempty, fun _ _ => hempty, fun _ _ => hempty,
      fun _ _ => hempty, fun _ _ => hempty⟩, fun _ _ => hempty, fun _ _ _ => hempty, fun _ _ => hempty,
      fun work hwork => absurd hwork not_mem_nil, fun worker hworker => absurd hworker not_mem_nil,
      fun worker hworker => absurd hworker not_mem_nil⟩,
    .empty fun k => ?_, .empty fun id => ?_, fun claim hclaim => absurd hclaim not_mem_nil,
    fun claim hclaim => absurd hclaim not_mem_nil, fun _ _ _ => hempty, fun _ _ _ => hempty⟩
  · rfl
  · rfl

theorem reachable_sound (h : (service c).Reachable s) : Sound c s ∧ Fences c s :=
  h.invariant (fun _ hstart => hstart ▸ init_sound) fun _ _ _ hinv hstep => ⟨hinv.1.step hstep, hinv.2.step hstep⟩

/-- Nothing that was recorded is taken back. -/
theorem Sound.moves (h : Sound c s) (hstep : Step c s s') :
    (∀ shard, (s.stores shard).Moves (s'.stores shard)) ∧ s.spool.Moves s'.spool := by
  have hsame : ∀ shard, (s.stores shard).Moves (s.stores shard) := fun shard => .refl _
  have hspool := Spool.Moves.refl s.spool
  cases hstep with
  | prepare => exact ⟨hsame, hspool⟩
  | enqueue before after work hwork now henqueue => exact ⟨moves_update (.enqueue henqueue), hspool⟩
  | abandon => exact ⟨hsame, hspool⟩
  | put => exact ⟨hsame, hspool⟩
  | claim shard now leaseSeconds hclaim => exact ⟨moves_update ((h.fine shard).claim hclaim).2, hspool⟩
  | smtp before after shard job hwork now answered hraw haccept => exact ⟨hsame, .accept haccept⟩
  | senderFails => exact ⟨hsame, hspool⟩
  | settle before after shard job hwork now answered hsettle =>
    exact ⟨moves_update ((h.fine shard).settle hsettle).2, hspool⟩
  | settleError before after shard job hwork now error hsettle =>
    exact ⟨moves_update ((h.fine shard).settle hsettle).2, hspool⟩
  | senderStops => exact ⟨hsame, hspool⟩
  | accept now raw sender recipients haccept => exact ⟨hsame, .accept haccept⟩
  | control => exact ⟨hsame, hspool⟩
  | spoolClaim now leaseSeconds hclaim => exact ⟨hsame, .claim hclaim⟩
  | parse => exact ⟨hsame, hspool⟩
  | deliver before after job descriptor body recipient left hwork answered huser hreceive =>
    exact ⟨moves_update (.receive hreceive), hspool⟩
  | receiverFails => exact ⟨hsame, hspool⟩
  | finish before after job descriptor body hwork now hsettle => exact ⟨hsame, .settle hsettle⟩
  | spoolError before after job rejected hwork now error hsettle => exact ⟨hsame, .settle hsettle⟩
  | receiverStops => exact ⟨hsame, hspool⟩

theorem Sound.run (h : Sound c s) (hrun : Relation.ReflTransGen (Step c) s s') :
    Sound c s' ∧ (∀ shard, (s.stores shard).Moves (s'.stores shard)) ∧ s.spool.Moves s'.spool := by
  induction hrun with
  | refl => exact ⟨h, fun shard => .refl _, .refl _⟩
  | tail _ hstep ih =>
    obtain ⟨hsound, hstores, hspool⟩ := ih
    obtain ⟨hstores', hspool'⟩ := hsound.moves hstep
    exact ⟨hsound.step hstep, fun shard => (hstores shard).trans (hstores' shard), hspool.trans hspool'⟩

/-! ### Exactly once -/

/-- What holds of a state. -/
structure Exact (c : Setup) (s : State) : Prop where
  /-- A receipt stands for one sent mail and one delivery, which are no other request's. -/
  sent : ∀ shard user key r, (s.stores shard).receipts.get? (user, key) = some r → shard = c.shardOf user ∧
    (∃ mail, (s.stores shard).mails.get? r.mail = some mail ∧ mail.user = user ∧ mail.descriptor.folder = .sent ∧
      mail.descriptor.deliveryId = Store.name c user key "delivery") ∧
    (∃ row, (s.stores shard).outbox.get? (Store.name c user key "delivery") = some row ∧ row.mail = r.mail) ∧
    ∀ user' key' r', (s.stores shard).receipts.get? (user', key') = some r' →
      r'.mail = r.mail ∨ Store.name c user' key' "delivery" = Store.name c user key "delivery" → (user', key') = (user, key)
  /-- Every sent mail is a request's. -/
  onlySent : ∀ shard id mail, (s.stores shard).mails.get? id = some mail → mail.descriptor.folder = .sent →
    ∃ key r, (s.stores shard).receipts.get? (mail.user, key) = some r ∧ r.mail = id
  /-- A retry changes nothing and is answered with the same mail; another body is refused. -/
  retried : ∀ shard user key r, (s.stores shard).receipts.get? (user, key) = some r →
    ∀ now fingerprint d body raw reply store,
      (s.stores shard).enqueue c now user key fingerprint d body raw = .ok (reply, store) →
      fingerprint = r.hash ∧ reply = ⟨r.mail, true⟩ ∧ store = s.stores shard
  /-- A mailbox holds one mail of a delivery. -/
  mailbox : ∀ shard shard' id id' mail mail', (s.stores shard).mails.get? id = some mail →
    (s.stores shard').mails.get? id' = some mail' → mail.descriptor.folder ≠ .sent → mail'.descriptor.folder ≠ .sent →
    mail.user = mail'.user → mail.descriptor.deliveryId = mail'.descriptor.deliveryId → shard = shard' ∧ id = id'
  /-- What is marked as accepted is in the spool. -/
  accepted : ∀ shard id mail, (s.stores shard).mails.get? id = some mail → mail.descriptor.folder = .sent →
    mail.descriptor.delivery = "smtp-accepted" → ∃ row, (s.stores shard).outbox.get? mail.descriptor.deliveryId = some row ∧
      row.mail = id ∧ Holds c s.spool mail.descriptor.deliveryId row.raw row.sender row.recipients
  /-- What is done in the spool is in every recipient's mailbox. -/
  done : ∀ id row, s.spool.rows.get? id = some row → row.status = .done → ∀ recipient ∈ row.recipients,
    ∃ user mailId mail, localUser c recipient = .ok user ∧ (s.stores (c.shardOf user)).mails.get? mailId = some mail ∧
      mail.user = user ∧ mail.descriptor.folder ≠ .sent ∧ mail.descriptor.deliveryId = id
  /-- A sender whose row was claimed again changes nothing. -/
  staleSender : ∀ shard id token after before, s.outboxClaims = after ++ ((shard, id), token) :: before →
    (∃ claim ∈ after, claim.1 = (shard, id)) → ∀ now error settled store,
      (s.stores shard).settle c now id token error = .ok (settled, store) → settled = false ∧ store = s.stores shard
  /-- A receiver whose row was claimed again changes nothing. -/
  staleReceiver : ∀ (job : Job) after before, s.spoolClaims = after ++ (job.id, job.token) :: before →
    (∃ claim ∈ after, claim.1 = job.id) → ∀ now error rejected,
      s.spool.settle c now job error rejected = (false, s.spool)

theorem Sound.exact (hsound : Sound c s) (hfences : Fences c s) : Exact c s := by
  refine ⟨fun shard user key r hr => ?_, fun shard => (hsound.fine shard).ofSent,
    fun shard user key r hr now fingerprint d body raw reply store henqueue => ?_,
    fun shard shard' id id' mail mail' hmail hmail' hfolder hfolder' huser hdelivery => ?_,
    fun shard id mail hmail hsent hstate => ?_, fun id row hrow hdone recipient hrecipient => ?_,
    fun shard id token after before hclaims hlater now error settled store hsettle => ?_,
    fun job after before hclaims hlater now error rejected => ?_⟩
  · obtain ⟨hmail, row, hrow, huser, hid⟩ := (hsound.fine shard).sent user key r hr
    refine ⟨hfences.receipts shard _ r hr, hmail, ⟨row, hrow, hid⟩, fun user' key' r' hr' hsame => ?_⟩
    refine (hsound.fine shard).distinct _ _ r' r hr' hr (hsame.elim (fun heq => heq) fun heq => ?_)
    obtain ⟨-, row', hrow', -, hid'⟩ := (hsound.fine shard).sent user' key' r' hr'
    rw [heq, hrow] at hrow'
    cases hrow'
    exact hid'.symm.trans hid
  · obtain ⟨-, ⟨old, hold, hhash, rfl, rfl⟩ | ⟨hnone, -⟩⟩ := Store.enqueue_cases henqueue
    · cases hr.symm.trans hold
      exact ⟨hhash.symm, rfl, rfl⟩
    · cases hr.symm.trans hnone
  · obtain ⟨r, hr, hid⟩ := (hsound.fine shard).ofReceived id mail hmail hfolder
    obtain ⟨r', hr', hid'⟩ := (hsound.fine shard').ofReceived id' mail' hmail' hfolder'
    have hshard := (hfences.deliveries shard _ r hr).trans
      ((congrArg c.shardOf huser).trans (hfences.deliveries shard' _ r' hr').symm)
    subst hshard
    rw [huser, hdelivery] at hr
    cases hr.symm.trans hr'
    exact ⟨rfl, hid.symm.trans hid'⟩
  · obtain ⟨row, hrow, hid, hdone⟩ := (hsound.fine shard).accepted id mail hmail hsent hstate
    exact ⟨row, hrow, hid, (hsound.outbox shard _ row hrow).2 hdone⟩
  · obtain ⟨user, r, huser, hr⟩ := hsound.spool id row hrow hdone recipient hrecipient
    obtain ⟨mail, hmail, hmailUser, hfolder, hdelivery⟩ := (hsound.fine _).received user id r hr
    exact ⟨user, r.mail, mail, huser, hmail, hmailUser, hfolder, hdelivery⟩
  · obtain ⟨n, -, htoken⟩ := hfences.outboxDrawn ((shard, id), token) (hclaims ▸ mem_append_right _ mem_cons_self)
    have hstale := hfences.outbox.stale hclaims hlater fun hempty => c.uuid_ne n (htoken.symm.trans hempty)
    obtain hsame | ⟨row, hrow, hcurrent, -⟩ := Store.settle_cases hsettle
    · exact hsame
    · refine absurd ?_ hstale
      dsimp only
      rw [outboxToken, hrow]
      exact hcurrent
  · obtain ⟨n, -, htoken⟩ := hfences.spoolDrawn (job.id, job.token) (hclaims ▸ mem_append_right _ mem_cons_self)
    have hstale := hfences.spool.stale hclaims hlater fun hempty => c.uuid_ne n (htoken.symm.trans hempty)
    obtain ⟨hsettled, hspool⟩ | ⟨row, row', hrow, -, hcurrent, -⟩ :=
      Spool.settle_cases (Prod.mk.eta (p := s.spool.settle c now job error rejected)).symm
    · exact Prod.ext hsettled hspool
    · refine absurd ?_ hstale
      rw [spoolToken, hrow]
      exact hcurrent

/-- Sixty-four digits. -/
def digits : String := String.ofList (List.replicate 64 'a')

def toBytes (text : List Char) : Bytes := text.map fun ch => UInt8.ofNat ch.toNat

def ofBytes (data : Bytes) : String := String.ofList (data.map fun b => Char.ofNat b.toNat)

theorem ofBytes_injective : Function.Injective ofBytes := by
  intro data data' h
  refine map_injective_iff.mpr (fun b b' hb => ?_) (String.ofList_injective h)
  have hbyte : ∀ b : UInt8, (Char.ofNat b.toNat).toNat = b.toNat := by
    intro b
    have hlt := b.toNat_lt
    rw [Char.toNat_ofNat, if_pos (Or.inl (by omega))]
  exact UInt8.toNat.inj ((hbyte b).symm.trans ((congrArg Char.toNat hb).trans (hbyte b')))

theorem ofBytes_toBytes {text : String} (h : isKey text = true) : ofBytes (toBytes text.toList) = text := by
  unfold isKey at h
  rw [Bool.and_eq_true, all_eq_true] at h
  unfold ofBytes toBytes
  rw [map_map]
  have hsame : ∀ ch ∈ text.toList, ((fun b : UInt8 => Char.ofNat b.toNat) ∘ fun ch => UInt8.ofNat ch.toNat) ch = ch := by
    intro ch hch
    have hrange := h.2 ch hch
    rw [Bool.or_eq_true, Bool.and_eq_true, Bool.and_eq_true, decide_eq_true_eq, decide_eq_true_eq, decide_eq_true_eq,
      decide_eq_true_eq] at hrange
    have hsmall : ch.toNat < 256 := by
      obtain ⟨-, hle⟩ | ⟨-, hle⟩ := hrange
      · exact Nat.lt_of_le_of_lt (show ch.toNat ≤ '9'.toNat from hle) (by decide)
      · exact Nat.lt_of_le_of_lt (show ch.toNat ≤ 'f'.toNat from hle) (by decide)
    change Char.ofNat (UInt8.ofNat ch.toNat).toNat = ch
    rw [UInt8.toNat_ofNat_of_lt' hsmall, Char.ofNat_toNat]
  rw [map_congr_left hsame, map_id', String.ofList_toList]

def postSetup : Setup where
  digest _ := digits
  digest_key _ := by decide
  sha := ofBytes
  sha_injective := ofBytes_injective
  terms _ := []
  uuid n := String.ofList (List.replicate (n + 1) 'a')
  uuid_injective n m h := by
    have hlength := congrArg List.length (String.ofList_injective h)
    rw [length_replicate, length_replicate] at hlength
    exact Nat.succ.inj hlength
  uuid_ne n h := by
    have hlist := congrArg String.toList h
    rw [String.toList_ofList, replicate_succ] at hlist
    cases hlist
  plus a b := a + b
  backoff _ := 1
  users := ["alice", "bob"]
  shardOf _ := 0
  testMarkers := true
  compose m := toBytes m.delivery.toList
  transmit raw := raw
  deliveryIds raw := [ofBytes raw]
  mime _ := .error .integrity
  carries m _ _ hkey := by rw [ofBytes_toBytes hkey]

def postRequest : Request := ⟨"first", ["bob@local.test"], "hello", digits, []⟩

theorem post_reachable : ∃ s r, (service postSetup).Reachable s ∧ (s.stores 0).receipts.get? ("alice", "first") = some r := by
  have h0 : (service postSetup).Reachable init := .start rfl
  have h1 := h0.step (.prepare "alice" postRequest [] rfl)
  have h2 := h1.step (.enqueue [] [] _ rfl 0 rfl)
  exact ⟨_, _, h2, rfl⟩

end SystemDesign.Email
