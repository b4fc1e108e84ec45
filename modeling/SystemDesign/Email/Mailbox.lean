import SystemDesign.Email.Store

/-!
What one shard keeps: a receipt for every sent mail, a delivery for every received one.

`Store.Fine` ties the three tables together and `Store.Moves` is what a transaction leaves of
them. Which mail a receipt names is never a matter of digests: a second mail of the same
identifier cannot be inserted.
-/

namespace SystemDesign.Email.Store

open Dict

variable {c : Setup} {store store' store'' : Store}

/-- A row of the outbox goes on. -/
structure Outbox.Follows (row row' : Outbox) : Prop where
  user : row'.user = row.user
  mail : row'.mail = row.mail
  raw : row'.raw = row.raw
  sender : row'.sender = row.sender
  recipients : row'.recipients = row.recipients
  done : row.status = .done → row' = row

theorem Outbox.Follows.refl (row : Outbox) : Outbox.Follows row row := ⟨rfl, rfl, rfl, rfl, rfl, fun _ => rfl⟩

/-- A mail stays what it was, but for its state. -/
structure Mail.Follows (mail mail' : Mail) : Prop where
  user : mail'.user = mail.user
  folder : mail'.descriptor.folder = mail.descriptor.folder
  deliveryId : mail'.descriptor.deliveryId = mail.descriptor.deliveryId

theorem Mail.Follows.refl (mail : Mail) : Mail.Follows mail mail := ⟨rfl, rfl, rfl⟩

structure Moves (store store' : Store) : Prop where
  receipts : ∀ key r, store.receipts.get? key = some r → store'.receipts.get? key = some r
  deliveries : ∀ key r, store.deliveries.get? key = some r → store'.deliveries.get? key = some r
  outbox : ∀ id row, store.outbox.get? id = some row → ∃ row', store'.outbox.get? id = some row' ∧ Outbox.Follows row row'
  mails : ∀ id mail, store.mails.get? id = some mail → ∃ mail', store'.mails.get? id = some mail' ∧ Mail.Follows mail mail'

theorem Moves.refl (store : Store) : store.Moves store :=
  ⟨fun _ _ h => h, fun _ _ h => h, fun _ row h => ⟨row, h, .refl row⟩, fun _ mail h => ⟨mail, h, .refl mail⟩⟩

/-- What holds of a shard. -/
structure Fine (c : Setup) (store : Store) : Prop where
  sent : ∀ user key r, store.receipts.get? (user, key) = some r →
    (∃ mail, store.mails.get? r.mail = some mail ∧ mail.user = user ∧ mail.descriptor.folder = .sent ∧
      mail.descriptor.deliveryId = name c user key "delivery") ∧
    ∃ row, store.outbox.get? (name c user key "delivery") = some row ∧ row.user = user ∧ row.mail = r.mail
  distinct : ∀ key key' r r', store.receipts.get? key = some r → store.receipts.get? key' = some r' →
    r.mail = r'.mail → key = key'
  received : ∀ user delivery r, store.deliveries.get? (user, delivery) = some r →
    ∃ mail, store.mails.get? r.mail = some mail ∧ mail.user = user ∧ mail.descriptor.folder ≠ .sent ∧
      mail.descriptor.deliveryId = delivery
  ofSent : ∀ id mail, store.mails.get? id = some mail → mail.descriptor.folder = .sent →
    ∃ key r, store.receipts.get? (mail.user, key) = some r ∧ r.mail = id
  ofReceived : ∀ id mail, store.mails.get? id = some mail → mail.descriptor.folder ≠ .sent →
    ∃ r, store.deliveries.get? (mail.user, mail.descriptor.deliveryId) = some r ∧ r.mail = id
  ofOutbox : ∀ id row, store.outbox.get? id = some row →
    ∃ key r, store.receipts.get? (row.user, key) = some r ∧ r.mail = row.mail ∧ id = name c row.user key "delivery"
  accepted : ∀ id mail, store.mails.get? id = some mail → mail.descriptor.folder = .sent →
    mail.descriptor.delivery = "smtp-accepted" →
    ∃ row, store.outbox.get? mail.descriptor.deliveryId = some row ∧ row.mail = id ∧ row.status = .done

/-! ### Inserted mails -/

variable {d : Descriptor} {user : String}

theorem insertMail_ok {mail : String} (h : store.insertMail user mail d = .ok store') :
    store.mails.get? mail = none ∧ store' = { store with mails := store.mails.set mail ⟨user, d, 1⟩ } := by
  obtain ⟨_, hnew, heq⟩ := of_bind h
  rw [require_eq_ok, Option.isNone_iff_eq_none] at hnew
  cases heq
  exact ⟨hnew, rfl⟩

variable {reply : Reply} {body : String} {now : ℚ}

theorem enqueue_cases {key fingerprint raw : String}
    (h : store.enqueue c now user key fingerprint d body raw = .ok (reply, store')) : d.folder = .sent ∧
    ((∃ old, store.receipts.get? (user, key) = some old ∧ old.hash = fingerprint ∧ reply = ⟨old.mail, true⟩ ∧
        store' = store) ∨
      (store.receipts.get? (user, key) = none ∧ store.mails.get? (name c user key "sent") = none ∧
        store.outbox.get? d.deliveryId = none ∧ reply = ⟨name c user key "sent", false⟩ ∧
        store' = { store with
          mails := store.mails.set (name c user key "sent") ⟨user, d, 1⟩
          receipts := store.receipts.set (user, key) ⟨fingerprint, name c user key "sent"⟩
          outbox := store.outbox.set d.deliveryId
            ⟨user, name c user key "sent", raw, d.sender, d.recipients, .pending, 0, now, 0, "", ""⟩ })) := by
  replace h := of_check h
  replace h := of_check h
  obtain ⟨_, hfolder, h⟩ := of_bind h
  replace h := of_check h
  replace h := of_check h
  rw [require_eq_ok] at hfolder
  refine ⟨hfolder, ?_⟩
  split at h
  · rename_i old hold
    obtain ⟨_, hhash, heq⟩ := of_bind h
    rw [require_eq_ok] at hhash
    cases heq
    exact .inl ⟨old, hold, hhash, rfl, rfl⟩
  · rename_i hnone
    obtain ⟨inserted, hinsert, h⟩ := of_bind h
    obtain ⟨_, hfree, heq⟩ := of_bind h
    rw [require_eq_ok, Option.isNone_iff_eq_none] at hfree
    cases heq
    obtain ⟨hnew, rfl⟩ := insertMail_ok hinsert
    exact .inr ⟨hnone, hnew, hfree, rfl, rfl⟩

variable {delivery : String}

theorem receive_cases (h : store.receive c user delivery d body = .ok (reply, store')) :
    d.folder ≠ .sent ∧ d.deliveryId = delivery ∧
    ((∃ prior, store.deliveries.get? (user, delivery) = some prior ∧ store' = store) ∨
      ∃ hash, store.deliveries.get? (user, delivery) = none ∧ store.mails.get? (name c user delivery "inbox") = none ∧
        store' = { store with
          mails := store.mails.set (name c user delivery "inbox") ⟨user, d, 1⟩
          deliveries := store.deliveries.set (user, delivery) ⟨hash, name c user delivery "inbox"⟩ }) := by
  replace h := of_check h
  replace h := of_check h
  obtain ⟨_, hvalid, h⟩ := of_bind h
  rw [require_eq_ok] at hvalid
  refine ⟨hvalid.1, hvalid.2, ?_⟩
  split at h
  · rename_i prior hprior
    have heq := of_check h
    cases heq
    exact .inl ⟨prior, hprior, rfl⟩
  · rename_i hnone
    obtain ⟨inserted, hinsert, heq⟩ := of_bind h
    cases heq
    obtain ⟨hnew, rfl⟩ := insertMail_ok hinsert
    exact .inr ⟨_, hnone, hnew, rfl⟩

theorem Moves.enqueue {key fingerprint raw : String}
    (h : store.enqueue c now user key fingerprint d body raw = .ok (reply, store')) : store.Moves store' := by
  obtain ⟨-, ⟨old, -, -, -, rfl⟩ | ⟨hnone, hnew, hfree, -, rfl⟩⟩ := enqueue_cases h
  · exact .refl _
  · refine ⟨fun key' r hget => ?_, fun _ _ hget => hget, fun id row hget => ⟨row, ?_, .refl row⟩,
      fun id mail hget => ⟨mail, ?_, .refl mail⟩⟩
    · rw [get?_set_of_ne]
      · exact hget
      · rintro rfl
        cases hget.symm.trans hnone
    · rw [get?_set_of_ne]
      · exact hget
      · rintro rfl
        cases hget.symm.trans hfree
    · rw [get?_set_of_ne]
      · exact hget
      · rintro rfl
        cases hget.symm.trans hnew

theorem Moves.receive (h : store.receive c user delivery d body = .ok (reply, store')) : store.Moves store' := by
  obtain ⟨-, -, ⟨prior, -, rfl⟩ | ⟨hash, hnone, hnew, rfl⟩⟩ := receive_cases h
  · exact .refl _
  · refine ⟨fun _ _ hget => hget, fun key' r hget => ?_, fun id row hget => ⟨row, hget, .refl row⟩,
      fun id mail hget => ⟨mail, ?_, .refl mail⟩⟩
    · rw [get?_set_of_ne]
      · exact hget
      · rintro rfl
        cases hget.symm.trans hnone
    · rw [get?_set_of_ne]
      · exact hget
      · rintro rfl
        cases hget.symm.trans hnew

theorem Fine.enqueue (hfine : store.Fine c) {now : ℚ} {user key fingerprint body raw : String} {d : Descriptor}
    {reply : Reply} (h : store.enqueue c now user key fingerprint d body raw = .ok (reply, store'))
    (hdelivery : d.deliveryId = name c user key "delivery") (hqueued : d.delivery = "queued") : store'.Fine c := by
  have hmoves := Moves.enqueue h
  obtain ⟨hfolder, ⟨old, -, -, -, rfl⟩ | ⟨hnone, hnew, hfree, -, rfl⟩⟩ := enqueue_cases h
  · exact hfine
  have hnotMail : ∀ key' r, store.receipts.get? key' = some r → r.mail ≠ name c user key "sent" := by
    rintro ⟨user', key'⟩ r hr heq
    obtain ⟨⟨mail, hmail, -⟩, -⟩ := hfine.sent user' key' r hr
    rw [heq] at hmail
    cases hmail.symm.trans hnew
  refine ⟨fun user' key' r hr => ?_, fun k k' r r' hr hr' hsame => ?_, fun user' delivery r hr => ?_,
    fun id mail hmail hsent => ?_, fun id mail hmail hreceived => ?_, fun id row hrow => ?_, fun id mail hmail hsent hstate => ?_⟩
  · obtain ⟨heq, rfl⟩ | ⟨-, hr⟩ := get?_set_cases hr
    · cases heq
      refine ⟨⟨⟨_, d, 1⟩, get?_set_self _ _ _, rfl, hfolder, hdelivery⟩,
        ⟨user, name c user key "sent", raw, d.sender, d.recipients, .pending, 0, now, 0, "", ""⟩, ?_, rfl, rfl⟩
      rw [← hdelivery]
      exact get?_set_self _ _ _
    · obtain ⟨⟨mail, hmail, huser, hsent, hid⟩, row, hrow, hrest⟩ := hfine.sent user' key' r hr
      refine ⟨⟨mail, ?_, huser, hsent, hid⟩, row, ?_, hrest⟩
      · rw [get?_set_of_ne _ (hnotMail _ r hr)]
        exact hmail
      · rw [get?_set_of_ne]
        · exact hrow
        · intro heq
          rw [heq] at hrow
          cases hrow.symm.trans hfree
  · obtain ⟨rfl, rfl⟩ | ⟨-, hr⟩ := get?_set_cases hr
    · obtain ⟨rfl, -⟩ | ⟨-, hr'⟩ := get?_set_cases hr'
      · rfl
      · exact absurd hsame.symm (hnotMail _ r' hr')
    · obtain ⟨rfl, rfl⟩ | ⟨-, hr'⟩ := get?_set_cases hr'
      · exact absurd hsame (hnotMail _ r hr)
      · exact hfine.distinct k k' r r' hr hr' hsame
  · obtain ⟨mail, hmail, hrest⟩ := hfine.received user' delivery r hr
    refine ⟨mail, ?_, hrest⟩
    rw [get?_set_of_ne]
    · exact hmail
    · intro heq
      rw [heq] at hmail
      cases hmail.symm.trans hnew
  · obtain ⟨rfl, rfl⟩ | ⟨-, hmail⟩ := get?_set_cases hmail
    · exact ⟨key, _, get?_set_self _ _ _, rfl⟩
    · obtain ⟨key', r, hr, hid⟩ := hfine.ofSent id mail hmail hsent
      exact ⟨key', r, hmoves.receipts _ r hr, hid⟩
  · obtain ⟨-, rfl⟩ | ⟨-, hmail⟩ := get?_set_cases hmail
    · exact absurd hfolder hreceived
    · exact hfine.ofReceived id mail hmail hreceived
  · obtain ⟨rfl, rfl⟩ | ⟨-, hrow⟩ := get?_set_cases hrow
    · exact ⟨key, _, get?_set_self _ _ _, rfl, hdelivery⟩
    · obtain ⟨key', r, hr, hrest⟩ := hfine.ofOutbox id row hrow
      exact ⟨key', r, hmoves.receipts _ r hr, hrest⟩
  · obtain ⟨-, rfl⟩ | ⟨-, hmail⟩ := get?_set_cases hmail
    · rw [hqueued] at hstate
      exact absurd hstate (by decide)
    · obtain ⟨row, hrow, hid, hdone⟩ := hfine.accepted id mail hmail hsent hstate
      obtain ⟨row', hrow', hfollows⟩ := hmoves.outbox _ row hrow
      cases hfollows.done hdone
      exact ⟨row, hrow', hid, hdone⟩

theorem Fine.receive (hfine : store.Fine c) {user body : String} {d : Descriptor} {reply : Reply}
    (h : store.receive c user delivery d body = .ok (reply, store')) : store'.Fine c := by
  have hmoves := Moves.receive h
  obtain ⟨hfolder, hid, ⟨prior, -, rfl⟩ | ⟨hash, hnone, hnew, rfl⟩⟩ := receive_cases h
  · exact hfine
  have hkept : ∀ {id mail}, store.mails.get? id = some mail →
      (store.mails.set (name c user delivery "inbox") ⟨user, d, 1⟩).get? id = some mail := by
    intro id mail hmail
    rw [get?_set_of_ne]
    · exact hmail
    · rintro rfl
      cases hmail.symm.trans hnew
  refine ⟨fun user' key' r hr => ?_, hfine.distinct, fun user' delivery' r hr => ?_,
    fun id mail hmail hsent => ?_, fun id mail hmail hreceived => ?_, hfine.ofOutbox, fun id mail hmail hsent hstate => ?_⟩
  · obtain ⟨⟨mail, hmail, hrest⟩, hrow⟩ := hfine.sent user' key' r hr
    exact ⟨⟨mail, hkept hmail, hrest⟩, hrow⟩
  · obtain ⟨heq, rfl⟩ | ⟨-, hr⟩ := get?_set_cases hr
    · cases heq
      exact ⟨⟨_, d, 1⟩, get?_set_self _ _ _, rfl, hfolder, hid⟩
    · obtain ⟨mail, hmail, hrest⟩ := hfine.received user' delivery' r hr
      exact ⟨mail, hkept hmail, hrest⟩
  · obtain ⟨-, rfl⟩ | ⟨-, hmail⟩ := get?_set_cases hmail
    · exact absurd hsent hfolder
    · exact hfine.ofSent id mail hmail hsent
  · obtain ⟨rfl, rfl⟩ | ⟨-, hmail⟩ := get?_set_cases hmail
    · refine ⟨⟨hash, _⟩, ?_, rfl⟩
      dsimp only
      rw [hid]
      exact get?_set_self _ _ _
    · obtain ⟨r, hr, hmailId⟩ := hfine.ofReceived id mail hmail hreceived
      exact ⟨r, hmoves.deliveries _ r hr, hmailId⟩
  · obtain ⟨-, rfl⟩ | ⟨-, hmail⟩ := get?_set_cases hmail
    · exact absurd hsent hfolder
    · exact hfine.accepted id mail hmail hsent hstate

/-! ### The outbox -/

variable {id : String}

/-- A row that is not done changes what is not kept of it. -/
theorem Fine.setOutbox (hfine : store.Fine c) {row : Outbox} (row' : Outbox)
    (hrow : store.outbox.get? id = some row) (hfollows : Outbox.Follows row row') (hopen : row.status ≠ .done) :
    Fine c { store with outbox := store.outbox.set id row' } ∧ store.Moves { store with outbox := store.outbox.set id row' } := by
  have hforward : ∀ id' old, store.outbox.get? id' = some old →
      ∃ new, (store.outbox.set id row').get? id' = some new ∧ Outbox.Follows old new := by
    intro id' old hold
    rw [get?_set]
    split
    · rename_i hsame
      rw [hsame] at hold
      cases hrow.symm.trans hold
      exact ⟨row', rfl, hfollows⟩
    · exact ⟨old, hold, .refl old⟩
  refine ⟨⟨fun user key r hr => ?_, hfine.distinct, hfine.received, hfine.ofSent, hfine.ofReceived, fun id' new hnew => ?_,
    fun id' mail hmail hsent hstate => ?_⟩, ⟨fun _ _ h => h, fun _ _ h => h, hforward, (Moves.refl store).mails⟩⟩
  · obtain ⟨hmail, old, hold, huser, hid⟩ := hfine.sent user key r hr
    obtain ⟨new, hnew, hnewFollows⟩ := hforward _ old hold
    exact ⟨hmail, new, hnew, hnewFollows.user.trans huser, hnewFollows.mail.trans hid⟩
  · obtain ⟨rfl, rfl⟩ | ⟨-, hold⟩ := get?_set_cases hnew
    · rw [hfollows.user, hfollows.mail]
      exact hfine.ofOutbox _ row hrow
    · exact hfine.ofOutbox id' new hold
  · obtain ⟨old, hold, hid, hdone⟩ := hfine.accepted id' mail hmail hsent hstate
    refine ⟨old, ?_, hid, hdone⟩
    rw [get?_set_of_ne]
    · exact hold
    · intro hsame
      rw [hsame] at hold
      cases hrow.symm.trans hold
      exact hopen hdone

theorem mem_first {ρ : Type} {due : ρ → ℚ} {rows : List (String × ρ)} {entry : String × ρ}
    (h : first due rows = some entry) : entry ∈ rows := by
  have hmem := List.mem_of_mem_head? (Option.mem_def.mpr h)
  rwa [List.mem_mergeSort] at hmem

variable {token : String}

theorem claim_cases {leaseSeconds : ℕ} {job : Option Job}
    (h : store.claim c now leaseSeconds token = .ok (job, store')) : (job = none ∧ store' = store) ∨
    ∃ id row lease, store.outbox.get? id = some row ∧ row.status ≠ .done ∧
      job = some ⟨id, token, row.raw, row.sender, row.recipients, row.attempts + 1⟩ ∧
      store' = { store with outbox := store.outbox.set id { row with
        status := .inflight, attempts := row.attempts + 1, lease := lease, token := token } } := by
  replace h := of_check h
  split at h
  · cases h
    exact .inl ⟨rfl, rfl⟩
  · rename_i id row hfirst
    cases h
    obtain ⟨hentry, hopen⟩ := List.mem_filter.mp (mem_first hfirst)
    refine .inr ⟨id, row, _, mem_entries.mp hentry, fun hdone => ?_, rfl, rfl⟩
    simp [hdone] at hopen

theorem settle_cases {error : Option String} {settled : Bool}
    (h : store.settle c now id token error = .ok (settled, store')) : (settled = false ∧ store' = store) ∨
    ∃ row, store.outbox.get? id = some row ∧ row.token = token ∧ row.status = .inflight ∧ now < row.lease ∧
      ((error ≠ none ∧ ∃ due text, store' = { store with outbox := store.outbox.set id { row with
          status := .pending, due := due, error := text, lease := 0, token := "" } }) ∨
        error = none ∧ ∃ mail, store.mails.get? row.mail = some mail ∧ store' = { store with
          outbox := store.outbox.set id { row with status := .done, error := "", lease := 0, token := "" }
          mails := store.mails.set row.mail mail.smtpAccepted }) := by
  replace h := of_check h
  replace h := of_check h
  split at h
  · cases h
    exact .inl ⟨rfl, rfl⟩
  · rename_i row hrow
    split at h
    · rename_i hcurrent
      obtain ⟨htoken, hstatus, hlease⟩ := hcurrent
      cases error with
      | some error =>
        cases h
        exact .inr ⟨row, hrow, htoken, hstatus, hlease, .inl ⟨Option.some_ne_none _, _, _, rfl⟩⟩
      | none =>
        dsimp only at h
        split at h
        · cases h
        · rename_i mail hmail
          cases h
          exact .inr ⟨row, hrow, htoken, hstatus, hlease, .inr ⟨rfl, mail, hmail, rfl⟩⟩
    · cases h
      exact .inl ⟨rfl, rfl⟩

theorem Fine.claim (hfine : store.Fine c) {leaseSeconds : ℕ} {job : Option Job}
    (h : store.claim c now leaseSeconds token = .ok (job, store')) : store'.Fine c ∧ store.Moves store' := by
  obtain ⟨-, rfl⟩ | ⟨id, row, lease, hrow, hopen, -, rfl⟩ := claim_cases h
  · exact ⟨hfine, .refl _⟩
  · exact hfine.setOutbox _ hrow ⟨rfl, rfl, rfl, rfl, rfl, fun hdone => absurd hdone hopen⟩ hopen

theorem Fine.markAccepted (hfine : store.Fine c) {row : Outbox} {mail : Mail}
    (hrow : store.outbox.get? id = some row) (hdone : row.status = .done)
    (hmail : store.mails.get? row.mail = some mail) :
    Fine c { store with mails := store.mails.set row.mail mail.smtpAccepted } ∧
      store.Moves { store with mails := store.mails.set row.mail mail.smtpAccepted } := by
  have hforward : ∀ id' old, store.mails.get? id' = some old → ∃ new, (store.mails.set row.mail mail.smtpAccepted).get? id' = some new ∧
      Mail.Follows old new := by
    intro id' old hold
    rw [get?_set]
    split
    · rename_i hsame
      rw [hsame] at hold
      cases hmail.symm.trans hold
      exact ⟨_, rfl, ⟨rfl, rfl, rfl⟩⟩
    · exact ⟨old, hold, .refl old⟩
  obtain ⟨key, r, hr, hrMail, hid⟩ := hfine.ofOutbox id row hrow
  refine ⟨⟨fun user key r hr => ?_, hfine.distinct, fun user delivery r hr => ?_, fun id' new hnew hsent => ?_,
    fun id' new hnew hreceived => ?_, hfine.ofOutbox, fun id' new hnew hsent hstate => ?_⟩,
    ⟨fun _ _ h => h, fun _ _ h => h, (Moves.refl store).outbox, hforward⟩⟩
  · obtain ⟨⟨old, hold, huser, hsent, hdelivery⟩, hrest⟩ := hfine.sent user key r hr
    obtain ⟨new, hnew, hfollows⟩ := hforward _ old hold
    exact ⟨⟨new, hnew, hfollows.user.trans huser, hfollows.folder.trans hsent, hfollows.deliveryId.trans hdelivery⟩, hrest⟩
  · obtain ⟨old, hold, huser, hreceived, hdelivery⟩ := hfine.received user delivery r hr
    obtain ⟨new, hnew, hfollows⟩ := hforward _ old hold
    refine ⟨new, hnew, hfollows.user.trans huser, ?_, hfollows.deliveryId.trans hdelivery⟩
    rw [hfollows.folder]
    exact hreceived
  · obtain ⟨rfl, rfl⟩ | ⟨-, hold⟩ := get?_set_cases hnew
    · exact hfine.ofSent _ mail hmail hsent
    · exact hfine.ofSent id' new hold hsent
  · obtain ⟨rfl, rfl⟩ | ⟨-, hold⟩ := get?_set_cases hnew
    · exact hfine.ofReceived _ mail hmail hreceived
    · exact hfine.ofReceived id' new hold hreceived
  · obtain ⟨rfl, rfl⟩ | ⟨-, hold⟩ := get?_set_cases hnew
    · obtain ⟨⟨mail', hmail', -, -, hdelivery⟩, -⟩ := hfine.sent row.user key r hr
      rw [hrMail, hmail] at hmail'
      cases hmail'
      refine ⟨row, ?_, rfl, hdone⟩
      change store.outbox.get? mail.descriptor.deliveryId = some row
      rw [hdelivery, ← hid]
      exact hrow
    · exact hfine.accepted id' new hold hsent hstate

theorem Moves.trans (h : store.Moves store') (h' : store'.Moves store'') : store.Moves store'' where
  receipts key r hr := h'.receipts key r (h.receipts key r hr)
  deliveries key r hr := h'.deliveries key r (h.deliveries key r hr)
  outbox id row hrow := by
    obtain ⟨row', hrow', hfollows⟩ := h.outbox id row hrow
    obtain ⟨row'', hrow'', hfollows'⟩ := h'.outbox id row' hrow'
    refine ⟨row'', hrow'', hfollows'.user.trans hfollows.user, hfollows'.mail.trans hfollows.mail,
      hfollows'.raw.trans hfollows.raw, hfollows'.sender.trans hfollows.sender,
      hfollows'.recipients.trans hfollows.recipients, fun hdone => ?_⟩
    cases hfollows.done hdone
    exact hfollows'.done hdone
  mails id mail hmail := by
    obtain ⟨mail', hmail', hfollows⟩ := h.mails id mail hmail
    obtain ⟨mail'', hmail'', hfollows'⟩ := h'.mails id mail' hmail'
    exact ⟨mail'', hmail'', hfollows'.user.trans hfollows.user, hfollows'.folder.trans hfollows.folder,
      hfollows'.deliveryId.trans hfollows.deliveryId⟩

theorem Fine.settle (hfine : store.Fine c) {error : Option String} {settled : Bool}
    (h : store.settle c now id token error = .ok (settled, store')) : store'.Fine c ∧ store.Moves store' := by
  obtain ⟨-, rfl⟩ | ⟨row, hrow, -, hstatus, -, ⟨-, due, text, rfl⟩ | ⟨-, mail, hmail, rfl⟩⟩ := settle_cases h
  · exact ⟨hfine, .refl _⟩
  · have hopen : row.status ≠ .done := by
      rw [hstatus]
      decide
    exact hfine.setOutbox _ hrow ⟨rfl, rfl, rfl, rfl, rfl, fun hdone => absurd hdone hopen⟩ hopen
  · have hopen : row.status ≠ .done := by
      rw [hstatus]
      decide
    obtain ⟨hset, hsetMoves⟩ := hfine.setOutbox { row with status := .done, error := "", lease := 0, token := "" } hrow
      ⟨rfl, rfl, rfl, rfl, rfl, fun hdone => absurd hdone hopen⟩ hopen
    obtain ⟨hmarked, hmarkedMoves⟩ := hset.markAccepted (get?_set_self _ _ _) rfl hmail
    exact ⟨hmarked, hsetMoves.trans hmarkedMoves⟩

end SystemDesign.Email.Store
