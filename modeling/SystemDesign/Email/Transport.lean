import SystemDesign.Email.Mailbox

/-!
The spool, one transaction at a time.

A row of the spool never changes its message, and once it is done or rejected it does not
change at all.
-/

namespace SystemDesign.Email.Spool

variable {c : Setup} {spool spool' spool'' : Spool}

/-- The hash of an accepted message. -/
def fingerprint (c : Setup) (raw : Bytes) (sender : String) (recipients : List String) : String :=
  c.digest (.arr [.str (c.sha raw), .str sender, .arr (recipients.map .str)])

structure SpoolRow.Follows (row row' : SpoolRow) : Prop where
  hash : row'.hash = row.hash
  recipients : row'.recipients = row.recipients
  closed : row.status ≠ .pending → row' = row

theorem SpoolRow.Follows.refl (row : SpoolRow) : SpoolRow.Follows row row := ⟨rfl, rfl, fun _ => rfl⟩

def Moves (spool spool' : Spool) : Prop :=
  ∀ id row, spool.rows.get? id = some row → ∃ row', spool'.rows.get? id = some row' ∧ SpoolRow.Follows row row'

theorem Moves.refl (spool : Spool) : spool.Moves spool := fun _ row h => ⟨row, h, .refl row⟩

variable {now : ℚ}

theorem accept_cases {raw : Bytes} {sender delivery : String} {recipients : List String} {lost : Bool}
    (h : spool.accept c now raw sender recipients = .ok ((delivery, lost), spool')) : c.deliveryIds raw = [delivery] ∧
    ((∃ prior, spool.rows.get? delivery = some prior ∧ prior.hash = fingerprint c raw sender recipients ∧
        spool' = spool) ∨
      spool.rows.get? delivery = none ∧ spool' = { spool with
        rows := spool.rows.set delivery
          ⟨fingerprint c raw sender recipients, c.sha raw, sender, recipients, .pending, 0, now, "", 0, ""⟩ }) := by
  obtain ⟨_, -, h⟩ := of_bind h
  obtain ⟨_, -, h⟩ := of_bind h
  obtain ⟨_, -, h⟩ := of_bind h
  obtain ⟨_, -, h⟩ := of_bind h
  obtain ⟨_, -, h⟩ := of_bind h
  split at h
  · rename_i delivery' hids
    obtain ⟨_, -, h⟩ := of_bind h
    dsimp only at h
    split at h
    · rename_i prior hprior
      obtain ⟨_, hhash, heq⟩ := of_bind h
      rw [require_eq_ok] at hhash
      cases heq
      exact ⟨hids, .inl ⟨prior, hprior, hhash, rfl⟩⟩
    · rename_i hnone
      cases h
      exact ⟨hids, .inr ⟨hnone, rfl⟩⟩
  · cases h

theorem Moves.accept {raw : Bytes} {sender delivery : String} {recipients : List String} {lost : Bool}
    (h : spool.accept c now raw sender recipients = .ok ((delivery, lost), spool')) : spool.Moves spool' := by
  obtain ⟨-, ⟨prior, -, -, rfl⟩ | ⟨hnone, rfl⟩⟩ := accept_cases h
  · exact .refl _
  · intro id row hrow
    refine ⟨row, ?_, .refl row⟩
    rw [Dict.get?_set_of_ne]
    · exact hrow
    · rintro rfl
      cases hrow.symm.trans hnone

/-- A pending row changes what is not kept of it. -/
theorem Moves.set {id : String} {row : SpoolRow} (row' : SpoolRow) (hrow : spool.rows.get? id = some row)
    (hhash : row'.hash = row.hash) (hrecipients : row'.recipients = row.recipients) (hpending : row.status = .pending) :
    spool.Moves { spool with rows := spool.rows.set id row' } := by
  intro id' old hold
  change ∃ new, (spool.rows.set id row').get? id' = some new ∧ SpoolRow.Follows old new
  rw [Dict.get?_set]
  split
  · rename_i hsame
    rw [hsame] at hold
    cases hrow.symm.trans hold
    exact ⟨row', rfl, hhash, hrecipients, fun hover => absurd hpending hover⟩
  · exact ⟨old, hold, .refl old⟩

theorem claim_cases {leaseSeconds : ℚ} {token : String} {job : Option Job}
    (h : spool.claim c now leaseSeconds token = (job, spool')) : (job = none ∧ spool' = spool) ∨
    ∃ id row lease, spool.rows.get? id = some row ∧ row.status = .pending ∧
      job = some ⟨id, token, row.raw, row.sender, row.recipients, row.attempts + 1⟩ ∧
      spool' = { spool with rows := spool.rows.set id { row with
        token := token, lease := lease, attempts := row.attempts + 1 } } := by
  unfold claim at h
  split at h
  · cases h
    exact .inl ⟨rfl, rfl⟩
  · rename_i id row hfirst
    cases h
    obtain ⟨hentry, hopen⟩ := List.mem_filter.mp (Store.mem_first hfirst)
    rw [Bool.and_eq_true, Bool.and_eq_true, decide_eq_true_eq] at hopen
    exact .inr ⟨id, row, _, Dict.mem_entries.mp hentry, hopen.1.1, rfl, rfl⟩

theorem settle_cases {job : Job} {error : Option String} {rejected settled : Bool}
    (h : spool.settle c now job error rejected = (settled, spool')) : (settled = false ∧ spool' = spool) ∨
    ∃ row row', spool.rows.get? job.id = some row ∧ row.status = .pending ∧ row.token = job.token ∧
      row'.hash = row.hash ∧ row'.recipients = row.recipients ∧ row'.token = "" ∧
      (row'.status = .done → error = none) ∧ spool' = { spool with rows := spool.rows.set job.id row' } := by
  unfold settle at h
  split at h
  · cases h
    exact .inl ⟨rfl, rfl⟩
  · rename_i row hrow
    split at h
    · rename_i hcurrent
      cases h
      refine .inr ⟨row, _, hrow, hcurrent.1, hcurrent.2.1, ?_, ?_, ?_, fun hdone => ?_, rfl⟩
      · rfl
      · rfl
      · rfl
      dsimp only at hdone
      cases error with
      | none => rfl
      | some error =>
        cases rejected <;> cases hdone
    · cases h
      exact .inl ⟨rfl, rfl⟩

theorem Moves.claim {leaseSeconds : ℚ} {token : String} {job : Option Job}
    (h : spool.claim c now leaseSeconds token = (job, spool')) : spool.Moves spool' := by
  obtain ⟨-, rfl⟩ | ⟨id, row, lease, hrow, hpending, -, rfl⟩ := claim_cases h
  · exact .refl _
  · exact .set { row with token := token, lease := lease, attempts := row.attempts + 1 } hrow rfl rfl hpending

theorem Moves.settle {job : Job} {error : Option String} {rejected settled : Bool}
    (h : spool.settle c now job error rejected = (settled, spool')) : spool.Moves spool' := by
  obtain ⟨-, rfl⟩ | ⟨row, row', hrow, hpending, -, hhash, hrecipients, -, -, rfl⟩ := settle_cases h
  · exact .refl _
  · exact .set row' hrow hhash hrecipients hpending

theorem Moves.trans (h : spool.Moves spool') (h' : spool'.Moves spool'') : spool.Moves spool'' := by
  intro id row hrow
  obtain ⟨row', hrow', hfollows⟩ := h id row hrow
  obtain ⟨row'', hrow'', hfollows'⟩ := h' id row' hrow'
  refine ⟨row'', hrow'', hfollows'.hash.trans hfollows.hash, hfollows'.recipients.trans hfollows.recipients, fun hclosed => ?_⟩
  cases hfollows.closed hclosed
  exact hfollows'.closed hclosed

end SystemDesign.Email.Spool
