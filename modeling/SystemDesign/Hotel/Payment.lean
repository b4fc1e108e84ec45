import SystemDesign.Hotel.Inventory

/-!
The simulated payment provider (`payment.py`).

`execute` is idempotent by operation id. Its transaction commits before the switch
`fail_after_commit` may drop the reply, so a caller that sees an error does not know
whether its operation was carried out. `effects` is not in the source: it records the
charges and refunds the provider carried out, in order.
-/

namespace SystemDesign.Hotel

inductive ChargeStatus where
  | paid
  | declined
  | refunded
deriving DecidableEq

structure Charge where
  amount : ℤ
  currency : String
  status : ChargeStatus

structure Operation where
  hash : String
  result : Receipt
  attempts : ℕ

structure Provider where
  operations : Dict (Action × String) Operation
  charges : Dict String Charge
  failAfterCommit : Bool
  failRefunds : Bool
  effects : List (Action × String)

def Provider.empty : Provider := ⟨.empty, .empty, false, false, []⟩

/-- `digest` of the operation a job carries. -/
def operationHash (job : JobMessage) : String :=
  digest (.obj [("id", .str (job.action.text ++ ":" ++ job.booking)),
    ("action", .str job.action.text), ("booking_id", .str job.booking),
    ("amount", .int job.amount), ("currency", .str job.currency), ("method", .str job.method)])

/-- A new operation with its receipt. -/
def Provider.record (p : Provider) (job : JobMessage) (charge : Charge) (outcome : Outcome) : Provider × Receipt :=
  let result : Receipt := ⟨job.booking, job.amount, "USD", outcome⟩
  ({ p with
    operations := p.operations.set job.id ⟨operationHash job, result, 1⟩
    charges := p.charges.set job.booking charge
    effects := p.effects ++ [job.id] }, result)

/-- The transaction of `execute`. -/
def Provider.apply (job : JobMessage) (p : Provider) : Except Error (Provider × Receipt) :=
  match p.operations.get? job.id with
  | some old => do
    require (old.hash = operationHash job) (.http 409 "provider idempotency conflict")
    return ({ p with
      operations := p.operations.set job.id { old with attempts := old.attempts + 1 } }, old.result)
  | none =>
    match job.action with
    | .charge => do
      require (p.charges.get? job.booking = none) (.http 409 "charge exists without an operation receipt")
      if job.method = "test-decline" then
        return p.record job ⟨job.amount, "USD", .declined⟩ .declined
      else return p.record job ⟨job.amount, "USD", .paid⟩ .paid
    | .refund => do
      require (p.failRefunds = false) (.http 503 "simulated refund provider unavailable")
      match p.charges.get? job.booking with
      | some charge => do
        require (charge.status = .paid ∧ charge.amount = job.amount ∧ charge.currency = job.currency)
          (.http 409 "refund requires matching paid charge")
        return p.record job { charge with status := .refunded } .refunded
      | none => .error (.http 409 "refund requires matching paid charge")

/-- `SimulatedLedger.execute`: the provider afterwards and what the caller sees. -/
def Provider.execute (p : Provider) (job : JobMessage) : Provider × Except Error Receipt :=
  match normalizeOperation job with
  | .error err => (p, .error err)
  | .ok _ =>
    match transaction p (Provider.apply job) with
    | (p', .ok receipt) =>
      if p.failAfterCommit then
        (p', .error (.http 503 "simulated response lost after durable payment commit"))
      else (p', .ok receipt)
    | (p', .error err) => (p', .error err)

/-! ### What one execution can do -/

/-- The outcome of the operation with an id, if it was carried out. -/
def Provider.outcomeOf (p : Provider) (id : Action × String) : Option Outcome :=
  (p.operations.get? id).map fun op => op.result.status

/-- A new operation: it had not been carried out, and its charge is as it must be. -/
structure Provider.Carries (p : Provider) (job : JobMessage) (outcome : Outcome)
    (charge : Charge) : Prop where
  new : p.outcomeOf job.id = none
  charged : job.action = .charge → p.charges.get? job.booking = none ∧
    (outcome = .paid ∧ charge.status = .paid ∨ outcome = .declined ∧ charge.status = .declined)
  refunded : job.action = .refund → outcome = .refunded ∧ charge.status = .refunded ∧
    ∃ old, p.charges.get? job.booking = some old ∧ old.status = .paid

/-- What an execution may have done to the provider, with the receipt it wrote. -/
def Provider.Executed (p p' : Provider) (job : JobMessage) (receipt : Receipt) : Prop :=
  p'.outcomeOf job.id = some receipt.status ∧
  ((∀ id, p'.outcomeOf id = p.outcomeOf id) ∧ p'.charges = p.charges ∧ p'.effects = p.effects ∨
    ∃ outcome charge, p.Carries job outcome charge ∧
      (∀ id, p'.outcomeOf id = if id = job.id then some outcome else p.outcomeOf id) ∧
      p'.charges = p.charges.set job.booking charge ∧ p'.effects = p.effects ++ [job.id])

variable {job : JobMessage} {p p' : Provider}

theorem Provider.record_executed {charge : Charge} {outcome : Outcome} {receipt : Receipt}
    (hc : p.Carries job outcome charge) (h : p.record job charge outcome = (p', receipt)) :
    p.Executed p' job receipt := by
  obtain ⟨rfl, rfl⟩ := Prod.mk.inj h
  have hout : ∀ id, (p.record job charge outcome).1.outcomeOf id =
      if id = job.id then some outcome else p.outcomeOf id := by
    intro id
    simp only [record, outcomeOf, Dict.get?_set]
    split <;> rfl
  exact ⟨(hout job.id).trans (if_pos rfl), .inr ⟨outcome, charge, hc, hout, rfl, rfl⟩⟩

/-- An execution answers from the recorded operation or carries out a new one. -/
theorem Provider.apply_executed {receipt : Receipt} (h : p.apply job = .ok (p', receipt)) :
    p.Executed p' job receipt := by
  unfold apply at h
  split at h
  · rename_i old hold
    obtain ⟨_, _, h⟩ := of_bind h
    obtain ⟨rfl, rfl⟩ := Prod.mk.inj (Except.ok.inj h)
    refine ⟨by simp [outcomeOf], .inl ⟨fun id => ?_, rfl, rfl⟩⟩
    simp only [outcomeOf, Dict.get?_set]
    split
    · rename_i hid
      rw [hid, hold]
      rfl
    · rfl
  · rename_i hnone
    have hnew : p.outcomeOf job.id = none := by rw [outcomeOf, hnone]; rfl
    split at h
    · rename_i hcharge
      obtain ⟨_, hfree, h⟩ := of_bind h
      have hfree := require_eq_ok.mp hfree
      have hnot : job.action ≠ .refund := by rw [hcharge]; decide
      split at h
      · exact record_executed ⟨hnew, fun _ => ⟨hfree, .inr ⟨rfl, rfl⟩⟩, fun hr => absurd hr hnot⟩ (Except.ok.inj h)
      · exact record_executed ⟨hnew, fun _ => ⟨hfree, .inl ⟨rfl, rfl⟩⟩, fun hr => absurd hr hnot⟩ (Except.ok.inj h)
    · rename_i hrefund
      obtain ⟨_, _, h⟩ := of_bind h
      have hnot : job.action ≠ .charge := by rw [hrefund]; decide
      split at h
      · rename_i old hold
        obtain ⟨_, hpaid, h⟩ := of_bind h
        have hpaid := require_eq_ok.mp hpaid
        exact record_executed ⟨hnew, fun hc => absurd hc hnot,
          fun _ => ⟨rfl, rfl, old, hold, hpaid.1⟩⟩ (Except.ok.inj h)
      · cases h

/-- The provider after `execute`, whatever its caller sees. -/
theorem Provider.execute_cases (p : Provider) (job : JobMessage) : ((∃ err, p.execute job = (p, .error err)) ∨
      ∃ p' receipt, p.apply job = .ok (p', receipt) ∧ (p.execute job).1 = p' ∧
        ∀ r, (p.execute job).2 = .ok r → r = receipt) := by
  unfold execute
  split
  · rename_i err _
    exact .inl ⟨err, rfl⟩
  · rcases transaction_cases p (Provider.apply job) with ⟨p', receipt, hok, heq⟩ | ⟨err, _, heq⟩
    · refine .inr ⟨p', receipt, hok, ?_, ?_⟩
      · rw [heq]
        dsimp only
        split <;> rfl
      · rw [heq]
        dsimp only
        split
        · intro r hr
          cases hr
        · intro r hr
          exact (Except.ok.inj hr).symm
    · exact .inl ⟨err, by rw [heq]⟩

/-! ### Charges and operations -/

/-- How the charge of a booking agrees with its charge and refund operations. -/
structure ChargeSound (charge refund : Option Outcome) (row : Option Charge) : Prop where
  uncharged : charge = none → row = none
  charged : charge = some .paid → ∃ c, row = some c ∧ c.status = if refund = none then .paid else .refunded
  declined : charge = some .declined → ∃ c, row = some c ∧ c.status = .declined
  outcome : charge ≠ some .refunded
  refunded : refund ≠ none → charge = some .paid

structure Provider.Sound (p : Provider) : Prop where
  charges : ∀ booking, ChargeSound (p.outcomeOf (.charge, booking)) (p.outcomeOf (.refund, booking))
    (p.charges.get? booking)
  once : p.effects.Nodup
  effects : ∀ {id}, id ∈ p.effects → p.outcomeOf id ≠ none

theorem Provider.sound_empty : Provider.Sound .empty where
  charges _ := ⟨fun _ => rfl, (fun h => nomatch h), (fun h => nomatch h), (fun h => nomatch h), fun h => absurd rfl h⟩
  once := List.nodup_nil
  effects h := nomatch h

/-- A paid charge that was not refunded is one whose operation was paid and whose refund
was not carried out. -/
theorem Provider.Sound.paid_iff (h : p.Sound) (booking : String) :
    (∃ charge, p.charges.get? booking = some charge ∧ charge.status = .paid) ↔
      p.outcomeOf (.charge, booking) = some .paid ∧ p.outcomeOf (.refund, booking) = none := by
  constructor
  · rintro ⟨charge, hcharge, hpaid⟩
    cases hout : p.outcomeOf (.charge, booking) with
    | none =>
      rw [(h.charges booking).uncharged hout] at hcharge
      cases hcharge
    | some outcome =>
      cases outcome with
      | paid =>
        obtain ⟨charge', hcharge', hstatus⟩ := (h.charges booking).charged hout
        obtain rfl := Option.some.inj (hcharge.symm.trans hcharge')
        refine ⟨rfl, ?_⟩
        by_contra hne
        rw [if_neg hne, hpaid] at hstatus
        cases hstatus
      | declined =>
        obtain ⟨charge', hcharge', hstatus⟩ := (h.charges booking).declined hout
        obtain rfl := Option.some.inj (hcharge.symm.trans hcharge')
        rw [hpaid] at hstatus
        cases hstatus
      | refunded => exact absurd hout (h.charges booking).outcome
  · rintro ⟨hpaid, hnone⟩
    obtain ⟨charge, hcharge, hstatus⟩ := (h.charges booking).charged hpaid
    rw [if_pos hnone] at hstatus
    exact ⟨charge, hcharge, hstatus⟩

theorem Provider.Sound.carry (h : p.Sound) {outcome : Outcome} {charge : Charge} (hc : p.Carries job outcome charge)
    (hout : ∀ id, p'.outcomeOf id = if id = job.id then some outcome else p.outcomeOf id)
    (hcharges : p'.charges = p.charges.set job.booking charge) (heffects : p'.effects = p.effects ++ [job.id]) :
    p'.Sound := by
  have honce : p'.effects.Nodup := by
    rw [heffects, List.nodup_append]
    refine ⟨h.once, List.nodup_singleton _, ?_⟩
    intro id hid id' hid' heq
    rw [List.mem_singleton.mp hid'] at heq
    exact h.effects hid (heq ▸ hc.new)
  have heff : ∀ {id}, id ∈ p'.effects → p'.outcomeOf id ≠ none := by
    intro id hid
    rw [hout]
    split
    · exact Option.some_ne_none _
    · rename_i hne
      rw [heffects, List.mem_append, List.mem_singleton] at hid
      exact h.effects (hid.resolve_right hne)
  have hcget : ∀ booking, p'.charges.get? booking =
      if booking = job.booking then some charge else p.charges.get? booking := by
    intro booking
    rw [hcharges, Dict.get?_set]
  obtain ⟨hnew, hcharged, hrefunded⟩ := hc
  refine ⟨fun booking => ?_, honce, heff⟩
  by_cases hb : booking = job.booking
  · subst hb
    cases haction : job.action with
    | charge =>
      have hid : job.id = (.charge, job.booking) := by rw [JobMessage.id, haction]
      obtain ⟨-, hstatus⟩ := hcharged haction
      have hrefund : p.outcomeOf (.refund, job.booking) = none := by
        by_contra hne
        rw [hid, (h.charges job.booking).refunded hne] at hnew
        cases hnew
      rw [hout, hout, hcget, hid]
      rcases hstatus with ⟨rfl, hs⟩ | ⟨rfl, hs⟩
      · constructor <;> simp [hs, hrefund]
      · constructor <;> simp [hs, hrefund]
    | refund =>
      have hid : job.id = (.refund, job.booking) := by rw [JobMessage.id, haction]
      obtain ⟨rfl, hs, old, hold, hpaid⟩ := hrefunded haction
      have hbefore := ((h.paid_iff job.booking).mp ⟨old, hold, hpaid⟩).1
      rw [hout, hout, hcget, hid]
      constructor <;> simp [hs, hbefore]
  · have hother : ∀ action, p'.outcomeOf (action, booking) = p.outcomeOf (action, booking) := by
      intro action
      rw [hout, if_neg]
      intro heq
      exact hb (Prod.mk.inj heq).2
    rw [hother, hother, hcget, if_neg hb]
    exact h.charges booking

theorem Provider.Sound.congr (h : p.Sound) (hout : ∀ id, p'.outcomeOf id = p.outcomeOf id)
    (hcharges : p'.charges = p.charges) (heffects : p'.effects = p.effects) : p'.Sound where
  charges booking := by
    rw [hout, hout, hcharges]
    exact h.charges booking
  once := heffects ▸ h.once
  effects hid := by
    rw [hout]
    exact h.effects (heffects ▸ hid)

theorem Provider.Sound.execute (h : p.Sound) (job : JobMessage) : (p.execute job).1.Sound := by
  rcases p.execute_cases job with ⟨err, heq⟩ | ⟨p', receipt, happly, heq, -⟩
  · rw [heq]
    exact h
  · rw [heq]
    rcases (Provider.apply_executed happly).2 with ⟨hout, hcharges, heffects⟩ |
      ⟨outcome, charge, hc, hout, hcharges, heffects⟩
    · exact h.congr hout hcharges heffects
    · exact h.carry hc hout hcharges heffects

end SystemDesign.Hotel
