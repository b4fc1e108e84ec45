import SystemDesign.Hotel.Payment

/-!
Safety of the reservation saga across a shard, its workers and the payment provider.

Everything the argument needs about a booking is local to it: its row, its charge and
refund jobs, the operations the provider carried out for it and the intents that were
handed to workers. `Local` is that invariant; a step changes one booking at a time.
Intents and receipts stay available once sent, so a lost, late or repeated message is
one that is used later, never or again.
-/

namespace SystemDesign.Hotel

open Dict List

variable {τ : Type}

/-! ### The invariant of one booking -/

def Finished (job : Option (Job τ)) : Prop := ∃ j, job = some j ∧ j.status = .done

structure Local (booking : Option (Booking τ)) (charge refund : Option (Job τ))
    (charged refunded : Option Outcome) (sentCharge sentRefund : Prop) : Prop where
  jobs : booking = none → charge = none ∧ refund = none
  intent : booking ≠ none → charge ≠ none
  claimed : sentCharge → ∃ j, charge = some j ∧ 1 ≤ j.attempts
  claimedRefund : sentRefund → refund ≠ none
  executed : charged ≠ none → sentCharge
  executedRefund : refunded ≠ none → sentRefund
  payment : ∀ b, booking = some b → (b.payment = .paid ↔ b.status = .confirmed)
  confirmed : ∀ b, booking = some b → b.status = .confirmed → charged = some .paid ∧ refund = none ∧ Finished charge
  compensated : refund ≠ none → charged = some .paid ∧ Finished charge
  settled : Finished charge → charged = some .paid → (∃ b, booking = some b ∧ b.status = .confirmed) ∨ refund ≠ none
  chargeDone : ∀ j, charge = some j → j.status = .done → j.attempts = 0 ∨ charged ≠ none
  refundDone : Finished refund → refunded ≠ none

variable {outcome : Outcome}

namespace Local

variable {booking : Option (Booking τ)} {row : Booking τ} {charge refund : Option (Job τ)}
  {job : Job τ} {charged refunded : Option Outcome} {sentCharge sentRefund : Prop}

theorem fresh : Local (none : Option (Booking τ)) none none none none False False := by
  constructor <;> simp [Finished]

/-- Nothing was sent or carried out for an id without a booking. -/
theorem absent (h : Local (none : Option (Booking τ)) charge refund charged refunded sentCharge
    sentRefund) : charge = none ∧ refund = none ∧ charged = none ∧ refunded = none ∧ ¬ sentCharge ∧ ¬ sentRefund := by
  obtain ⟨hcharge, hrefund⟩ := h.jobs rfl
  have hsent : ¬ sentCharge := by
    intro hs
    obtain ⟨j, hj, -⟩ := h.claimed hs
    rw [hcharge] at hj
    cases hj
  have hsentRefund : ¬ sentRefund := fun hs => h.claimedRefund hs hrefund
  exact ⟨hcharge, hrefund, not_not.mp fun hne => hsent (h.executed hne),
    not_not.mp fun hne => hsentRefund (h.executedRefund hne), hsent, hsentRefund⟩

theorem place (h : Local (none : Option (Booking τ)) charge refund charged refunded sentCharge
    sentRefund) (hstatus : row.status = .pending) (hpayment : row.payment = .none) (hjob : job.status = .pending) :
    Local (some row) (some job) refund charged refunded sentCharge sentRefund := by
  obtain ⟨rfl, rfl, rfl, rfl, hsent, hsentRefund⟩ := h.absent
  constructor <;> simp [Finished, hstatus, hpayment, hjob, hsent, hsentRefund]

variable {row' : Booking τ}

/-- A booking that is not confirmed is rewritten to one that is not. -/
theorem rewrite (h : Local (some row) charge refund charged refunded sentCharge
    sentRefund) (hrow : row.status ≠ .confirmed) (hrow' : row'.status ≠ .confirmed) (hpayment : row'.payment ≠ .paid) :
    Local (some row') charge refund charged refunded sentCharge sentRefund where
  jobs hnone := nomatch hnone
  intent _ := h.intent (Option.some_ne_none row)
  claimed := h.claimed
  claimedRefund := h.claimedRefund
  executed := h.executed
  executedRefund := h.executedRefund
  payment := by
    rintro b ⟨⟩
    exact ⟨fun hp => absurd hp hpayment, fun hc => absurd hc hrow'⟩
  confirmed := by
    rintro b ⟨⟩ hc
    exact absurd hc hrow'
  compensated := h.compensated
  settled hdone hpaid := by
    rcases h.settled hdone hpaid with ⟨b, hb, hc⟩ | hrefund
    · exact absurd (Option.some.inj hb ▸ hc) hrow
    · exact .inr hrefund
  chargeDone := h.chargeDone
  refundDone := h.refundDone

/-- A pending charge job means that the booking is not settled in any way. -/
theorem unsettled (h : Local (some row) (some job) refund charged refunded sentCharge sentRefund)
    (hjob : job.status ≠ .done) : row.status ≠ .confirmed ∧ refund = none := by
  have hnot : ¬ Finished (some job) := by
    rintro ⟨j, hj, hdone⟩
    exact hjob (Option.some.inj hj ▸ hdone)
  refine ⟨fun hc => hnot (h.confirmed row rfl hc).2.2, ?_⟩
  by_contra hne
  exact hnot (h.compensated hne).2

variable {job' : Job τ}

/-- A charge job that is not done changes its lease or its schedule. -/
theorem reschedule {sent' : Prop} (h : Local (some row) (some job) refund charged refunded sentCharge sentRefund)
    (hjob : job.status ≠ .done) (hjob' : job'.status ≠ .done) (hsent : sentCharge → sent')
    (hclaimed : sent' → 1 ≤ job'.attempts) : Local (some row) (some job') refund charged refunded sent' sentRefund := by
  obtain ⟨hstatus, rfl⟩ := h.unsettled hjob
  have hnot : ¬ Finished (some job') := by
    rintro ⟨j, hj, hdone⟩
    exact hjob' (Option.some.inj hj ▸ hdone)
  constructor
  · exact fun hnone => nomatch hnone
  · exact fun _ => Option.some_ne_none job'
  · exact fun hs => ⟨job', rfl, hclaimed hs⟩
  · exact h.claimedRefund
  · exact fun hne => hsent (h.executed hne)
  · exact h.executedRefund
  · exact h.payment
  · rintro b ⟨⟩ hc
    exact absurd hc hstatus
  · exact fun hne => absurd rfl hne
  · exact fun hdone => absurd hdone hnot
  · rintro j ⟨⟩ hdone
    exact absurd hdone hjob'
  · exact h.refundDone

/-- A refund job that is not done changes its lease or its schedule. -/
theorem rescheduleRefund {sent' : Prop} (h : Local booking charge (some job) charged refunded sentCharge sentRefund)
    (hjob' : job'.status ≠ .done) (hsent : sentRefund → sent') :
    Local booking charge (some job') charged refunded sentCharge sent' := by
  obtain ⟨hpaid, hdone⟩ := h.compensated (Option.some_ne_none job)
  constructor
  · intro hnone
    cases (h.jobs hnone).2
  · exact h.intent
  · exact h.claimed
  · exact fun _ => Option.some_ne_none job'
  · exact h.executed
  · exact fun hne => hsent (h.executedRefund hne)
  · exact h.payment
  · intro b hb hc
    cases (h.confirmed b hb hc).2.1
  · exact fun _ => ⟨hpaid, hdone⟩
  · exact fun _ _ => .inr (Option.some_ne_none job')
  · exact h.chargeDone
  · rintro ⟨j, ⟨⟩, hj⟩
    exact absurd hj hjob'

/-- A charge that was never claimed is closed without one. -/
theorem uncharged (h : Local (some row) (some job) refund charged refunded sentCharge sentRefund)
    (hjob : job.status ≠ .done) (hattempts : job.attempts = 0) (hsame : job'.attempts = 0) :
    Local (some row) (some job') refund charged refunded sentCharge sentRefund := by
  obtain ⟨hstatus, rfl⟩ := h.unsettled hjob
  have hsent : ¬ sentCharge := by
    intro hs
    obtain ⟨j, hj, hpos⟩ := h.claimed hs
    obtain rfl := Option.some.inj hj
    omega
  have hcharged : charged = none := not_not.mp fun hne => hsent (h.executed hne)
  subst hcharged
  constructor
  · exact fun hnone => nomatch hnone
  · exact fun _ => Option.some_ne_none job'
  · exact fun hs => absurd hs hsent
  · exact h.claimedRefund
  · exact fun hne => absurd rfl hne
  · exact h.executedRefund
  · exact h.payment
  · rintro b ⟨⟩ hc
    exact absurd hc hstatus
  · exact fun hne => absurd rfl hne
  · exact fun _ hpaid => nomatch hpaid
  · rintro j ⟨⟩ _
    exact .inl hsame
  · exact h.refundDone

theorem decline (h : Local (some row) (some job) refund charged refunded sentCharge sentRefund)
    (hjob : job.status ≠ .done) (hcharged : charged = some .declined) (hattempts : job'.attempts = job.attempts)
    (hrow' : row'.status ≠ .confirmed) (hpayment : row'.payment ≠ .paid) :
    Local (some row') (some job') refund charged refunded sentCharge sentRefund := by
  obtain ⟨hstatus, rfl⟩ := h.unsettled hjob
  subst hcharged
  constructor
  · exact fun hnone => nomatch hnone
  · exact fun _ => Option.some_ne_none job'
  · intro hs
    obtain ⟨j, hj, hpos⟩ := h.claimed hs
    obtain rfl := Option.some.inj hj
    exact ⟨job', rfl, hattempts ▸ hpos⟩
  · exact h.claimedRefund
  · exact h.executed
  · exact h.executedRefund
  · rintro b ⟨⟩
    exact ⟨fun hp => absurd hp hpayment, fun hc => absurd hc hrow'⟩
  · rintro b ⟨⟩ hc
    exact absurd hc hrow'
  · exact fun hne => absurd rfl hne
  · exact fun _ hpaid => nomatch hpaid
  · exact fun _ _ _ => .inr (Option.some_ne_none _)
  · exact h.refundDone

/-- A paid charge that confirms its booking. -/
theorem confirm (h : Local (some row) (some job) refund charged refunded sentCharge sentRefund)
    (hjob : job.status ≠ .done) (hcharged : charged = some .paid) (hdone : job'.status = .done)
    (hattempts : job'.attempts = job.attempts) (hrow' : row'.status = .confirmed) (hpayment : row'.payment = .paid) :
    Local (some row') (some job') refund charged refunded sentCharge sentRefund := by
  obtain ⟨hstatus, rfl⟩ := h.unsettled hjob
  subst hcharged
  constructor
  · exact fun hnone => nomatch hnone
  · exact fun _ => Option.some_ne_none job'
  · intro hs
    obtain ⟨j, hj, hpos⟩ := h.claimed hs
    obtain rfl := Option.some.inj hj
    exact ⟨job', rfl, hattempts ▸ hpos⟩
  · exact h.claimedRefund
  · exact h.executed
  · exact h.executedRefund
  · rintro b ⟨⟩
    exact ⟨fun _ => hrow', fun _ => hpayment⟩
  · rintro b ⟨⟩ _
    exact ⟨rfl, rfl, job', rfl, hdone⟩
  · exact fun hne => absurd rfl hne
  · exact fun _ _ => .inl ⟨row', rfl, hrow'⟩
  · exact fun _ _ _ => .inr (Option.some_ne_none _)
  · exact h.refundDone

/-- A paid charge that has to be given back: its refund job is due. -/
theorem compensate {next : Job τ} (h : Local (some row) (some job) refund charged refunded sentCharge sentRefund)
    (hrefund : refund = none) (hcharged : charged = some .paid) (hdone : job'.status = .done)
    (hattempts : job'.attempts = job.attempts) (hnext : next.status ≠ .done) (hrow' : row'.status ≠ .confirmed)
    (hpayment : row'.payment ≠ .paid) :
    Local (some row') (some job') (some next) charged refunded sentCharge sentRefund := by
  subst hrefund hcharged
  constructor
  · exact fun hnone => nomatch hnone
  · exact fun _ => Option.some_ne_none job'
  · intro hs
    obtain ⟨j, hj, hpos⟩ := h.claimed hs
    obtain rfl := Option.some.inj hj
    exact ⟨job', rfl, hattempts ▸ hpos⟩
  · exact fun _ => Option.some_ne_none next
  · exact h.executed
  · exact h.executedRefund
  · rintro b ⟨⟩
    exact ⟨fun hp => absurd hp hpayment, fun hc => absurd hc hrow'⟩
  · rintro b ⟨⟩ hc
    exact absurd hc hrow'
  · exact fun _ => ⟨rfl, job', rfl, hdone⟩
  · exact fun _ _ => .inr (Option.some_ne_none next)
  · exact fun _ _ _ => .inr (Option.some_ne_none _)
  · rintro ⟨j, ⟨⟩, hj⟩
    exact absurd hj hnext

theorem refundDoneBy (h : Local (some row) charge (some job) charged refunded sentCharge sentRefund)
    (hrefunded : refunded ≠ none) (hrow' : row'.status ≠ .confirmed) (hpayment : row'.payment ≠ .paid) :
    Local (some row') charge (some job') charged refunded sentCharge sentRefund := by
  constructor
  · exact fun hnone => nomatch hnone
  · exact fun _ => h.intent (Option.some_ne_none row)
  · exact h.claimed
  · exact fun _ => Option.some_ne_none job'
  · exact h.executed
  · exact h.executedRefund
  · rintro b ⟨⟩
    exact ⟨fun hp => absurd hp hpayment, fun hc => absurd hc hrow'⟩
  · rintro b ⟨⟩ hc
    exact absurd hc hrow'
  · exact fun _ => h.compensated (Option.some_ne_none job)
  · exact fun _ _ => .inr (Option.some_ne_none job')
  · exact h.chargeDone
  · exact fun _ => hrefunded

/-- The provider carries out the charge of a claimed job. -/
theorem carryCharge (h : Local booking charge refund none refunded sentCharge sentRefund) (hsent : sentCharge) :
    Local booking charge refund (some outcome) refunded sentCharge sentRefund := by
  obtain ⟨j, hj, hpos⟩ := h.claimed hsent
  have hnot : ¬ Finished charge := by
    rintro ⟨j', hj', hdone⟩
    obtain rfl := Option.some.inj (hj.symm.trans hj')
    rcases h.chargeDone j hj hdone with hzero | hne
    · omega
    · exact hne rfl
  constructor
  · exact h.jobs
  · exact h.intent
  · exact h.claimed
  · exact h.claimedRefund
  · exact fun _ => hsent
  · exact h.executedRefund
  · exact h.payment
  · intro b hb hc
    exact absurd (h.confirmed b hb hc).2.2 hnot
  · exact fun hne => absurd (h.compensated hne).2 hnot
  · exact fun hdone => absurd hdone hnot
  · exact fun _ _ _ => .inr (Option.some_ne_none outcome)
  · exact h.refundDone

/-- The provider carries out the refund of a claimed job. -/
theorem carryRefund (h : Local booking charge refund charged refunded sentCharge sentRefund) (hsent : sentRefund) :
    Local booking charge refund charged (some outcome) sentCharge sentRefund where
  jobs := h.jobs
  intent := h.intent
  claimed := h.claimed
  claimedRefund := h.claimedRefund
  executed := h.executed
  executedRefund _ := hsent
  payment := h.payment
  confirmed := h.confirmed
  compensated := h.compensated
  settled := h.settled
  chargeDone := h.chargeDone
  refundDone _ := Option.some_ne_none outcome

end Local

/-! ### The invariant of a store -/

/-- Every booking of a store is in step with what was sent and carried out for it. -/
def Tracks (s : Store τ) (out : Action × String → Option Outcome) (sent : Action × String → Prop) :
    Prop :=
  ∀ id, Local (s.bookings.get? id) (s.jobs.get? (.charge, id)) (s.jobs.get? (.refund, id))
    (out (.charge, id)) (out (.refund, id)) (sent (.charge, id)) (sent (.refund, id))

variable {u : Unit}

section Tracks

variable {s s' : Store τ} {out : Action × String → Option Outcome}
  {sent sent' : Action × String → Prop}

/-- Only one booking and its jobs change. -/
theorem Tracks.update (h : Tracks s out sent) (id : String)
    (hbookings : ∀ id', id' ≠ id → s'.bookings.get? id' = s.bookings.get? id')
    (hjobs : ∀ action id', id' ≠ id → s'.jobs.get? (action, id') = s.jobs.get? (action, id'))
    (hsent : ∀ action id', id' ≠ id → (sent' (action, id') ↔ sent (action, id')))
    (hlocal : Local (s'.bookings.get? id) (s'.jobs.get? (.charge, id)) (s'.jobs.get? (.refund, id))
      (out (.charge, id)) (out (.refund, id)) (sent' (.charge, id)) (sent' (.refund, id))) : Tracks s' out sent' := by
  intro id'
  by_cases heq : id' = id
  · exact heq ▸ hlocal
  · rw [hbookings id' heq, hjobs _ id' heq, hjobs _ id' heq, propext (hsent .charge id' heq),
      propext (hsent .refund id' heq)]
    exact h id'

theorem Tracks.congr (h : Tracks s out sent) (hbookings : s'.bookings = s.bookings)
    (hjobs : s'.jobs = s.jobs) : Tracks s' out sent := by
  intro id
  rw [hbookings, hjobs]
  exact h id

theorem get?_setPayment (s : Store τ) (id : String) (payment : Payment) (id' : String) :
    (setPayment s id payment).bookings.get? id' =
      if id' = id then (s.bookings.get? id).map fun row => { row with payment := payment }
      else s.bookings.get? id' := by
  unfold setPayment
  split
  · rename_i row hrow
    rw [get?_set, hrow]
    rfl
  · rename_i hnone
    split
    · rename_i heq
      rw [heq, hnone]
      rfl
    · rfl

@[simp] theorem setPayment_jobs (s : Store τ) (id : String) (payment : Payment) :
    (setPayment s id payment).jobs = s.jobs := by
  unfold setPayment
  split <;> rfl

theorem get?_addJob (s : Store τ) (booking : String) (action : Action) (now : τ) (id : Action × String) :
    (addJob s booking action now).jobs.get? id =
      if id = (action, booking) then
        some ((s.jobs.get? (action, booking)).getD ⟨.pending, 0, now, none, "", ""⟩)
      else s.jobs.get? id := by
  unfold addJob
  split
  · rename_i job hjob
    split
    · rename_i heq
      rw [heq, hjob]
      rfl
    · rfl
  · rename_i hnone
    rw [get?_set, hnone]
    rfl

variable {row : Booking τ}

/-- A booking that is not confirmed is closed. -/
theorem Tracks.close (h : Tracks s out sent) {status : Status} (inventory : Dict Slot Inventory)
    (hrow : s.bookings.get? row.id = some row) (hbefore : row.status ≠ .confirmed) (hafter : status ≠ .confirmed) :
    Tracks { s with inventory := inventory, bookings := s.bookings.set row.id (row.closed status) } out sent := by
  have hlocal := h row.id
  rw [hrow] at hlocal
  refine h.update row.id (fun id' hne => get?_set_of_ne _ hne _) (fun _ _ _ => rfl) (fun _ _ _ => Iff.rfl) ?_
  rw [get?_set, if_pos rfl]
  refine hlocal.rewrite hbefore hafter ?_
  exact mt (hlocal.payment row rfl).mp hbefore

theorem sweepRows_tracks (h : s.Good) (ht : Tracks s out sent) (rows : List (Booking τ))
    (hrows : ∀ row ∈ rows, s.bookings.get? row.id = some row ∧ row.status = .pending)
    (hids : (rows.map Booking.id).Nodup) (hrun : rows.foldlM (fun s row => release s row .expired) s = .ok s') :
    Tracks s' out sent := by
  induction rows generalizing s with
  | nil =>
    cases hrun
    exact ht
  | cons row rest ih =>
    rw [map_cons, nodup_cons] at hids
    obtain ⟨hrow, hpending⟩ := hrows row mem_cons_self
    obtain ⟨inventory, hrelease, hgood⟩ := release_spec h hrow .expired
    rw [foldlM_cons, hrelease] at hrun
    have hnot : row.status ≠ .confirmed := by rw [hpending]; decide
    have htracks := ht.close inventory hrow hnot (show Status.expired ≠ .confirmed by decide)
    refine ih (s := { s with inventory := inventory, bookings := _ }) hgood htracks ?_ hids.2 hrun
    intro other hother
    have hne : other.id ≠ row.id := fun heq => hids.1 (heq ▸ mem_map_of_mem hother)
    obtain ⟨hget, hstatus⟩ := hrows other (mem_cons_of_mem row hother)
    exact ⟨(get?_set_of_ne _ hne _).trans hget, hstatus⟩

/-- `release` of a booking that is still pending, by what it leaves to be read. -/
theorem releasePending_spec (h : s.Good) (hrow : s.bookings.get? row.id = some row) (status : Status) :
    ∃ s' row', releasePending s row status = .ok s' ∧ s'.jobs = s.jobs ∧
      (∀ id, id ≠ row.id → s'.bookings.get? id = s.bookings.get? id) ∧
      s'.bookings.get? row.id = some row' ∧
      row'.status = if row.status = .pending then status else row.status := by
  unfold releasePending
  split
  · obtain ⟨inventory, hrun, -⟩ := release_spec h hrow status
    exact ⟨_, row.closed status, hrun, rfl, fun id hne => get?_set_of_ne _ hne _,
      by rw [get?_set, if_pos rfl], rfl⟩
  · exact ⟨s, row, rfl, rfl, fun _ _ => rfl, hrow, rfl⟩

variable {now : τ}

theorem placeBooking_tracks (e : Settings τ) (ht : Tracks s out sent) {user : String} {body : Request}
    (hrun : placeBooking e s now user body = .ok (s', row)) : Tracks s' out sent := by
  obtain ⟨⟨first, last⟩, -, hrun⟩ := of_bind hrun
  replace hrun := of_check hrun
  replace hrun := of_check hrun
  replace hrun := of_check hrun
  obtain ⟨inventory, -, hrun⟩ := of_bind hrun
  obtain ⟨_, hnew, hrun⟩ := of_bind hrun
  have hnew := require_eq_ok.mp hnew
  obtain ⟨rfl, hrow⟩ := Prod.mk.inj (Except.ok.inj hrun)
  rw [hrow] at hnew ⊢
  have hlocal := ht row.id
  rw [hnew] at hlocal
  obtain ⟨hcharge, hrefund, -⟩ := hlocal.absent
  refine ht.update row.id ?_ ?_ (fun _ _ _ => Iff.rfl) ?_
  · intro id hne
    rw [addJob_bookings]
    exact get?_set_of_ne _ hne _
  · intro action id hne
    rw [get?_addJob, if_neg]
    intro heq
    exact hne (Prod.mk.inj heq).2
  · rw [addJob_bookings, get?_addJob, get?_addJob, if_pos rfl, if_neg (by simp), hcharge]
    rw [get?_set, if_pos rfl]
    exact hlocal.place (hrow ▸ rfl) (hrow ▸ rfl) rfl

theorem findBooking_get {booking : String} {user : Option String} (h : findBooking s booking user = .ok row) :
    s.bookings.get? booking = some row := by
  have := findBooking_avoids s booking user
  rw [h] at this
  exact this

theorem reserve_tracks (e : Settings τ) (ht : Tracks s out sent) {user : String} {body : Request}
    (hrun : reserve e now user body s = .ok (s', row)) : Tracks s' out sent := by
  obtain ⟨_, -, hrun⟩ := of_bind hrun
  split at hrun
  · obtain ⟨_, -, hrun⟩ := of_bind hrun
    obtain ⟨_, -, hrun⟩ := of_bind hrun
    obtain ⟨rfl, -⟩ := Prod.mk.inj (Except.ok.inj hrun)
    exact ht
  · exact placeBooking_tracks e ht hrun

theorem cancel_tracks (h : s.Good) (ht : Tracks s out sent) {booking : String} {user : Option String}
    (hrun : cancel now booking user s = .ok (s', u)) : Tracks s' out sent := by
  obtain ⟨row, hfind, hrun⟩ := of_bind hrun
  have hrow := findBooking_get hfind
  obtain rfl := h.keyed hrow
  have hlocal := ht row.id
  rw [hrow] at hlocal
  split at hrun
  · rename_i hstatus
    obtain ⟨inventory, hrelease, -⟩ := release_spec h hrow .cancelled
    obtain ⟨released, hreleased, hrun⟩ := of_bind hrun
    obtain rfl := Except.ok.inj (hrelease.symm.trans hreleased)
    have hiff := hlocal.payment row rfl
    rcases hstatus with hpending | hconfirmed
    · have hnot : row.status ≠ .confirmed := by rw [hpending]; decide
      have hunpaid : row.payment ≠ .paid := mt hiff.mp hnot
      rw [if_neg hunpaid] at hrun
      obtain ⟨rfl, -⟩ := Prod.mk.inj (Except.ok.inj hrun)
      exact ht.close inventory hrow hnot (by decide)
    · -- the charge was paid: its refund job is added with the cancellation
      have hpaid : row.payment = .paid := hiff.mpr hconfirmed
      obtain ⟨hcharged, hrefund, job, hjob, hdone⟩ := hlocal.confirmed row rfl hconfirmed
      rw [if_pos hpaid] at hrun
      obtain ⟨rfl, -⟩ := Prod.mk.inj (Except.ok.inj hrun)
      refine ht.update row.id ?_ ?_ (fun _ _ _ => Iff.rfl) ?_
      · intro id hne
        rw [addJob_bookings, get?_setPayment, if_neg hne]
        exact get?_set_of_ne _ hne _
      · intro action id hne
        rw [get?_addJob, if_neg fun heq => hne (Prod.mk.inj heq).2, setPayment_jobs]
      · rw [addJob_bookings, get?_setPayment, get?_addJob, get?_addJob, if_pos rfl,
          if_neg (by simp), if_pos rfl, setPayment_jobs, hjob, hrefund]
        rw [hjob] at hlocal
        rw [get?_set, if_pos rfl]
        exact hlocal.compensate hrefund hcharged hdone rfl (by simp) (by simp [Booking.closed]) (by simp)
  · obtain ⟨rfl, -⟩ := Prod.mk.inj (Except.ok.inj hrun)
    exact ht

theorem theBooking_get {id : String} (h : theBooking s id = .ok row) : s.bookings.get? id = some row := by
  have := theBooking_avoids s id
  rw [h] at this
  exact this

variable {id : Action × String}

/-- A job that is not done gets another lease or schedule; its intent may be sent. -/
theorem Tracks.reschedule (ht : Tracks s out sent) {job job' : Job τ} (hget : s.jobs.get? id = some job)
    (hjob : job.status ≠ .done) (hjob' : job'.status ≠ .done) (hsent : ∀ k, sent k → sent' k)
    (honly : ∀ k, k ≠ id → (sent' k ↔ sent k)) (hclaimed : id.1 = .charge → sent' id → 1 ≤ job'.attempts) :
    Tracks (setJob s id job') out sent' := by
  obtain ⟨action, b⟩ := id
  have hlocal := ht b
  refine ht.update b (fun _ _ => rfl) ?_ ?_ ?_
  · intro action' id' hne
    exact get?_set_of_ne _ (fun heq => hne (Prod.mk.inj heq).2) _
  · intro action' id' hne
    exact honly _ fun heq => hne (Prod.mk.inj heq).2
  · show Local (s.bookings.get? b) _ _ _ _ _ _
    simp only [setJob]
    cases hrow : s.bookings.get? b with
    | none =>
      rw [hrow] at hlocal
      obtain ⟨hcharge, hrefund⟩ := hlocal.jobs rfl
      cases action with
      | charge => rw [hget] at hcharge; cases hcharge
      | refund => rw [hget] at hrefund; cases hrefund
    | some row =>
      rw [hrow] at hlocal
      cases action with
      | charge =>
        rw [hget] at hlocal
        rw [get?_set, if_pos rfl, get?_set_of_ne _ (by simp), propext (honly (.refund, b) (by simp))]
        exact hlocal.reschedule hjob hjob' (hsent _) (hclaimed rfl)
      | refund =>
        rw [hget] at hlocal
        rw [get?_set_of_ne _ (by simp), get?_set, if_pos rfl, propext (honly (.charge, b) (by simp))]
        exact hlocal.rescheduleRefund hjob' (hsent _)

theorem Tracks.keepSent (ht : Tracks s out sent) {job job' : Job τ} (hget : s.jobs.get? id = some job)
    (hjob : job.status ≠ .done) (hjob' : job'.status ≠ .done) (hattempts : job'.attempts = job.attempts) :
    Tracks (setJob s id job') out sent := by
  refine ht.reschedule hget hjob hjob' (fun _ hk => hk) (fun _ _ => Iff.rfl) fun hcharge hs => ?_
  obtain ⟨action, b⟩ := id
  obtain rfl : action = .charge := hcharge
  obtain ⟨j, hj, hpos⟩ := (ht b).claimed hs
  rw [hget] at hj
  rw [hattempts, Option.some.inj hj]
  exact hpos

theorem Tracks.markCharging (ht : Tracks s out sent) (id : String) : Tracks (markCharging s id) out sent := by
  unfold Hotel.markCharging
  split
  · rename_i row hrow
    split
    · rename_i hnone
      have hlocal := ht id
      rw [hrow] at hlocal
      have hnot : row.status ≠ .confirmed := by
        intro hc
        rw [(hlocal.payment row rfl).mpr hc] at hnone
        cases hnone
      refine ht.update id ?_ (fun _ _ _ => by rw [setPayment_jobs]) (fun _ _ _ => Iff.rfl) ?_
      · intro id' hne
        rw [get?_setPayment, if_neg hne]
      · rw [get?_setPayment, if_pos rfl, hrow, setPayment_jobs]
        exact hlocal.rewrite hnot hnot (by simp)
    · exact ht
  · exact ht

variable {job : JobMessage}

theorem activeJob_get {active : Job τ} (h : activeJob s job = some active) :
    s.jobs.get? job.id = some active ∧ active.status = .inflight := by
  unfold activeJob at h
  split at h
  · rename_i row hrow
    split at h
    · rename_i hc
      obtain rfl := Option.some.inj h
      exact ⟨hrow, hc.1⟩
    · cases h
  · cases h

theorem retry_tracks (e : Settings τ) (ht : Tracks s out sent) {message : String}
    (hrun : retry e now job message s = .ok (s', u)) : Tracks s' out sent := by
  obtain ⟨_, -, hrun⟩ := of_bind hrun
  split at hrun
  · obtain ⟨rfl, -⟩ := Prod.mk.inj (Except.ok.inj hrun)
    exact ht
  · rename_i active hactive
    obtain ⟨_, -, hrun⟩ := of_bind hrun
    obtain ⟨_, -, hrun⟩ := of_bind hrun
    obtain ⟨rfl, -⟩ := Prod.mk.inj (Except.ok.inj hrun)
    obtain ⟨hget, hinflight⟩ := activeJob_get hactive
    have hnot : active.status ≠ .done := by rw [hinflight]; decide
    exact ht.keepSent hget hnot (by simp) rfl

/-- A charge or refund is settled as the provider carried it out, and its job is done. -/
theorem settle_tracks [LinearOrder τ] (h : s.Good) (ht : Tracks s out sent) {active : Job τ}
    (hrow : s.bookings.get? row.id = some row) (hbooking : job.booking = row.id)
    (hget : s.jobs.get? job.id = some active) (hactive : active.status = .inflight)
    (hout : out job.id = some outcome) (hadmits : job.action.admits outcome = true)
    (hrun : settle s now row job.action outcome = .ok s') :
    Tracks (setJob s' job.id { active with status := .done, error := "" }) out sent := by
  have hlocal := ht row.id
  rw [hrow] at hlocal
  have hnot : active.status ≠ .done := by rw [hactive]; decide
  obtain ⟨action, b, token, amount, currency, method⟩ := job
  simp only [JobMessage.id] at *
  subst hbooking
  have hframe : ∀ (a : Action) (id : String), id ≠ row.id → (a, id) ≠ (action, row.id) :=
    fun a id hne heq => hne (Prod.mk.inj heq).2
  cases action with
  | charge =>
    rw [hget] at hlocal
    obtain ⟨hstatus, hrefund⟩ := hlocal.unsettled hnot
    simp only [settle] at hrun
    split at hrun
    · rename_i hdeclined
      subst hdeclined
      obtain ⟨s₀, row₀, hrelease, hjobs, hother, hrow₀, hstatus₀⟩ := releasePending_spec h hrow .rejected
      obtain ⟨released, hreleased, hrun⟩ := of_bind hrun
      obtain rfl := Except.ok.inj (hrelease.symm.trans hreleased)
      obtain rfl := Except.ok.inj hrun
      refine ht.update row.id ?_ ?_ (fun _ _ _ => Iff.rfl) ?_
      · intro id hne
        simp only [setJob]
        rw [get?_setPayment, if_neg hne, hother id hne]
      · intro a id hne
        simp only [setJob, setPayment_jobs, hjobs]
        exact get?_set_of_ne _ (hframe a id hne) _
      · simp only [setJob, setPayment_jobs, hjobs]
        rw [get?_setPayment, if_pos rfl, hrow₀, get?_set, if_pos rfl, get?_set_of_ne _ (by simp)]
        refine hlocal.decline hnot hout rfl ?_ (by simp)
        show row₀.status ≠ .confirmed
        rw [hstatus₀]
        split
        · decide
        · exact hstatus
    · rename_i hpaid
      obtain rfl : outcome = .paid := by
        cases outcome with
        | paid => rfl
        | declined => exact absurd rfl hpaid
        | refunded => cases hadmits
      split at hrun
      · obtain rfl := Except.ok.inj hrun
        refine ht.update row.id ?_ ?_ (fun _ _ _ => Iff.rfl) ?_
        · intro id hne
          exact get?_set_of_ne _ hne _
        · intro a id hne
          exact get?_set_of_ne _ (hframe a id hne) _
        · simp only [setJob]
          rw [get?_set, if_pos rfl, get?_set, if_pos rfl, get?_set_of_ne _ (by simp)]
          exact hlocal.confirm hnot hout rfl rfl rfl rfl
      · -- the booking was closed meanwhile, or its hold has run out
        obtain ⟨s₀, row₀, hrelease, hjobs, hother, hrow₀, hstatus₀⟩ := releasePending_spec h hrow .expired
        obtain ⟨released, hreleased, hrun⟩ := of_bind hrun
        obtain rfl := Except.ok.inj (hrelease.symm.trans hreleased)
        obtain rfl := Except.ok.inj hrun
        refine ht.update row.id ?_ ?_ (fun _ _ _ => Iff.rfl) ?_
        · intro id hne
          simp only [setJob, addJob_bookings]
          rw [get?_setPayment, if_neg hne, hother id hne]
        · intro a id hne
          simp only [setJob]
          rw [get?_set_of_ne _ (hframe a id hne), get?_addJob,
            if_neg fun heq => hne (Prod.mk.inj heq).2, setPayment_jobs, hjobs]
        · simp only [setJob, addJob_bookings]
          rw [get?_setPayment, if_pos rfl, hrow₀, get?_set, if_pos rfl,
            get?_set_of_ne _ (by simp), get?_addJob, if_pos rfl, setPayment_jobs, hjobs,
            hrefund]
          refine hlocal.compensate hrefund hout rfl rfl (by simp) ?_ (by simp)
          show row₀.status ≠ .confirmed
          rw [hstatus₀]
          split
          · decide
          · exact hstatus
  | refund =>
    rw [hget] at hlocal
    have hstatus : row.status ≠ .confirmed := by
      intro hc
      cases (hlocal.confirmed row rfl hc).2.1
    obtain rfl := Except.ok.inj hrun
    refine ht.update row.id ?_ ?_ (fun _ _ _ => Iff.rfl) ?_
    · intro id hne
      simp only [setJob]
      rw [get?_setPayment, if_neg hne]
    · intro a id hne
      simp only [setJob, setPayment_jobs]
      exact get?_set_of_ne _ (hframe a id hne) _
    · simp only [setJob, setPayment_jobs]
      rw [get?_setPayment, if_pos rfl, hrow, get?_set_of_ne _ (by simp), get?_set,
        if_pos rfl]
      exact hlocal.refundDoneBy (by rw [hout]; exact Option.some_ne_none _) hstatus (by simp)

theorem finish_tracks [LinearOrder τ] (h : s.Good) (ht : Tracks s out sent) {result : Receipt} {done : Bool}
    (hout : out job.id = some result.status) (hrun : finish now job result s = .ok (s', done)) :
    Tracks s' out sent := by
  replace hrun := of_check hrun
  obtain ⟨_, hreceipt, hrun⟩ := of_bind hrun
  replace hreceipt := of_check hreceipt
  replace hreceipt := of_check hreceipt
  have hadmits := require_eq_ok.mp hreceipt
  split at hrun
  · obtain ⟨rfl, -⟩ := Prod.mk.inj (Except.ok.inj hrun)
    exact ht
  · rename_i active hactive
    obtain ⟨row, hrow, hrun⟩ := of_bind hrun
    replace hrun := of_check hrun
    obtain ⟨s₁, hsettle, hrun⟩ := of_bind hrun
    obtain ⟨rfl, -⟩ := Prod.mk.inj (Except.ok.inj hrun)
    have hrow := theBooking_get hrow
    obtain ⟨hget, hinflight⟩ := activeJob_get hactive
    have hid := h.keyed hrow
    exact settle_tracks h ht (hid.symm ▸ hrow) hid.symm hget hinflight hout hadmits hsettle

theorem expireFirst_tracks [LinearOrder τ] (h : s.Good) (ht : Tracks s out sent) {job : Job τ}
    (hrun : expireFirst s now id job = .ok s') : s'.Good ∧ Tracks s' out sent ∧ s'.jobs = s.jobs := by
  obtain ⟨booking, hbooking, hrun⟩ := of_bind hrun
  have hget := theBooking_get hbooking
  have hid : s.bookings.get? booking.id = some booking := (h.keyed hget).symm ▸ hget
  split at hrun
  · rename_i hc
    obtain ⟨inventory, hrelease, hgood⟩ := release_spec h hid .expired
    obtain rfl := Except.ok.inj (hrelease.symm.trans hrun)
    have hnot : booking.status ≠ .confirmed := by rw [hc.2.2.1]; decide
    exact ⟨hgood, ht.close inventory hid hnot (by decide), rfl⟩
  · obtain rfl := Except.ok.inj hrun
    exact ⟨h, ht, rfl⟩

theorem nextJob_get [LinearOrder τ] {job : Job τ} (h : nextJob s now = some (id, job)) :
    s.jobs.get? id = some job ∧ job.status ≠ .done := by
  have hmem := mem_mergeSort.mp (mem_of_mem_head? h)
  obtain ⟨hentry, hready⟩ := mem_filter.mp hmem
  refine ⟨mem_entries.mp hentry, ?_⟩
  intro hdone
  simp [isReady, hdone] at hready

/-- What `claim` hands out is sent from then on. -/
theorem claim_tracks [LinearOrder τ] (e : Settings τ) (h : s.Good) (ht : Tracks s out sent) {leaseSeconds : ℚ}
    {token : String} {message : Option JobMessage} (hrun : claim e now leaseSeconds token s = .ok (s', message)) :
    Tracks s' out fun id => sent id ∨ ∃ m, message = some m ∧ m.id = id := by
  replace hrun := of_check hrun
  split at hrun
  · obtain ⟨rfl, rfl⟩ := Prod.mk.inj (Except.ok.inj hrun)
    simpa using ht
  · rename_i id job hnext
    obtain ⟨hget, hnot⟩ := nextJob_get hnext
    obtain ⟨s₁, hexpire, hrun⟩ := of_bind hrun
    obtain ⟨hgood, ht₁, hjobs⟩ := expireFirst_tracks h ht hexpire
    obtain ⟨booking, hbooking, hrun⟩ := of_bind hrun
    have hrow := theBooking_get hbooking
    have hid := hgood.keyed hrow
    rw [← hjobs] at hget
    split at hrun
    · rename_i hc
      obtain ⟨rfl, rfl⟩ := Prod.mk.inj (Except.ok.inj hrun)
      obtain ⟨action, b⟩ := id
      obtain rfl : action = .charge := hc.1
      have hlocal := ht₁ b
      rw [hrow, hget] at hlocal
      simp only [reduceCtorEq, false_and, exists_false, or_false]
      refine ht₁.update b (fun _ _ => rfl) ?_ (fun _ _ _ => Iff.rfl) ?_
      · intro a id' hne
        exact get?_set_of_ne _ (fun heq => hne (Prod.mk.inj heq).2) _
      · simp only [setJob]
        rw [hrow, get?_set, if_pos rfl, get?_set_of_ne _ (by simp)]
        exact hlocal.uncharged hnot hc.2.1 hc.2.1
    · obtain ⟨rfl, rfl⟩ := Prod.mk.inj (Except.ok.inj hrun)
      have hlease : Tracks (setJob s₁ id { job with
          status := .inflight, attempts := job.attempts + 1,
          lease := some (e.plus now leaseSeconds), token := token }) out
          fun k => sent k ∨ ∃ m : JobMessage, some (JobMessage.mk id.1 booking.id token booking.amount
            booking.currency booking.method) = some m ∧ m.id = k := by
        refine ht₁.reschedule hget hnot (by simp) (fun _ hk => .inl hk) ?_ (fun _ _ => by simp)
        intro k hne
        constructor
        · rintro (hk | ⟨m, hm, rfl⟩)
          · exact hk
          · obtain rfl := Option.some.inj hm
            exact absurd (by rw [JobMessage.id, hid]) hne
        · exact .inl
      split
      · exact hlease.markCharging booking.id
      · exact hlease

/-- The provider carries out an operation that was sent. -/
theorem Tracks.carry (ht : Tracks s out sent) {out' : Action × String → Option Outcome} (hnew : out id = none)
    (hsent : sent id) (hout : ∀ k, out' k = if k = id then some outcome else out k) : Tracks s out' sent := by
  intro b
  have hlocal := ht b
  obtain ⟨action, booking⟩ := id
  by_cases hb : b = booking
  · subst hb
    cases action with
    | charge =>
      rw [hnew] at hlocal
      rw [hout, hout, if_pos rfl, if_neg (by simp)]
      exact hlocal.carryCharge hsent
    | refund =>
      rw [hout, hout, if_pos rfl, if_neg (by simp)]
      exact hlocal.carryRefund hsent
  · rw [hout, hout, if_neg fun heq => hb (Prod.mk.inj heq).2, if_neg fun heq => hb (Prod.mk.inj heq).2]
    exact hlocal

end Tracks

/-! ### Calls that do not touch bookings or jobs -/

variable {s' : Store τ}

theorem answer_eq_ok {α : Type} {f : α → Reply τ} {x : Except Error (Store τ × α)} {reply : Reply τ}
    (h : answer f x = .ok (s', reply)) : ∃ a, x = .ok (s', a) ∧ reply = f a := by
  cases x with
  | ok r =>
    obtain ⟨rfl, rfl⟩ := Prod.mk.inj (Except.ok.inj h)
    exact ⟨r.2, rfl, rfl⟩
  | error err => cases h

variable {s : Store τ} {hotel : String}

theorem manage_frame (e : Settings τ) {room : Option String} {delete : Bool}
    (h : manage e hotel room delete s = .ok (s', u)) : s'.bookings = s.bookings ∧ s'.jobs = s.jobs := by
  replace h := of_check h
  cases room with
  | none =>
    cases delete with
    | true =>
      replace h := of_check h
      obtain ⟨rfl, -⟩ := Prod.mk.inj (Except.ok.inj h)
      exact ⟨rfl, rfl⟩
    | false =>
      obtain ⟨rfl, -⟩ := Prod.mk.inj (Except.ok.inj h)
      exact ⟨rfl, rfl⟩
  | some room =>
    replace h := of_check h
    cases delete with
    | true =>
      replace h := of_check h
      obtain ⟨rfl, -⟩ := Prod.mk.inj (Except.ok.inj h)
      exact ⟨rfl, rfl⟩
    | false =>
      replace h := of_check h
      obtain ⟨rfl, -⟩ := Prod.mk.inj (Except.ok.inj h)
      exact ⟨rfl, rfl⟩

theorem setDays_frame (e : Settings τ) {room : String} {rows : List DayRow} {n : ℕ}
    (h : setDays e hotel room rows s = .ok (s', n)) : s'.bookings = s.bookings ∧ s'.jobs = s.jobs := by
  obtain ⟨_, -, h⟩ := of_bind h
  obtain ⟨_, -, h⟩ := of_bind h
  obtain ⟨_, -, h⟩ := of_bind h
  obtain ⟨_, -, h⟩ := of_bind h
  obtain ⟨_, -, h⟩ := of_bind h
  obtain ⟨_, -, h⟩ := of_bind h
  obtain ⟨_, -, h⟩ := of_bind h
  obtain ⟨rfl, -⟩ := Prod.mk.inj (Except.ok.inj h)
  exact ⟨rfl, rfl⟩

theorem putPolicy_frame (e : Settings τ) {now : τ} {room : String} {capacity overbook price horizon : ℤ}
    {generation : String}
    (h : putPolicy e now hotel room capacity overbook price horizon generation s = .ok (s', u)) :
    s'.bookings = s.bookings ∧ s'.jobs = s.jobs := by
  replace h := of_check h
  replace h := of_check h
  replace h := of_check h
  replace h := of_check h
  replace h := of_check h
  replace h := of_check h
  replace h := of_check h
  dsimp only at h
  split at h
  · split at h
    · obtain ⟨rfl, -⟩ := Prod.mk.inj (Except.ok.inj h)
      exact ⟨rfl, rfl⟩
    · obtain ⟨rfl, -⟩ := Prod.mk.inj (Except.ok.inj h)
      exact ⟨rfl, rfl⟩
  · replace h := of_check h
    obtain ⟨rfl, -⟩ := Prod.mk.inj (Except.ok.inj h)
    exact ⟨rfl, rfl⟩

theorem rollNext_frame (e : Settings τ) (now : τ) (roll : Roll τ) (s : Store τ) :
    (rollNext e now roll s).1.bookings = s.bookings ∧ (rollNext e now roll s).1.jobs = s.jobs := by
  have hfill : ∀ policy first count, (fillPolicy s now policy first count).bookings = s.bookings ∧
      (fillPolicy s now policy first count).jobs = s.jobs := by
    intro policy first count
    simp only [fillPolicy]
    split <;> exact ⟨rfl, rfl⟩
  simp only [rollNext]
  split
  · exact ⟨rfl, rfl⟩
  · split
    · exact ⟨rfl, rfl⟩
    · split
      · exact ⟨rfl, rfl⟩
      · split
        · exact ⟨rfl, rfl⟩
        · split
          · exact hfill _ _ _
          · exact ⟨rfl, rfl⟩

/-! ### A shard, its workers and the provider -/

/-- Intents that `claim` returned and receipts the provider answered with. -/
structure World (τ : Type) where
  store : Store τ
  provider : Provider
  sent : List JobMessage
  replies : List (JobMessage × Receipt)

/-- Calls that do not come from a worker. -/
def Call.isOpen : Call τ → Bool
  | .claim _ _ => false
  | .retry _ _ => false
  | .finish _ _ => false
  | _ => true

def claimedBy : Except Error (Reply τ) → List JobMessage
  | .ok (.job (some message)) => [message]
  | _ => []

def answeredBy (job : JobMessage) : Except Error Receipt → List (JobMessage × Receipt)
  | .ok receipt => [(job, receipt)]
  | .error _ => []

variable [LinearOrder τ]

inductive Exchange (e : Settings τ) : World τ → World τ → Prop
  | call (w : World τ) (now : τ) (call : Call τ) : call.isOpen = true →
      Exchange e w { w with store := (perform e now call w.store).1 }
  | roll (w : World τ) (now : τ) (roll : Roll τ) :
      Exchange e w { w with store := (rollNext e now roll w.store).1 }
  | claim (w : World τ) (now : τ) (leaseSeconds : ℚ) (token : String) :
      Exchange e w { w with
        store := (perform e now (.claim leaseSeconds token) w.store).1
        sent := w.sent ++ claimedBy (perform e now (.claim leaseSeconds token) w.store).2 }
  | retry (w : World τ) (now : τ) (job : JobMessage) (message : String) : job ∈ w.sent →
      Exchange e w { w with store := (perform e now (.retry job message) w.store).1 }
  | finish (w : World τ) (now : τ) (job : JobMessage) (receipt : Receipt) :
      (job, receipt) ∈ w.replies →
      Exchange e w { w with store := (perform e now (.finish job receipt) w.store).1 }
  | execute (w : World τ) (job : JobMessage) : job ∈ w.sent →
      Exchange e w { w with
        provider := (w.provider.execute job).1
        replies := w.replies ++ answeredBy job (w.provider.execute job).2 }
  | control (w : World τ) (failAfterCommit failRefunds : Bool) :
      Exchange e w { w with
        provider := { w.provider with
          failAfterCommit := failAfterCommit, failRefunds := failRefunds } }

def saga (e : Settings τ) : Transitions (World τ) where
  start w := w = ⟨.empty, .empty, [], []⟩
  step := Exchange e

def World.wasSent (w : World τ) (id : Action × String) : Prop := ∃ m ∈ w.sent, m.id = id

structure World.Safe (w : World τ) : Prop where
  good : w.store.Good
  sound : w.provider.Sound
  tracks : Tracks w.store w.provider.outcomeOf w.wasSent
  replies : ∀ {job receipt}, (job, receipt) ∈ w.replies → w.provider.outcomeOf job.id = some receipt.status

theorem sweep_tracks {out : Action × String → Option Outcome} {sent : Action × String → Prop} (h : s.Good)
    (ht : Tracks s out sent) {now : τ} {n : ℕ} (hrun : sweep now s = .ok (s', n)) : Tracks s' out sent := by
  obtain ⟨swept, hrows, hdone⟩ := of_bind hrun
  obtain ⟨rfl, -⟩ := Prod.mk.inj (Except.ok.inj hdone)
  refine sweepRows_tracks h ht _ ?_ (expired_ids h now) hrows
  intro row hrow
  have hmem := mem_filter.mp (mem_mergeSort.mp (mem_of_mem_take hrow))
  refine ⟨expired_rows h now row hrow, ?_⟩
  simpa using (Bool.and_eq_true_iff.mp hmem.2).1

/-- What a call did to the store: nothing, or what its operation returned. -/
theorem perform_tracks (e : Settings τ) {now : τ} {call : Call τ} {out : Action × String → Option Outcome}
    {sent : Action × String → Prop} (h : s.Good) (ht : Tracks s out sent) (hopen : call.isOpen = true) :
    Tracks (perform e now call s).1 out sent := by
  rcases transaction_cases s (call.run e now) with ⟨s', reply, hok, heq⟩ | ⟨err, _, heq⟩
  · rw [perform, heq]
    unfold Call.run at hok
    cases call with
    | manage hotel room delete =>
      obtain ⟨_, hrun, -⟩ := answer_eq_ok hok
      exact ht.congr (manage_frame e hrun).1 (manage_frame e hrun).2
    | setDays hotel room rows =>
      obtain ⟨_, hrun, -⟩ := answer_eq_ok hok
      exact ht.congr (setDays_frame e hrun).1 (setDays_frame e hrun).2
    | putPolicy hotel room capacity overbook price horizon generation =>
      obtain ⟨_, hrun, -⟩ := answer_eq_ok hok
      exact ht.congr (putPolicy_frame e hrun).1 (putPolicy_frame e hrun).2
    | deletePolicy hotel room =>
      obtain ⟨_, hrun, -⟩ := answer_eq_ok hok
      replace hrun := of_check hrun
      replace hrun := of_check hrun
      obtain ⟨rfl, -⟩ := Prod.mk.inj (Except.ok.inj hrun)
      exact ht.congr rfl rfl
    | reserve user body =>
      obtain ⟨_, hrun, -⟩ := answer_eq_ok hok
      exact reserve_tracks e ht hrun
    | cancel booking user =>
      obtain ⟨_, hrun, -⟩ := answer_eq_ok hok
      exact cancel_tracks h ht hrun
    | sweep =>
      obtain ⟨_, hrun, -⟩ := answer_eq_ok hok
      exact sweep_tracks h ht hrun
    | claim => cases hopen
    | retry => cases hopen
    | finish => cases hopen
  · rw [perform, heq]
    exact ht

theorem World.Safe.step (e : Settings τ) {w w' : World τ} (h : w.Safe) (hstep : Exchange e w w') : w'.Safe := by
  cases hstep with
  | call now call hopen =>
    exact ⟨perform_good e now call h.good, h.sound, perform_tracks e h.good h.tracks hopen, h.replies⟩
  | roll now roll =>
    obtain ⟨hbookings, hjobs⟩ := rollNext_frame e now roll w.store
    exact ⟨rollNext_good e h.good now roll, h.sound, h.tracks.congr hbookings hjobs, h.replies⟩
  | claim now leaseSeconds token =>
    refine ⟨perform_good e now _ h.good, h.sound, ?_, h.replies⟩
    rcases transaction_cases w.store ((Call.claim leaseSeconds token).run e now) with
      ⟨s', reply, hok, heq⟩ | ⟨err, _, heq⟩
    · rw [perform, heq]
      obtain ⟨message, hrun, rfl⟩ := answer_eq_ok hok
      have htracks := claim_tracks e h.good h.tracks hrun
      have hsent : (fun id => w.wasSent id ∨ ∃ m, message = some m ∧ m.id = id) =
          World.wasSent { w with store := s', sent := w.sent ++ claimedBy (.ok (.job message) : Except Error (Reply τ)) } := by
        funext id
        cases message with
        | none => simp [World.wasSent, claimedBy]
        | some m => simp [World.wasSent, claimedBy, or_and_right, exists_or]
      exact hsent ▸ htracks
    · rw [perform, heq]
      simpa [claimedBy, World.wasSent] using h.tracks
  | retry now job message hjob =>
    refine ⟨perform_good e now _ h.good, h.sound, ?_, h.replies⟩
    rcases transaction_cases w.store ((Call.retry job message).run e now) with
      ⟨s', reply, hok, heq⟩ | ⟨err, _, heq⟩
    · rw [perform, heq]
      simp only [Call.run] at hok
      obtain ⟨_, hrun, -⟩ := answer_eq_ok hok
      exact retry_tracks e h.tracks hrun
    · rw [perform, heq]
      exact h.tracks
  | finish now job receipt hreply =>
    refine ⟨perform_good e now _ h.good, h.sound, ?_, h.replies⟩
    rcases transaction_cases w.store ((Call.finish job receipt).run e now) with
      ⟨s', reply, hok, heq⟩ | ⟨err, _, heq⟩
    · rw [perform, heq]
      obtain ⟨_, hrun, -⟩ := answer_eq_ok hok
      exact finish_tracks h.good h.tracks (h.replies hreply) hrun
    · rw [perform, heq]
      exact h.tracks
  | execute job hjob =>
    have hsent : w.wasSent job.id := ⟨job, hjob, rfl⟩
    rcases w.provider.execute_cases job with ⟨err, heq⟩ | ⟨p', receipt, happly, heq, hreply⟩
    · rw [heq]
      refine ⟨h.good, h.sound, h.tracks, fun hmem => h.replies ?_⟩
      simpa [answeredBy] using hmem
    · have hsound := h.sound.execute job
      rw [heq] at hsound ⊢
      obtain ⟨hnow, hcases⟩ := Provider.apply_executed happly
      have hkept : ∀ {id outcome}, w.provider.outcomeOf id = some outcome → p'.outcomeOf id = some outcome := by
        intro id outcome hid
        rcases hcases with ⟨hsame, -⟩ | ⟨_, _, hcarries, hset, -⟩
        · rw [hsame, hid]
        · rw [hset, if_neg, hid]
          rintro rfl
          rw [hcarries.new] at hid
          cases hid
      refine ⟨h.good, hsound, ?_, ?_⟩
      · rcases hcases with ⟨hsame, -⟩ | ⟨_, _, hcarries, hset, -⟩
        · exact (funext hsame) ▸ h.tracks
        · exact h.tracks.carry hcarries.new hsent hset
      · intro job' receipt' hmem
        rcases mem_append.mp hmem with hmem | hmem
        · exact hkept (h.replies hmem)
        · cases hr : (w.provider.execute job).2 with
          | ok r =>
            rw [hr] at hmem
            obtain ⟨rfl, rfl⟩ := Prod.mk.inj (mem_singleton.mp hmem)
            rw [hreply receipt' hr]
            exact hnow
          | error err =>
            rw [hr] at hmem
            cases hmem
  | control failAfterCommit failRefunds =>
    exact ⟨h.good, ⟨h.sound.charges, h.sound.once, h.sound.effects⟩, h.tracks, h.replies⟩

theorem reachable_safe (e : Settings τ) {w : World τ} (h : (saga e).Reachable w) : w.Safe := by
  refine h.invariant (P := World.Safe) ?_ ?_
  · rintro w rfl
    refine ⟨consistent_empty, Provider.sound_empty, fun id => ?_, (fun hmem => nomatch hmem)⟩
    have hnone : ∀ k, World.wasSent (⟨.empty, .empty, [], []⟩ : World τ) k = False := by
      intro k
      simp [World.wasSent]
    rw [hnone, hnone]
    exact Local.fresh
  · intro w w' _ hsafe hstep
    exact hsafe.step e hstep

/-- The inn opens and takes a reservation. -/
def innCalls : List (Call ℕ) :=
  openInn ++ [.reserve "ann" ⟨"inn", "double", "2026-01-01", "2026-01-02", 1, "k1", 100, "test-ok"⟩]

def innWorld : World ℕ := ⟨innCalls.foldl (fun s call => (perform oneShard 1767225600 call s).1) .empty, .empty, [], []⟩

theorem innWorld_reachable : (saga oneShard).Reachable innWorld := by
  have hcall : ∀ {s : Store ℕ} (call : Call ℕ), call.isOpen = true → (saga oneShard).Reachable ⟨s, .empty, [], []⟩ →
      (saga oneShard).Reachable ⟨(perform oneShard 1767225600 call s).1, .empty, [], []⟩ :=
    fun call hopen hs => .step hs (.call _ 1767225600 call hopen)
  exact hcall _ rfl (hcall _ rfl (hcall _ rfl (hcall _ rfl (.start rfl))))

end SystemDesign.Hotel
