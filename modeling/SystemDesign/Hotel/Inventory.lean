import SystemDesign.Hotel.Operations
import SystemDesign.Lib.Transitions

/-!
The inventory invariant of a shard.

`Consistent` relates the calendar to the bookings alone, so that jobs, policies and
the catalog do not enter it. `release_spec` says once what a release does; the four
paths that release (expiry, cancellation, decline, late payment) all go through it.
-/

namespace SystemDesign.Hotel

open List hiding le_refl
open Dict

variable {τ : Type}

/-! ### The invariant -/

/-- The stay of a booking includes this night. -/
def Booking.Covers (b : Booking τ) (slot : Slot) : Prop :=
  b.hotel = slot.1 ∧ b.room = slot.2.1 ∧ b.start ≤ slot.2.2 ∧ slot.2.2 < b.stop

instance (b : Booking τ) (slot : Slot) : Decidable (b.Covers slot) := by
  unfold Booking.Covers
  infer_instance

/-- The rooms a booking holds on a night. -/
def Booking.holds (slot : Slot) (b : Booking τ) : ℤ := if b.held = true ∧ b.Covers slot then b.quantity else 0

/-- The sum of the quantities of the held bookings whose stay covers a night. -/
def heldOn (bookings : Dict String (Booking τ)) (slot : Slot) : ℤ := bookings.sum (Booking.holds slot)

structure Consistent (inventory : Dict Slot Inventory) (bookings : Dict String (Booking τ)) :
    Prop where
  keyed : ∀ {id b}, bookings.get? id = some b → b.id = id
  quantity : ∀ {id b}, bookings.get? id = some b → 0 ≤ b.quantity
  nights : ∀ {id b}, bookings.get? id = some b → b.nights.length = b.stop - b.start
  rows : ∀ {id b slot}, bookings.get? id = some b → b.held = true → b.Covers slot →
    ∃ row, inventory.get? slot = some row
  reserved : ∀ {slot row}, inventory.get? slot = some row → row.reserved = heldOn bookings slot
  check : ∀ {slot row}, inventory.get? slot = some row → row.Check

theorem consistent_empty : Consistent .empty (.empty : Dict String (Booking τ)) where
  keyed h := nomatch h
  quantity h := nomatch h
  nights h := nomatch h
  rows h := nomatch h
  reserved h := nomatch h
  check h := nomatch h

namespace Consistent

variable {inventory inventory' : Dict Slot Inventory} {bookings : Dict String (Booking τ)}

theorem holds_nonneg (h : Consistent inventory bookings) {id : String} {b : Booking τ}
    (hb : bookings.get? id = some b) (slot : Slot) : 0 ≤ b.holds slot := by
  unfold Booking.holds
  split
  · exact h.quantity hb
  · exact le_refl 0

/-- A held booking never holds more than the night's counter. -/
theorem holds_le (h : Consistent inventory bookings) {id : String} {b : Booking τ}
    (hb : bookings.get? id = some b) (slot : Slot) : b.holds slot ≤ heldOn bookings slot := by
  have hsplit := sum_eq_of_get? hb (Booking.holds slot)
  have hrest : 0 ≤ (bookings.erase id).sum (Booking.holds slot) := by
    apply Dict.sum_nonneg
    intro v hv
    obtain ⟨k, hk⟩ := mem_values.mp hv
    rw [get?_erase] at hk
    split at hk
    · cases hk
    · exact h.holds_nonneg hk slot
  unfold heldOn
  linarith

/-- A night without a row has no held booking. -/
theorem heldOn_of_none (h : Consistent inventory bookings) {slot : Slot}
    (hslot : inventory.get? slot = none) : heldOn bookings slot = 0 := by
  have hzero : ∀ v ∈ bookings.values, Booking.holds slot v = 0 := by
    intro v hv
    obtain ⟨k, hk⟩ := mem_values.mp hv
    unfold Booking.holds
    split
    · rename_i hc
      obtain ⟨row, hrow⟩ := h.rows hk hc.1 hc.2
      rw [hslot] at hrow
      cases hrow
    · rfl
  have := sum_congr hzero
  rw [heldOn, this]
  simp [Dict.sum]

/-- Calendar changes that keep the counters and add only empty nights. -/
theorem refit (h : Consistent inventory bookings) (hkept : ∀ slot row, inventory.get? slot = some row →
      ∃ row', inventory'.get? slot = some row' ∧ row'.reserved = row.reserved)
    (hfresh : ∀ slot row', inventory.get? slot = none → inventory'.get? slot = some row' →
      row'.reserved = 0) (hcheck : ∀ slot row', inventory'.get? slot = some row' → row'.Check) :
    Consistent inventory' bookings where
  keyed := h.keyed
  quantity := h.quantity
  nights := h.nights
  rows := by
    intro id b slot hb hheld hcov
    obtain ⟨row, hrow⟩ := h.rows hb hheld hcov
    obtain ⟨row', hrow', -⟩ := hkept slot row hrow
    exact ⟨row', hrow'⟩
  reserved := by
    intro slot row' hrow'
    cases hold : inventory.get? slot with
    | some row =>
      obtain ⟨row'', hrow'', hsame⟩ := hkept slot row hold
      obtain rfl : row'' = row' := Option.some.inj (hrow''.symm.trans hrow')
      rw [hsame, h.reserved hold]
    | none => rw [hfresh slot row' hold hrow', h.heldOn_of_none hold]
  check := hcheck _ _

/-- One night is written: its counter is kept, or the night is new and empty. -/
theorem set_row (h : Consistent inventory bookings) {slot : Slot} {row : Inventory}
    (hrow : row.reserved = match inventory.get? slot with
      | some old => old.reserved
      | none => 0) (hcheck : row.Check) : Consistent (inventory.set slot row) bookings := by
  apply h.refit
  · intro slot' old hold
    by_cases heq : slot' = slot
    · subst heq
      exact ⟨row, by rw [get?_set, if_pos rfl], by rw [hrow, hold]⟩
    · exact ⟨old, by rw [get?_set_of_ne _ heq, hold], rfl⟩
  · intro slot' row' hnone hsome
    by_cases heq : slot' = slot
    · subst heq
      rw [get?_set, if_pos rfl] at hsome
      rw [← Option.some.inj hsome, hrow, hnone]
    · rw [get?_set_of_ne _ heq, hnone] at hsome
      cases hsome
  · intro slot' row' hsome
    by_cases heq : slot' = slot
    · subst heq
      rw [get?_set, if_pos rfl] at hsome
      exact Option.some.inj hsome ▸ hcheck
    · rw [get?_set_of_ne _ heq] at hsome
      exact h.check hsome

/-- A booking is rewritten without changing what it holds. -/
theorem set_booking (h : Consistent inventory bookings) {id : String} {b b' : Booking τ}
    (hb : bookings.get? id = some b) (hid : b'.id = b.id) (hquantity : b'.quantity = b.quantity)
    (hnights : b'.nights = b.nights) (hheld : b'.held = b.held) (hcovers : ∀ slot, b'.Covers slot ↔ b.Covers slot)
    (hdays : b'.stop - b'.start = b.stop - b.start) : Consistent inventory (bookings.set id b') := by
  constructor
  · intro k c hc
    rcases get?_set_cases hc with ⟨rfl, rfl⟩ | ⟨-, hc⟩
    · rw [hid, h.keyed hb]
    · exact h.keyed hc
  · intro k c hc
    rcases get?_set_cases hc with ⟨rfl, rfl⟩ | ⟨-, hc⟩
    · rw [hquantity]
      exact h.quantity hb
    · exact h.quantity hc
  · intro k c hc
    rcases get?_set_cases hc with ⟨rfl, rfl⟩ | ⟨-, hc⟩
    · rw [hnights, hdays, h.nights hb]
    · exact h.nights hc
  · intro k c slot hc hcheld hccov
    rcases get?_set_cases hc with ⟨rfl, rfl⟩ | ⟨-, hc⟩
    · exact h.rows hb (hheld ▸ hcheld) ((hcovers slot).mp hccov)
    · exact h.rows hc hcheld hccov
  · intro slot row hrow
    have hsame : Booking.holds slot b' = Booking.holds slot b := by
      simp [Booking.holds, hheld, hcovers slot, hquantity]
    rw [h.reserved hrow, heldOn, heldOn, sum_set_of_some hb, hsame]
    ring
  · exact h.check

end Consistent

/-! ### Releases -/

/-- A loop over distinct nights of one room rewrites those nights and no others. -/
theorem get?_foldl_freeNight (row : Booking τ) (days : List ℕ) (hdays : days.Nodup)
    (inventory : Dict Slot Inventory) (slot : Slot) :
    (days.foldl (freeNight row) inventory).get? slot =
      if slot.1 = row.hotel ∧ slot.2.1 = row.room ∧ slot.2.2 ∈ days then
        (inventory.get? slot).map fun night =>
          { night with reserved := night.reserved - row.quantity, version := night.version + 1 }
      else inventory.get? slot := by
  obtain ⟨hotel, room, day⟩ := slot
  induction days generalizing inventory with
  | nil => simp
  | cons first rest ih =>
    obtain ⟨hfirst, hrest⟩ := nodup_cons.mp hdays
    have hstep : (freeNight row inventory first).get? (hotel, room, day) =
        if (hotel, room, day) = (row.hotel, row.room, first) then
          (inventory.get? (hotel, room, day)).map fun night =>
            { night with reserved := night.reserved - row.quantity, version := night.version + 1 }
        else inventory.get? (hotel, room, day) := by
      unfold freeNight
      split
      · rename_i night hnight
        rw [get?_set]
        split
        · rename_i heq
          rw [heq, hnight]
          rfl
        · rfl
      · rename_i hnone
        split
        · rename_i heq
          rw [heq, hnone]
          rfl
        · rfl
    rw [foldl_cons, ih hrest, hstep]
    by_cases hroom : hotel = row.hotel ∧ room = row.room
    · obtain ⟨rfl, rfl⟩ := hroom
      by_cases hday : day = first
      · subst hday
        simp [hfirst]
      · simp [hday]
    · have hne : ¬ ((hotel, room, day) = (row.hotel, row.room, first)) := by
        rintro heq
        simp only [Prod.mk.injEq] at heq
        exact hroom ⟨heq.1, heq.2.1⟩
      have hnot : ∀ P : Prop, ¬ (hotel = row.hotel ∧ room = row.room ∧ P) := fun P hc => hroom ⟨hc.1, hc.2.1⟩
      rw [if_neg hne, if_neg (hnot _), if_neg (hnot _)]

variable {inventory : Dict Slot Inventory} {bookings : Dict String (Booking τ)}
variable {row : Booking τ} {s : Store τ}

/-- The nights of a held booking all have room for its release. -/
theorem releasable_eq (h : Consistent s.inventory s.bookings) (hrow : s.bookings.get? row.id = some row)
    (hheld : row.held = true) : releasable s row = daysFrom row.start row.stop := by
  apply filter_eq_self.mpr
  intro day hday
  obtain ⟨hfirst, hlast⟩ := mem_daysFrom.mp hday
  have hcov : row.Covers (row.hotel, row.room, day) := ⟨rfl, rfl, hfirst, hlast⟩
  obtain ⟨night, hnight⟩ := h.rows hrow hheld hcov
  have hle := h.holds_le hrow (row.hotel, row.room, day)
  rw [← h.reserved hnight, Booking.holds, if_pos ⟨hheld, hcov⟩] at hle
  rw [hnight]
  simpa using hle

/-- The closed form of a booking after its release. -/
def Booking.closed (row : Booking τ) (status : Status) : Booking τ := { row with status := status, held := false }

/-- A release succeeds and keeps the calendar consistent; the 503 branch is not taken. -/
theorem release_spec (h : Consistent s.inventory s.bookings) (hrow : s.bookings.get? row.id = some row)
    (status : Status) :
    ∃ inventory, release s row status =
        .ok { s with inventory := inventory, bookings := s.bookings.set row.id (row.closed status) } ∧
      Consistent inventory (s.bookings.set row.id (row.closed status)) := by
  have hclose : closeBooking s.bookings row.id status = s.bookings.set row.id (row.closed status) := by
    simp [closeBooking, hrow, Booking.closed]
  cases hheld : row.held with
  | false =>
    refine ⟨s.inventory, ?_, ?_⟩
    · simp [release, hheld, hclose, bind, Except.bind, pure, Except.pure]
    · exact h.set_booking hrow rfl rfl rfl hheld.symm (fun _ => Iff.rfl) rfl
  | true =>
    have hdays := releasable_eq h hrow hheld
    have hcount : (releasable s row).length = row.nights.length := by
      rw [hdays, length_daysFrom, h.nights hrow]
    have hget := get?_foldl_freeNight row _ (daysFrom_nodup row.start row.stop) s.inventory
    refine ⟨(daysFrom row.start row.stop).foldl (freeNight row) s.inventory, ?_, ?_⟩
    · simp only [release, hheld, if_true, require, hcount, hclose, bind, Except.bind, pure, Except.pure]
      rw [hdays]
    · have hcov : ∀ slot : Slot, (slot.1 = row.hotel ∧ slot.2.1 = row.room ∧
          slot.2.2 ∈ daysFrom row.start row.stop) ↔ row.Covers slot := by
        intro slot
        rw [mem_daysFrom, Booking.Covers, eq_comm, @eq_comm _ slot.2.1]
      have hclosed : ∀ slot, (row.closed status).holds slot = 0 := by
        intro slot
        simp [Booking.holds, Booking.closed]
      have hsum : ∀ slot, heldOn (s.bookings.set row.id (row.closed status)) slot =
          heldOn s.bookings slot - row.holds slot := by
        intro slot
        rw [heldOn, heldOn, sum_set_of_some hrow, hclosed slot]
        ring
      constructor
      · intro k c hc
        rcases get?_set_cases hc with ⟨rfl, rfl⟩ | ⟨-, hc⟩
        · rfl
        · exact h.keyed hc
      · intro k c hc
        rcases get?_set_cases hc with ⟨rfl, rfl⟩ | ⟨-, hc⟩
        · have hquantity := h.quantity hrow
          exact hquantity
        · exact h.quantity hc
      · intro k c hc
        rcases get?_set_cases hc with ⟨rfl, rfl⟩ | ⟨-, hc⟩
        · have hnights := h.nights hrow
          exact hnights
        · exact h.nights hc
      · intro k c slot hc hcheld hccov
        rcases get?_set_cases hc with ⟨rfl, rfl⟩ | ⟨-, hc⟩
        · cases hcheld
        · obtain ⟨night, hnight⟩ := h.rows hc hcheld hccov
          rw [hget, hnight]
          split
          · exact ⟨_, rfl⟩
          · exact ⟨_, rfl⟩
      · intro slot night hnight
        rw [hget] at hnight
        rw [hsum slot]
        split at hnight
        · rename_i hin
          obtain ⟨old, hold, rfl⟩ := Option.map_eq_some_iff.mp hnight
          rw [← h.reserved hold, Booking.holds, if_pos ⟨hheld, (hcov slot).mp hin⟩]
        · rename_i hout
          rw [h.reserved hnight, Booking.holds, if_neg fun hc => hout ((hcov slot).mpr hc.2)]
          ring
      · intro slot night hnight
        rw [hget] at hnight
        split at hnight
        · rename_i hin
          obtain ⟨old, hold, rfl⟩ := Option.map_eq_some_iff.mp hnight
          have hle := h.holds_le hrow slot
          rw [← h.reserved hold, Booking.holds, if_pos ⟨hheld, (hcov slot).mp hin⟩] at hle
          obtain ⟨hc, ho, hp, hr⟩ := h.check hold
          have hq := h.quantity hrow
          refine ⟨hc, ho, hp, by simpa using hle, ?_⟩
          have hlimit := hr.2
          simp only [Inventory.limit] at hlimit ⊢
          linarith
        · exact h.check hnight

/-! ### Reservations -/

variable {inventory : Dict Slot Inventory}

/-- The loop of conditional updates of a reservation, when all of them succeed. -/
theorem holdNights_spec (hotel room : String) (quantity : ℤ) {days : List ℕ} (hdays : days.Nodup)
    {inventory' : Dict Slot Inventory} (h : days.foldlM (holdNight hotel room quantity) inventory = .ok inventory')
    (slot : Slot) :
    (slot.1 = hotel ∧ slot.2.1 = room ∧ slot.2.2 ∈ days →
      ∃ row, inventory.get? slot = some row ∧ row.reserved + quantity ≤ row.limit ∧
        inventory'.get? slot = some { row with reserved := row.reserved + quantity, version := row.version + 1 }) ∧
    (¬ (slot.1 = hotel ∧ slot.2.1 = room ∧ slot.2.2 ∈ days) → inventory'.get? slot = inventory.get? slot) := by
  obtain ⟨h', r', day⟩ := slot
  induction days generalizing inventory with
  | nil =>
    cases h
    simp
  | cons first rest ih =>
    obtain ⟨hfirst, hrest⟩ := nodup_cons.mp hdays
    rw [foldlM_cons] at h
    obtain ⟨middle, hmiddle, hrun⟩ := of_bind h
    obtain ⟨row, hrow, hroom, rfl⟩ : ∃ row, inventory.get? (hotel, room, first) = some row ∧
        row.reserved + quantity ≤ row.limit ∧ middle = inventory.set (hotel, room, first)
          { row with reserved := row.reserved + quantity, version := row.version + 1 } := by
      unfold holdNight at hmiddle
      split at hmiddle
      · rename_i row hrow
        split at hmiddle
        · rename_i hroom
          exact ⟨row, hrow, hroom, (Except.ok.inj hmiddle).symm⟩
        · cases hmiddle
      · cases hmiddle
    obtain ⟨hin, hout⟩ := ih hrest hrun
    constructor
    · rintro ⟨rfl, rfl, hmem⟩
      rcases mem_cons.mp hmem with rfl | hmem
      · refine ⟨row, hrow, hroom, ?_⟩
        rw [hout fun hc => hfirst hc.2.2, get?_set, if_pos rfl]
      · have hne : (h', r', day) ≠ (h', r', first) := by
          intro heq
          simp only [Prod.mk.injEq, true_and] at heq
          exact hfirst (heq ▸ hmem)
        obtain ⟨row', hrow', hroom', hafter⟩ := hin ⟨rfl, rfl, hmem⟩
        rw [get?_set_of_ne _ hne] at hrow'
        exact ⟨row', hrow', hroom', hafter⟩
    · intro hnot
      have hne : (h', r', day) ≠ (hotel, room, first) := by
        intro heq
        simp only [Prod.mk.injEq] at heq
        exact hnot ⟨heq.1, heq.2.1, heq.2.2 ▸ mem_cons_self⟩
      rw [hout fun hc => hnot ⟨hc.1, hc.2.1, mem_cons_of_mem _ hc.2.2⟩, get?_set_of_ne _ hne]

/-- A new held booking over nights that all had room for it. -/
theorem Consistent.place {inventory' : Dict Slot Inventory} (h : Consistent inventory bookings) {b : Booking τ}
    (hnew : bookings.get? b.id = none) (hquantity : 0 ≤ b.quantity) (hnights : b.nights.length = b.stop - b.start)
    (hheld : b.held = true) (hrun : (daysFrom b.start b.stop).foldlM (holdNight b.hotel b.room b.quantity) inventory =
      .ok inventory') : Consistent inventory' (bookings.set b.id b) := by
  have hspec := holdNights_spec b.hotel b.room b.quantity (daysFrom_nodup b.start b.stop) hrun
  have hcov : ∀ slot : Slot, (slot.1 = b.hotel ∧ slot.2.1 = b.room ∧
      slot.2.2 ∈ daysFrom b.start b.stop) ↔ b.Covers slot := by
    intro slot
    rw [mem_daysFrom, Booking.Covers, eq_comm, @eq_comm _ slot.2.1]
  have hsum : ∀ slot, heldOn (bookings.set b.id b) slot = heldOn bookings slot + b.holds slot :=
    fun slot => sum_set_of_none hnew b (Booking.holds slot)
  constructor
  · intro k c hc
    rcases get?_set_cases hc with ⟨rfl, rfl⟩ | ⟨-, hc⟩
    · rfl
    · exact h.keyed hc
  · intro k c hc
    rcases get?_set_cases hc with ⟨rfl, rfl⟩ | ⟨-, hc⟩
    · exact hquantity
    · exact h.quantity hc
  · intro k c hc
    rcases get?_set_cases hc with ⟨rfl, rfl⟩ | ⟨-, hc⟩
    · exact hnights
    · exact h.nights hc
  · intro k c slot hc hcheld hccov
    by_cases hin : b.Covers slot
    · obtain ⟨row, -, -, hafter⟩ := (hspec slot).1 ((hcov slot).mpr hin)
      exact ⟨_, hafter⟩
    · rw [(hspec slot).2 (mt (hcov slot).mp hin)]
      rcases get?_set_cases hc with ⟨rfl, rfl⟩ | ⟨-, hc⟩
      · exact absurd hccov hin
      · exact h.rows hc hcheld hccov
  · intro slot night hnight
    rw [hsum slot, Booking.holds]
    by_cases hin : b.Covers slot
    · obtain ⟨row, hrow, -, hafter⟩ := (hspec slot).1 ((hcov slot).mpr hin)
      obtain rfl := Option.some.inj (hafter.symm.trans hnight)
      rw [if_pos ⟨hheld, hin⟩, ← h.reserved hrow]
    · rw [(hspec slot).2 (mt (hcov slot).mp hin)] at hnight
      rw [if_neg fun hc => hin hc.2, h.reserved hnight, add_zero]
  · intro slot night hnight
    by_cases hin : b.Covers slot
    · obtain ⟨row, hrow, hroom, hafter⟩ := (hspec slot).1 ((hcov slot).mpr hin)
      obtain rfl := Option.some.inj (hafter.symm.trans hnight)
      obtain ⟨hc, ho, hp, hr⟩ := h.check hrow
      have hr0 := hr.1
      exact ⟨hc, ho, hp, by simp only; linarith, hroom⟩
    · rw [(hspec slot).2 (mt (hcov slot).mp hin)] at hnight
      exact h.check hnight

/-! ### What each operation keeps -/

/-- The calendar and the bookings of a store agree. -/
def Store.Good (s : Store τ) : Prop := Consistent s.inventory s.bookings

@[simp] theorem addJob_inventory (s : Store τ) (booking : String) (action : Action) (now : τ) :
    (addJob s booking action now).inventory = s.inventory := by
  unfold addJob
  split <;> rfl

@[simp] theorem addJob_bookings (s : Store τ) (booking : String) (action : Action) (now : τ) :
    (addJob s booking action now).bookings = s.bookings := by
  unfold addJob
  split <;> rfl

theorem Store.Good.addJob (h : s.Good) (booking : String) (action : Action) (now : τ) :
    (addJob s booking action now).Good := by
  simpa [Store.Good] using h

theorem Store.Good.setPayment {s : Store τ} (h : s.Good) (id : String) (payment : Payment) :
    (setPayment s id payment).Good := by
  unfold Hotel.setPayment
  split
  · rename_i row hrow
    exact h.set_booking hrow rfl rfl rfl rfl (fun _ => Iff.rfl) rfl
  · exact h

theorem Store.Good.markCharging {s : Store τ} (h : s.Good) (id : String) : (markCharging s id).Good := by
  unfold Hotel.markCharging
  split
  · split
    · exact h.setPayment id .charging
    · exact h
  · exact h

theorem Store.Good.setJob (h : s.Good) (id : Action × String) (job : Job τ) : (setJob s id job).Good := h

theorem release_avoids (h : s.Good) (hrow : s.bookings.get? row.id = some row) (status : Status) :
    Avoids inconsistent Store.Good (release s row status) := by
  obtain ⟨inventory, hrun, hgood⟩ := release_spec h hrow status
  rw [hrun]
  exact hgood

theorem identifier_avoids (value : String) : Avoids inconsistent (fun _ => True) (identifier value) :=
  (Avoids.check (by simp [inconsistent])).mono fun _ _ => trivial

theorem integer_avoids (value : ℤ) (name : String) (low high : ℤ) :
    Avoids inconsistent (fun _ => low ≤ value ∧ value ≤ high) (integer value name low high) :=
  Avoids.check (by simp [inconsistent])

theorem bookingHotel_avoids (booking : String) : Avoids inconsistent (fun _ => True) (bookingHotel booking) := by
  unfold bookingHotel
  split
  · split
    · exact (identifier_avoids _).bind fun _ _ => trivial
    · exact Avoids.raises (by simp [inconsistent])
  · exact Avoids.raises (by simp [inconsistent])

theorem owner_avoids (e : Settings τ) (hotel : String) : Avoids inconsistent (fun _ => True) (e.owner hotel) :=
  (identifier_avoids hotel).bind fun _ _ => (Avoids.check (by simp [inconsistent])).mono fun _ _ => trivial

theorem findBooking_avoids (s : Store τ) (booking : String) (user : Option String) :
    Avoids inconsistent (fun row => s.bookings.get? booking = some row) (findBooking s booking user) := by
  refine (bookingHotel_avoids booking).bind fun _ _ => ?_
  have huser : Avoids inconsistent (fun _ => True) (checkUser user) := by
    cases user with
    | some name => exact identifier_avoids name
    | none => trivial
  refine huser.bind fun _ _ => ?_
  split
  · rename_i row hrow
    split
    · exact hrow
    · exact Avoids.raises (by simp [inconsistent])
  · exact Avoids.raises (by simp [inconsistent])

theorem theBooking_avoids (s : Store τ) (id : String) :
    Avoids inconsistent (fun row => s.bookings.get? id = some row) (theBooking s id) := by
  unfold theBooking
  split
  · rename_i row hrow
    exact hrow
  · exact Avoids.raises (by simp [inconsistent])

theorem stay_avoids (e : Settings τ) (start stop : String) (now : τ) :
    Avoids inconsistent (fun _ => True) (stay e start stop now) := by
  unfold stay
  split
  · refine (Avoids.check (by simp [inconsistent])).bind fun _ _ => ?_
    refine (Avoids.check (by simp [inconsistent])).bind fun _ _ => ?_
    refine (Avoids.check (by simp [inconsistent])).bind fun _ _ => ?_
    exact (Avoids.check (by simp [inconsistent])).bind fun _ _ => trivial
  · exact Avoids.raises (by simp [inconsistent])

theorem checkRequest_avoids (e : Settings τ) (user : String) (body : Request) :
    Avoids inconsistent (fun _ => 1 ≤ body.quantity) (checkRequest e user body) := by
  refine (identifier_avoids body.hotel).bind fun _ _ => ?_
  refine (identifier_avoids body.room).bind fun _ _ => ?_
  refine (identifier_avoids body.requestKey).bind fun _ _ => ?_
  refine (owner_avoids e body.hotel).bind fun _ _ => ?_
  refine (identifier_avoids user).bind fun _ _ => ?_
  refine (integer_avoids body.quantity "quantity" 1 10).bind fun _ hquantity => ?_
  refine (integer_avoids body.expectedTotal "expected_total" 0 30000000000).bind fun _ _ => ?_
  exact (Avoids.check (by simp [inconsistent])).mono fun _ _ => hquantity.1

theorem holdNight_avoids (hotel room : String) (quantity : ℤ) (inventory : Dict Slot Inventory) (day : ℕ) :
    Avoids inconsistent (fun _ => True) (holdNight hotel room quantity inventory day) := by
  unfold holdNight
  split
  · split
    · trivial
    · exact Avoids.raises (by simp [inconsistent])
  · exact Avoids.raises (by simp [inconsistent])

theorem placeBooking_avoids (e : Settings τ) (h : s.Good) (now : τ) (user : String) {body : Request}
    (hquantity : 1 ≤ body.quantity) : Avoids inconsistent (fun r => r.1.Good) (placeBooking e s now user body) := by
  refine (stay_avoids e body.start body.stop now).bind fun days _ => ?_
  obtain ⟨first, last⟩ := days
  refine (Avoids.check (by simp [inconsistent])).bind fun _ _ => ?_
  refine (Avoids.check (by simp [inconsistent])).bind fun _ hrows => ?_
  refine (Avoids.check (by simp [inconsistent])).bind fun _ _ => ?_
  have hloop : Avoids inconsistent (fun _ => True) ((daysFrom first last).foldlM
      (holdNight body.hotel body.room body.quantity) s.inventory) :=
    Avoids.foldlM _ trivial fun inventory day _ => holdNight_avoids body.hotel body.room body.quantity inventory day
  refine hloop.eq_ok.bind fun inventory hrun => ?_
  refine (Avoids.check (by simp [inconsistent])).bind fun _ hnew => ?_
  apply Store.Good.addJob
  refine Consistent.place h hnew ?_ ?_ rfl hrun.2
  · exact (by decide : (0 : ℤ) ≤ 1).trans hquantity
  · simpa using hrows

theorem reserve_avoids (e : Settings τ) (h : s.Good) (now : τ) (user : String) (body : Request) :
    Avoids inconsistent (fun r => r.1.Good) (reserve e now user body s) := by
  refine (checkRequest_avoids e user body).bind fun _ hquantity => ?_
  split
  · rename_i old _
    refine (Avoids.check (by simp [inconsistent])).bind fun _ _ => ?_
    exact (findBooking_avoids s old.id (some user)).bind fun _ _ => h
  · exact placeBooking_avoids e h now user hquantity

theorem cancel_avoids (h : s.Good) (now : τ) (booking : String) (user : Option String) :
    Avoids inconsistent (fun r => r.1.Good) (cancel now booking user s) := by
  refine (findBooking_avoids s booking user).bind fun row hrow => ?_
  split
  · have hid : s.bookings.get? row.id = some row := (h.keyed hrow).symm ▸ hrow
    refine (release_avoids h hid .cancelled).bind fun released hreleased => ?_
    split
    · exact (hreleased.setPayment booking .refundPending).addJob booking .refund now
    · exact hreleased
  · exact h

/-- The sweep releases rows read before the first release; they are distinct bookings, so
each is still as it was read. -/
theorem sweepRows_avoids (h : s.Good) (rows : List (Booking τ))
    (hrows : ∀ row ∈ rows, s.bookings.get? row.id = some row) (hids : (rows.map Booking.id).Nodup) :
    Avoids inconsistent Store.Good (rows.foldlM (fun s row => release s row .expired) s) := by
  induction rows generalizing s with
  | nil => exact h
  | cons row rest ih =>
    rw [map_cons, nodup_cons] at hids
    obtain ⟨inventory, hrun, hgood⟩ := release_spec h (hrows row mem_cons_self) .expired
    rw [foldlM_cons, hrun]
    have hlater : ∀ other ∈ rest, (s.bookings.set row.id (row.closed .expired)).get? other.id = some other := by
      intro other hother
      have hne : other.id ≠ row.id := fun heq => hids.1 (heq ▸ mem_map_of_mem hother)
      rw [get?_set_of_ne _ hne]
      exact hrows other (mem_cons_of_mem row hother)
    exact ih (s := { s with inventory := inventory, bookings := _ }) hgood hlater hids.2

theorem normalizeJob_avoids (job : JobMessage) : Avoids inconsistent (fun _ => True) (normalizeJob job) := by
  have hoperation : Avoids inconsistent (fun _ => True) (normalizeOperation job) := by
    refine (bookingHotel_avoids job.booking).bind fun _ _ => ?_
    refine (integer_avoids job.amount "amount" 0 30000000000).bind fun _ _ => ?_
    exact (Avoids.check (by simp [inconsistent])).mono fun _ _ => trivial
  refine hoperation.bind fun _ _ => ?_
  exact (Avoids.check (by simp [inconsistent])).mono fun _ _ => trivial

theorem normalizeReceipt_avoids (receipt : Receipt) (job : JobMessage) :
    Avoids inconsistent (fun _ => True) (normalizeReceipt receipt job) := by
  refine (Avoids.check (by simp [inconsistent])).bind fun _ _ => ?_
  refine (Avoids.check (by simp [inconsistent])).bind fun _ _ => ?_
  exact (Avoids.check (by simp [inconsistent])).mono fun _ _ => trivial

theorem retry_avoids (e : Settings τ) (h : s.Good) (now : τ) (job : JobMessage) (message : String) :
    Avoids inconsistent (fun r => r.1.Good) (retry e now job message s) := by
  refine (normalizeJob_avoids job).bind fun _ _ => ?_
  split
  · exact h
  · refine (theBooking_avoids s job.booking).bind fun booking _ => ?_
    exact (Avoids.check (by simp [inconsistent, mismatch])).bind fun _ _ => h

variable {bookings : Dict String (Booking τ)}

theorem setDay_avoids (h : Consistent inventory bookings) (hotel room : String) (entry : ℕ × DayRow) :
    Avoids inconsistent (fun inventory' => Consistent inventory' bookings) (setDay hotel room inventory entry) := by
  simp only [setDay]
  split
  · rename_i hcheck
    refine h.set_row ?_ hcheck
    cases inventory.get? (hotel, room, entry.1) <;> rfl
  · exact Avoids.raises (by simp [inconsistent])

theorem checkDay_avoids (row : DayRow) : Avoids inconsistent (fun _ => True) (checkDay row) := by
  unfold checkDay
  split
  · refine (integer_avoids row.capacity "capacity" 0 100000).bind fun _ _ => ?_
    refine (integer_avoids row.overbook "overbook" 0 10).bind fun _ _ => ?_
    exact (integer_avoids row.price "price" 0 100000000).bind fun _ _ => trivial
  · exact Avoids.raises (by simp [inconsistent])

theorem setDays_avoids (e : Settings τ) (h : s.Good) (hotel room : String) (rows : List DayRow) :
    Avoids inconsistent (fun r => r.1.Good) (setDays e hotel room rows s) := by
  refine (owner_avoids e hotel).bind fun _ _ => ?_
  refine (identifier_avoids room).bind fun _ _ => ?_
  refine (Avoids.check (by simp [inconsistent])).bind fun _ _ => ?_
  refine (Avoids.mapM rows checkDay_avoids).bind fun parsed _ => ?_
  refine (Avoids.check (by simp [inconsistent])).bind fun _ _ => ?_
  refine (Avoids.check (by simp [inconsistent])).bind fun _ _ => ?_
  have hloop : Avoids inconsistent (fun inventory => Consistent inventory s.bookings)
      (parsed.foldlM (setDay hotel room) s.inventory) :=
    Avoids.foldlM _ h fun inventory entry hgood => setDay_avoids hgood hotel room entry
  exact hloop.bind fun _ hgood => hgood

theorem manage_avoids (e : Settings τ) (h : s.Good) (hotel : String) (room : Option String) (delete : Bool) :
    Avoids inconsistent (fun r => r.1.Good) (manage e hotel room delete s) := by
  refine (owner_avoids e hotel).bind fun _ _ => ?_
  cases room with
  | none =>
    cases delete with
    | true => exact (Avoids.check (by simp [inconsistent])).bind fun _ _ => h
    | false => exact h
  | some room =>
    refine (identifier_avoids room).bind fun _ _ => ?_
    cases delete with
    | true => exact (Avoids.check (by simp [inconsistent])).bind fun _ _ => h
    | false => exact (Avoids.check (by simp [inconsistent])).bind fun _ _ => h

theorem putPolicy_avoids (e : Settings τ) (h : s.Good) (now : τ) (hotel room : String)
    (capacity overbook price horizon : ℤ) (generation : String) :
    Avoids inconsistent (fun r => r.1.Good)
      (putPolicy e now hotel room capacity overbook price horizon generation s) := by
  refine (owner_avoids e hotel).bind fun _ _ => ?_
  refine (identifier_avoids room).bind fun _ _ => ?_
  refine (integer_avoids capacity "capacity" 0 100000).bind fun _ _ => ?_
  refine (integer_avoids overbook "overbook" 0 10).bind fun _ _ => ?_
  refine (integer_avoids price "price" 0 100000000).bind fun _ _ => ?_
  refine (integer_avoids horizon "horizon_days" 1 730).bind fun _ _ => ?_
  refine (Avoids.check (by simp [inconsistent])).bind fun _ _ => ?_
  simp only
  split
  · split
    · exact h
    · exact h
  · exact (Avoids.check (by simp [inconsistent])).bind fun _ _ => h

theorem deletePolicy_avoids (e : Settings τ) (h : s.Good) (hotel room : String) :
    Avoids inconsistent (fun r => r.1.Good) (deletePolicy e hotel room s) := by
  refine (owner_avoids e hotel).bind fun _ _ => ?_
  exact (identifier_avoids room).bind fun _ _ => h

/-! ### The rolling calendar -/

theorem fillDay_consistent (h : Consistent inventory bookings) (policy : Policy τ) (day : ℕ) :
    Consistent (fillDay policy inventory day) bookings := by
  simp only [fillDay]
  split
  · exact h
  · rename_i hnone
    split
    · rename_i hcheck
      exact h.set_row (by rw [hnone]) hcheck
    · exact h

theorem fillDays_consistent (policy : Policy τ) (days : List ℕ) (h : Consistent inventory bookings) :
    Consistent (days.foldl (fillDay policy) inventory) bookings := by
  induction days generalizing inventory with
  | nil => exact h
  | cons day rest ih => exact ih (fillDay_consistent h policy day)

theorem rollNext_good (e : Settings τ) (h : s.Good) (now : τ) (roll : Roll τ) : (rollNext e now roll s).1.Good := by
  have hfill : ∀ policy first count, (fillPolicy s now policy first count).Good := by
    intro policy first count
    have hdays := fillDays_consistent policy (daysFrom first (first + count)) h
    simp only [fillPolicy]
    split
    · exact hdays
    · exact hdays
  simp only [rollNext]
  split
  · exact h
  · rename_i policy rest _
    split
    · exact h
    · split
      · exact h
      · split
        · exact h
        · split
          · exact hfill _ _ _
          · exact h

inductive Reply (τ : Type) where
  | unit
  | booking (row : Booking τ)
  | count (n : ℕ)
  | job (message : Option JobMessage)
  | settled (done : Bool)

/-- The reply of a call beside its store. -/
def answer {α : Type} (f : α → Reply τ) (x : Except Error (Store τ × α)) :
    Except Error (Store τ × Reply τ) := x.map fun r => (r.1, f r.2)

theorem answer_avoids {α : Type} {f : α → Reply τ} {x : Except Error (Store τ × α)}
    (h : Avoids inconsistent (fun r => r.1.Good) x) : Avoids inconsistent (fun r => r.1.Good) (answer f x) := by
  cases x with
  | ok r => exact h
  | error err => exact h

/-! ### Sweeps, claims and settlements -/

variable [LinearOrder τ]

/-- The rows of a sweep are rows of the table. -/
theorem expired_rows (h : s.Good) (now : τ) : ∀ row ∈ expired s now, s.bookings.get? row.id = some row := by
  intro row hrow
  have hmem := mem_of_mem_filter (mem_mergeSort.mp (mem_of_mem_take hrow))
  obtain ⟨id, hid⟩ := mem_values.mp hmem
  exact (h.keyed hid).symm ▸ hid

/-- The rows of a sweep are distinct bookings. -/
theorem expired_ids (h : s.Good) (now : τ) : ((expired s now).map Booking.id).Nodup := by
  have hkeys : s.bookings.values.map Booking.id = s.bookings.keys := by
    rw [Dict.values, Dict.keys, map_map]
    apply map_congr_left
    intro entry hentry
    exact h.keyed (mem_entries.mp hentry)
  have hall : (s.bookings.values.map Booking.id).Nodup := hkeys ▸ s.bookings.nodup
  have hfilter := hall.sublist ((filter_sublist (p := fun b : Booking τ =>
    b.status = .pending && b.expires ≤ now) (l := s.bookings.values)).map Booking.id)
  have hsort := ((List.mergeSort_perm _ expiresBefore).map Booking.id).nodup_iff.mpr hfilter
  exact hsort.sublist ((take_sublist 100 _).map Booking.id)

theorem sweep_avoids (h : s.Good) (now : τ) : Avoids inconsistent (fun r => r.1.Good) (sweep now s) :=
  (sweepRows_avoids h _ (expired_rows h now) (expired_ids h now)).bind fun _ hgood => hgood

theorem expireFirst_avoids (h : s.Good) (now : τ) (id : Action × String) (job : Job τ) :
    Avoids inconsistent Store.Good (expireFirst s now id job) := by
  refine (theBooking_avoids s id.2).bind fun booking hbooking => ?_
  split
  · exact release_avoids h ((h.keyed hbooking).symm ▸ hbooking) .expired
  · exact h

theorem claim_avoids (e : Settings τ) (h : s.Good) (now : τ) (leaseSeconds : ℚ) (token : String) :
    Avoids inconsistent (fun r => r.1.Good) (claim e now leaseSeconds token s) := by
  refine (Avoids.check (by simp [inconsistent])).bind fun _ _ => ?_
  split
  · exact h
  · rename_i id job _
    refine (expireFirst_avoids h now id job).bind fun s' hgood => ?_
    refine (theBooking_avoids s' id.2).bind fun booking _ => ?_
    split
    · exact hgood
    · show Store.Good (leaseJob s' id job booking _ token).1
      simp only [leaseJob]
      split
      · exact (hgood.setJob id _).markCharging booking.id
      · exact hgood.setJob id _

theorem settle_avoids (h : s.Good) (now : τ) (hrow : s.bookings.get? row.id = some row) (action : Action)
    (outcome : Outcome) : Avoids inconsistent Store.Good (settle s now row action outcome) := by
  have hrelease : ∀ status, Avoids inconsistent Store.Good (releasePending s row status) := by
    intro status
    unfold releasePending
    split
    · exact release_avoids h hrow status
    · exact h
  cases action with
  | refund => exact h.setPayment row.id .refunded
  | charge =>
    simp only [settle]
    split
    · refine (hrelease .rejected).bind fun s' hgood => ?_
      exact hgood.setPayment row.id .declined
    · split
      · exact h.set_booking hrow rfl rfl rfl rfl (fun _ => Iff.rfl) rfl
      · refine (hrelease .expired).bind fun s' hgood => ?_
        exact (hgood.setPayment row.id .refundPending).addJob row.id .refund now

theorem finish_avoids (h : s.Good) (now : τ) (job : JobMessage) (result : Receipt) :
    Avoids inconsistent (fun r => r.1.Good) (finish now job result s) := by
  refine (normalizeJob_avoids job).bind fun _ _ => ?_
  refine (normalizeReceipt_avoids result job).bind fun _ _ => ?_
  split
  · exact h
  · refine (theBooking_avoids s job.booking).bind fun row hrow => ?_
    refine (Avoids.check (by simp [inconsistent, mismatch])).bind fun _ _ => ?_
    have hid : s.bookings.get? row.id = some row := (h.keyed hrow).symm ▸ hrow
    exact (settle_avoids h now hid job.action result.status).bind fun _ hgood => hgood

/-! ### Runs of a shard -/

inductive Call (τ : Type) where
  | manage (hotel : String) (room : Option String) (delete : Bool)
  | setDays (hotel room : String) (rows : List DayRow)
  | putPolicy (hotel room : String) (capacity overbook price horizon : ℤ) (generation : String)
  | deletePolicy (hotel room : String)
  | reserve (user : String) (body : Request)
  | cancel (booking : String) (user : Option String)
  | sweep
  | claim (leaseSeconds : ℚ) (token : String)
  | retry (job : JobMessage) (message : String)
  | finish (job : JobMessage) (result : Receipt)

/-- The body of each call's transaction. -/
def Call.run (e : Settings τ) (now : τ) : Call τ → Store τ → Except Error (Store τ × Reply τ)
  | .manage hotel room delete, s => answer (fun _ => .unit) (Hotel.manage e hotel room delete s)
  | .setDays hotel room rows, s => answer .count (Hotel.setDays e hotel room rows s)
  | .putPolicy hotel room capacity overbook price horizon generation, s => answer (fun _ => .unit)
      (Hotel.putPolicy e now hotel room capacity overbook price horizon generation s)
  | .deletePolicy hotel room, s => answer (fun _ => .unit) (Hotel.deletePolicy e hotel room s)
  | .reserve user body, s => answer .booking (Hotel.reserve e now user body s)
  | .cancel booking user, s => answer (fun _ => .unit) (Hotel.cancel now booking user s)
  | .sweep, s => answer .count (Hotel.sweep now s)
  | .claim leaseSeconds token, s => answer .job (Hotel.claim e now leaseSeconds token s)
  | .retry job message, s => answer (fun _ => .unit) (Hotel.retry e now job message s)
  | .finish job result, s => answer .settled (Hotel.finish now job result s)

/-- A call in its transaction: the store afterwards and what was returned or raised. -/
def perform (e : Settings τ) (now : τ) (call : Call τ) (s : Store τ) :
    Store τ × Except Error (Reply τ) := transaction s (call.run e now)

theorem run_avoids (e : Settings τ) (now : τ) (call : Call τ) (h : s.Good) :
    Avoids inconsistent (fun r => r.1.Good) (call.run e now s) := by
  unfold Call.run
  cases call with
  | manage hotel room delete => exact answer_avoids (manage_avoids e h hotel room delete)
  | setDays hotel room rows => exact answer_avoids (setDays_avoids e h hotel room rows)
  | putPolicy hotel room capacity overbook price horizon generation =>
    exact answer_avoids (putPolicy_avoids e h now hotel room capacity overbook price horizon generation)
  | deletePolicy hotel room => exact answer_avoids (deletePolicy_avoids e h hotel room)
  | reserve user body => exact answer_avoids (reserve_avoids e h now user body)
  | cancel booking user => exact answer_avoids (cancel_avoids h now booking user)
  | sweep => exact answer_avoids (sweep_avoids h now)
  | claim leaseSeconds token => exact answer_avoids (claim_avoids e h now leaseSeconds token)
  | retry job message => exact answer_avoids (retry_avoids e h now job message)
  | finish job result => exact answer_avoids (finish_avoids h now job result)

/-- A shard with the runs of `roll_once` that are between two of their transactions. -/
structure Shard (τ : Type) where
  store : Store τ
  rolls : List (Roll τ)

inductive Step (e : Settings τ) : Shard τ → Shard τ → Prop
  | call (now : τ) (call : Call τ) (s : Store τ) (rolls : List (Roll τ)) :
      Step e ⟨s, rolls⟩ ⟨(perform e now call s).1, rolls⟩
  | rollStart (now : τ) (maxPolicies maxRows : ℤ) (s : Store τ) (rolls : List (Roll τ))
      (roll : Roll τ) : rollStart e now maxPolicies maxRows s = .ok roll →
      Step e ⟨s, rolls⟩ ⟨s, roll :: rolls⟩
  | rollNext (now : τ) (s : Store τ) (left right : List (Roll τ)) (roll : Roll τ) :
      Step e ⟨s, left ++ roll :: right⟩ ⟨(rollNext e now roll s).1, left ++ (rollNext e now roll s).2.toList ++ right⟩

def shard (e : Settings τ) : Transitions (Shard τ) where
  start sh := sh = ⟨.empty, []⟩
  step := Step e

theorem perform_good (e : Settings τ) (now : τ) (call : Call τ) (h : s.Good) : (perform e now call s).1.Good := by
  have hrun := run_avoids e now call h
  rcases transaction_cases s (call.run e now) with ⟨s', reply, hok, heq⟩ | ⟨err, _, heq⟩
  · rw [perform, heq]
    rw [hok] at hrun
    exact hrun
  · rw [perform, heq]
    exact h

theorem reachable_good (e : Settings τ) {sh : Shard τ} (h : (shard e).Reachable sh) : sh.store.Good := by
  refine h.invariant (P := fun sh => sh.store.Good) ?_ ?_
  · rintro s rfl
    exact consistent_empty
  · intro s s' _ hgood hstep
    cases hstep with
    | call now call => exact perform_good e now call hgood
    | rollStart => exact hgood
    | rollNext now store left right roll => exact rollNext_good e hgood now roll

omit [LinearOrder τ] in
theorem owner_single {e : Settings τ} (hshards : e.shards = 1) (hshard : e.shard = 0)
    {hotel : String} (h : isIdentifier hotel = true) : e.owner hotel = .ok () := by
  simp [Settings.owner, identifier, require, h, shardFor, hshards, hshard, Nat.mod_one, bind, Except.bind]

/-- A single shard whose clock counts seconds. -/
def oneShard : Settings ℕ := ⟨0, 1, 120, fun now => 719163 + now / 86400, fun now s => now + ⌊s⌋.toNat⟩

def openInn : List (Call ℕ) :=
  [.manage "inn" none false, .manage "inn" (some "double") false, .setDays "inn" "double" [⟨"2026-01-01", 2, 0, 100⟩]]

def innStore : Store ℕ := openInn.foldl (fun s call => (perform oneShard 0 call s).1) .empty

theorem innStore_night : innStore.inventory.get? ("inn", "double", 739617) = some ⟨2, 0, 100, 0, 0⟩ := by
  have howner := @owner_single ℕ oneShard rfl rfl "inn" (by decide)
  have hroom : identifier "double" = .ok () := by decide
  have hday : isoOrdinal "2026-01-01" = some 739617 := by decide +kernel
  have hhotel : ∀ s : Store ℕ, (perform oneShard 0 (.manage "inn" none false) s).1 =
      { s with hotels := s.hotels.set "inn" true } := by
    intro s
    simp [perform, transaction, Call.run, answer, manage, howner, bind, Except.bind, pure, Except.pure, Except.map]
  have hdouble : ∀ s : Store ℕ, s.hotels.get? "inn" = some true →
      (perform oneShard 0 (.manage "inn" (some "double") false) s).1 =
        { s with rooms := s.rooms.set ("inn", "double") true } := by
    intro s hs
    simp [perform, transaction, Call.run, answer, manage, howner, hroom, hs, bind, Except.bind,
      pure, Except.pure, Except.map, require]
  have hnight : ∀ s : Store ℕ, s.rooms.contains ("inn", "double") = true →
      s.inventory.get? ("inn", "double", 739617) = none →
      (perform oneShard 0 (.setDays "inn" "double" [⟨"2026-01-01", 2, 0, 100⟩]) s).1 =
        { s with inventory := s.inventory.set ("inn", "double", 739617) ⟨2, 0, 100, 0, 0⟩ } := by
    intro s hs hnone
    simp [perform, transaction, Call.run, answer, setDays, howner, hroom, hs, hnone, hday,
      checkDay, integer, setDay, DayRow.upsert, Inventory.Check, Inventory.limit, bind,
      Except.bind, pure, Except.pure, Except.map, require]
  rw [innStore, openInn]
  simp only [foldl_cons, foldl_nil]
  rw [hhotel, hdouble, hnight]
  · simp
  · simp [Dict.contains]
  · rfl
  · simp

theorem innStore_reachable : (shard oneShard).Reachable ⟨innStore, []⟩ := by
  have hcall : ∀ {s : Store ℕ} (call : Call ℕ), (shard oneShard).Reachable ⟨s, []⟩ →
      (shard oneShard).Reachable ⟨(perform oneShard 0 call s).1, []⟩ :=
    fun call hs => .step hs (.call 0 call _ [])
  exact hcall _ (hcall _ (hcall _ (.start rfl)))

end SystemDesign.Hotel
