import SystemDesign.Hotel.Store

/-!
The operations of a shard: bookings (`bookings.py`), the payment saga (`saga.py`) and
the catalog and rolling calendar (`catalog.py`, `calendar_policy.py`).

Each runs in one write transaction, except that the rolling calendar reads the due
policies first and then fills each of them in a transaction of its own.
-/

namespace SystemDesign.Hotel

variable {τ : Type} [LinearOrder τ] (e : Settings τ)

/-! ### Bookings -/

def checkUser : Option String → Except Error Unit
  | some user => identifier user
  | none => .ok ()

/-- `SELECT * FROM bookings WHERE id=?` with the owner's check. -/
def findBooking (s : Store τ) (booking : String) (user : Option String) : Except Error (Booking τ) := do
  let _ ← bookingHotel booking
  checkUser user
  match s.bookings.get? booking with
  | some row =>
    if user = none ∨ user = some row.user then .ok row
    else .error (.http 404 "reservation missing")
  | none => .error (.http 404 "reservation missing")

/-- The body of a reservation request. -/
structure Request where
  hotel : String
  room : String
  start : String
  stop : String
  quantity : ℤ
  requestKey : String
  expectedTotal : ℤ
  paymentMethod : String

def Request.toJson (body : Request) : Json :=
  .obj [("hotel", .str body.hotel), ("room", .str body.room), ("start", .str body.start),
    ("end", .str body.stop), ("quantity", .int body.quantity),
    ("request_key", .str body.requestKey), ("expected_total", .int body.expectedTotal),
    ("payment_method", .str body.paymentMethod)]

/-- `hotel + "." + digest([user, key])[:32]`. -/
def bookingId (hotel user key : String) : String :=
  hotel ++ "." ++ String.ofList ((digest (.arr [.str user, .str key])).toList.take 32)

def isActive (s : Store τ) (hotel room : String) : Bool :=
  s.rooms.get? (hotel, room) = some true && s.hotels.get? hotel = some true

/-- The conditional `UPDATE` of one night. -/
def holdNight (hotel room : String) (quantity : ℤ) (inventory : Dict Slot Inventory) (day : ℕ) :
    Except Error (Dict Slot Inventory) :=
  match inventory.get? (hotel, room, day) with
  | some row =>
    if row.reserved + quantity ≤ row.limit then
      .ok (inventory.set (hotel, room, day)
        { row with reserved := row.reserved + quantity, version := row.version + 1 })
    else .error (.http 409 "insufficient inventory for at least one night")
  | none => .error (.http 409 "insufficient inventory for at least one night")

/-- `add_job`: `INSERT OR IGNORE`. -/
def addJob (s : Store τ) (booking : String) (action : Action) (now : τ) : Store τ :=
  match s.jobs.get? (action, booking) with
  | some _ => s
  | none => { s with jobs := s.jobs.set (action, booking) ⟨.pending, 0, now, none, "", ""⟩ }

/-- The rows of a stay and their days, in order. -/
def stayRows (s : Store τ) (hotel room : String) (first last : ℕ) : List (ℕ × Inventory) :=
  (daysFrom first last).filterMap fun day => (s.inventory.get? (hotel, room, day)).map fun row => (day, row)

/-- The part of `reserve` after the idempotency check. -/
def placeBooking (s : Store τ) (now : τ) (user : String) (body : Request) : Except Error (Store τ × Booking τ) := do
  let (first, last) ← stay e body.start body.stop now
  require (isActive s body.hotel body.room = true) (.http 404 "hotel or room type not available")
  let rows := stayRows s body.hotel body.room first last
  require (rows.length = last - first) (.http 409 "calendar incomplete")
  let total := body.quantity * (rows.map fun r => r.2.price).sum
  require (total = body.expectedTotal) (.http 409 "price changed; obtain and accept a fresh quote")
  let inventory ← (daysFrom first last).foldlM (holdNight body.hotel body.room body.quantity) s.inventory
  let booking : Booking τ :=
    { id := bookingId body.hotel user body.requestKey, hotel := body.hotel, room := body.room,
      user := user, requestKey := body.requestKey, hash := digest body.toJson, start := first,
      stop := last, quantity := body.quantity, amount := total, currency := "USD",
      status := .pending, payment := .none, held := true, expires := e.plus now e.holdSeconds,
      created := now, method := body.paymentMethod,
      nights := rows.map fun r => (r.1, r.2.price) }
  require (s.bookings.get? booking.id = none) .integrityError
  return (addJob { s with inventory := inventory, bookings := s.bookings.set booking.id booking }
    booking.id .charge now, booking)

/-- The checks of `reserve` before its transaction. -/
def checkRequest (user : String) (body : Request) : Except Error Unit := do
  identifier body.hotel
  identifier body.room
  identifier body.requestKey
  e.owner body.hotel
  identifier user
  integer body.quantity "quantity" 1 10
  integer body.expectedTotal "expected_total" 0 30000000000
  require (isMethod body.paymentMethod = true)
    (.valueError "only simulated test-ok/test-decline payment methods are supported")

/-- `SELECT id,hash FROM bookings WHERE hotel=? AND user=? AND request_key=?`. -/
def earlier (s : Store τ) (hotel user key : String) : Option (Booking τ) :=
  s.bookings.values.find? fun b => b.hotel = hotel && b.user = user && b.requestKey = key

def reserve (now : τ) (user : String) (body : Request) (s : Store τ) : Except Error (Store τ × Booking τ) := do
  checkRequest e user body
  match earlier s body.hotel user body.requestKey with
  | some old => do
    require (old.hash = digest body.toJson) (.http 409 "idempotency key payload conflict")
    let row ← findBooking s old.id (some user)
    return (s, row)
  | none => placeBooking e s now user body

/-- The nights of a booking that its release gives back. -/
def releasable (s : Store τ) (row : Booking τ) : List ℕ :=
  (daysFrom row.start row.stop).filter fun day =>
    match s.inventory.get? (row.hotel, row.room, day) with
    | some night => row.quantity ≤ night.reserved
    | none => false

/-- The `UPDATE` of one night that a release gives back. -/
def freeNight (row : Booking τ) (inventory : Dict Slot Inventory) (day : ℕ) :
    Dict Slot Inventory :=
  match inventory.get? (row.hotel, row.room, day) with
  | some night => inventory.set (row.hotel, row.room, day)
      { night with reserved := night.reserved - row.quantity, version := night.version + 1 }
  | none => inventory

def inconsistent : Error := .http 503 "held inventory is inconsistent; repair required"

/-- `UPDATE bookings SET status=?,held=0 WHERE id=?`. -/
def closeBooking (bookings : Dict String (Booking τ)) (id : String) (status : Status) : Dict String (Booking τ) :=
  match bookings.get? id with
  | some row => bookings.set id { row with status := status, held := false }
  | none => bookings

def release (s : Store τ) (row : Booking τ) (status : Status) : Except Error (Store τ) := do
  let inventory ←
    if row.held then do
      require ((releasable s row).length = row.nights.length) inconsistent
      .ok ((releasable s row).foldl (freeNight row) s.inventory)
    else .ok s.inventory
  return { s with inventory := inventory, bookings := closeBooking s.bookings row.id status }

/-- `UPDATE bookings SET payment=? WHERE id=?`. -/
def setPayment (s : Store τ) (id : String) (payment : Payment) : Store τ :=
  match s.bookings.get? id with
  | some row => { s with bookings := s.bookings.set id { row with payment := payment } }
  | none => s

def cancel (now : τ) (booking : String) (user : Option String) (s : Store τ) : Except Error (Store τ × Unit) := do
  let row ← findBooking s booking user
  if row.status = .pending ∨ row.status = .confirmed then do
    let released ← release s row .cancelled
    if row.payment = .paid then
      return (addJob (setPayment released booking .refundPending) booking .refund now, ())
    else return (released, ())
  else return (s, ())

/-! ### The saga -/

/-- `ORDER BY expires,id`. -/
def expiresBefore (a b : Booking τ) : Bool := a.expires < b.expires || (a.expires = b.expires && a.id ≤ b.id)

def expired (s : Store τ) (now : τ) : List (Booking τ) :=
  ((s.bookings.values.filter fun b => b.status = .pending && b.expires ≤ now).mergeSort expiresBefore).take 100

def sweep (now : τ) (s : Store τ) : Except Error (Store τ × ℕ) := do
  let rows := expired s now
  let swept ← rows.foldlM (fun s row => release s row .expired) s
  return (swept, rows.length)

def Action.text : Action → String
  | .charge => "charge"
  | .refund => "refund"

/-- `ORDER BY due,id`. -/
def dueBefore (a b : (Action × String) × Job τ) : Bool :=
  a.2.due < b.2.due ||
    (a.2.due = b.2.due && a.1.1.text ++ ":" ++ a.1.2 ≤ b.1.1.text ++ ":" ++ b.1.2)

/-- A job is due when it is pending and its time has come, or its lease has run out. -/
def isReady (now : τ) (job : Job τ) : Bool :=
  match job.status with
  | .pending => job.due ≤ now
  | .inflight => match job.lease with
    | some lease => lease ≤ now
    | none => true
  | .done => false

def nextJob (s : Store τ) (now : τ) : Option ((Action × String) × Job τ) :=
  ((s.jobs.entries.filter fun entry => isReady now entry.2).mergeSort dueBefore).head?

def setJob (s : Store τ) (id : Action × String) (job : Job τ) : Store τ := { s with jobs := s.jobs.set id job }

/-- The row a foreign key refers to. -/
def theBooking (s : Store τ) (id : String) : Except Error (Booking τ) :=
  match s.bookings.get? id with
  | some row => .ok row
  | none => .error .integrityError

/-- `UPDATE bookings SET payment='CHARGING' WHERE id=? AND payment='NONE'`. -/
def markCharging (s : Store τ) (id : String) : Store τ :=
  match s.bookings.get? id with
  | some row => if row.payment = .none then setPayment s id .charging else s
  | none => s

/-- A first charge of a hold that has run out expires it. -/
def expireFirst (s : Store τ) (now : τ) (id : Action × String) (job : Job τ) : Except Error (Store τ) := do
  let booking ← theBooking s id.2
  if id.1 = .charge ∧ job.attempts = 0 ∧ booking.status = .pending ∧ booking.expires ≤ now then
    release s booking .expired
  else .ok s

/-- The end of `claim`: the lease, and the intent for the worker. -/
def leaseJob (s : Store τ) (id : Action × String) (job : Job τ) (booking : Booking τ)
    (until_ : τ) (token : String) : Store τ × Option JobMessage :=
  let leased := setJob s id
    { job with status := .inflight, attempts := job.attempts + 1, lease := some until_, token := token }
  (if id.1 = .charge then markCharging leased booking.id else leased,
    some ⟨id.1, booking.id, token, booking.amount, booking.currency, booking.method⟩)

def claim (now : τ) (leaseSeconds : ℚ) (token : String) (s : Store τ) : Except Error (Store τ × Option JobMessage) := do
  require (1 / 100 ≤ leaseSeconds ∧ leaseSeconds ≤ 3600) (.valueError "lease must be finite and in 0.01..3600 seconds")
  match nextJob s now with
  | none => return (s, none)
  | some (id, job) => do
    let s ← expireFirst s now id job
    let booking ← theBooking s id.2
    if id.1 = .charge ∧ job.attempts = 0 ∧ booking.status ≠ .pending then
      return (setJob s id { job with status := .done }, none)
    else return leaseJob s id job booking (e.plus now leaseSeconds) token

/-- The durable intent of a job. -/
def intent (id : Action × String) (booking : Booking τ) : String × Action × ℤ × String × String :=
  (id.2, id.1, booking.amount, booking.currency, booking.method)

def JobMessage.intent (job : JobMessage) : String × Action × ℤ × String × String :=
  (job.booking, job.action, job.amount, job.currency, job.method)

/-- The job a worker holds the lease of. -/
def activeJob (s : Store τ) (job : JobMessage) : Option (Job τ) :=
  match s.jobs.get? job.id with
  | some row => if row.status = .inflight ∧ row.token = job.token then some row else none
  | none => none

def mismatch : Error := .http 409 "job differs from durable payment intent"

/-- `min(30, 0.1 * 2 ** min(attempts, 8))`. -/
def retryDelay (attempts : ℕ) : ℚ := min 30 (1 / 10 * 2 ^ min attempts 8)

def retry (now : τ) (job : JobMessage) (message : String) (s : Store τ) : Except Error (Store τ × Unit) := do
  normalizeJob job
  match activeJob s job with
  | none => return (s, ())
  | some row => do
    let booking ← theBooking s job.booking
    require (intent job.id booking = job.intent) mismatch
    return (setJob s job.id
      { row with
        status := .pending
        due := e.plus now (retryDelay row.attempts)
        error := String.ofList (message.toList.take 300) }, ())

/-- The hold of a booking that is still pending is released. -/
def releasePending (s : Store τ) (row : Booking τ) (status : Status) : Except Error (Store τ) :=
  if row.status = .pending then release s row status else .ok s

/-- The branches of `finish` on the outcome of a charge or refund. -/
def settle (s : Store τ) (now : τ) (row : Booking τ) (action : Action) (outcome : Outcome) : Except Error (Store τ) :=
  match action with
  | .charge =>
    if outcome = .declined then do
      let s ← releasePending s row .rejected
      return setPayment s row.id .declined
    else if row.status = .pending ∧ now < row.expires then
      .ok { s with bookings := s.bookings.set row.id { row with status := .confirmed, payment := .paid } }
    else do
      let s ← releasePending s row .expired
      return addJob (setPayment s row.id .refundPending) row.id .refund now
  | .refund => .ok (setPayment s row.id .refunded)

def finish (now : τ) (job : JobMessage) (result : Receipt) (s : Store τ) : Except Error (Store τ × Bool) := do
  normalizeJob job
  normalizeReceipt result job
  match activeJob s job with
  | none => return (s, false)
  | some active => do
    let row ← theBooking s job.booking
    require (intent job.id row = job.intent) mismatch
    let s ← settle s now row job.action result.status
    return (setJob s job.id { active with status := .done, error := "" }, true)

/-! ### Catalog and calendar -/

/-- `manage` with its body checked: a hotel or room type is written or deactivated. -/
def manage (hotel : String) (room : Option String) (delete : Bool) (s : Store τ) : Except Error (Store τ × Unit) := do
  e.owner hotel
  match room with
  | none =>
    if delete then do
      require (s.hotels.contains hotel = true) (.http 404 "catalog entry missing")
      return ({ s with hotels := s.hotels.set hotel false }, ())
    else return ({ s with hotels := s.hotels.set hotel true }, ())
  | some room => do
    identifier room
    if delete then do
      require (s.rooms.contains (hotel, room) = true) (.http 404 "catalog entry missing")
      return ({ s with rooms := s.rooms.set (hotel, room) false }, ())
    else do
      require (s.hotels.get? hotel = some true) (.http 404 "hotel not available")
      return ({ s with rooms := s.rooms.set (hotel, room) true }, ())

structure DayRow where
  day : String
  capacity : ℤ
  overbook : ℤ
  price : ℤ

/-- The checks of one day of `set_days`. -/
def checkDay (row : DayRow) : Except Error (ℕ × DayRow) :=
  match isoOrdinal row.day with
  | some day => do
    integer row.capacity "capacity" 0 100000
    integer row.overbook "overbook" 0 10
    integer row.price "price" 0 100000000
    return (day, row)
  | none => .error (.valueError "noncanonical date")

/-- The row an upsert of a day writes. -/
def DayRow.upsert (row : DayRow) : Option Inventory → Inventory
  | some old => { old with
      capacity := row.capacity, overbook := row.overbook, price := row.price,
      version := old.version + 1 }
  | none => ⟨row.capacity, row.overbook, row.price, 0, 0⟩

/-- The upsert of one day; its `CHECK` keeps what is already held. -/
def setDay (hotel room : String) (inventory : Dict Slot Inventory) (entry : ℕ × DayRow) :
    Except Error (Dict Slot Inventory) :=
  let row := entry.2.upsert (inventory.get? (hotel, room, entry.1))
  if row.Check then .ok (inventory.set (hotel, room, entry.1) row)
  else .error (.http 409 "new capacity/policy cannot cover existing holds and bookings")

def setDays (hotel room : String) (rows : List DayRow) (s : Store τ) : Except Error (Store τ × ℕ) := do
  e.owner hotel
  identifier room
  require (1 ≤ rows.length ∧ rows.length ≤ 730) (.valueError "days must contain 1..730 rows")
  let parsed ← rows.mapM checkDay
  require ((parsed.map Prod.fst).Nodup) (.valueError "duplicate calendar date")
  require (s.rooms.contains (hotel, room) = true) (.http 404 "room type missing")
  let inventory ← parsed.foldlM (setDay hotel room) s.inventory
  return ({ s with inventory := inventory }, parsed.length)

/-- `CalendarPolicies.put`. -/
def putPolicy (now : τ) (hotel room : String) (capacity overbook price horizon : ℤ)
    (generation : String) (s : Store τ) : Except Error (Store τ × Unit) := do
  e.owner hotel
  identifier room
  integer capacity "capacity" 0 100000
  integer overbook "overbook" 0 10
  integer price "price" 0 100000000
  integer horizon "horizon_days" 1 730
  require (isActive s hotel room = true) (.http 404 "hotel or room type not available")
  let fresh (version : ℕ) : Policy τ :=
    ⟨hotel, room, capacity, overbook, price, horizon.toNat, version, e.today now, none, now, generation⟩
  match s.policies.get? (hotel, room) with
  | some old =>
    if old.capacity = capacity ∧ old.overbook = overbook ∧ old.price = price ∧ (old.horizonDays : ℤ) = horizon then
      return (s, ())
    else return ({ s with policies := s.policies.set (hotel, room) (fresh (old.version + 1)) }, ())
  | none => do
    require (s.policies.entries.length < 10000) (.http 429 "calendar policy capacity reached")
    return ({ s with policies := s.policies.set (hotel, room) (fresh 1) }, ())

/-- `CalendarPolicies.delete`. -/
def deletePolicy (hotel room : String) (s : Store τ) : Except Error (Store τ × Unit) := do
  e.owner hotel
  identifier room
  return ({ s with policies := s.policies.erase (hotel, room) }, ())

/-- A run of `roll_once` between two of its transactions. -/
structure Roll (τ : Type) where
  observedDay : ℕ
  policies : List (Policy τ)
  examined : ℕ
  maxRows : ℕ

/-- `ORDER BY p.served,p.hotel,p.room`; a policy never served sorts first. -/
def servedBefore (a b : Policy τ) : Bool :=
  match a.served, b.served with
  | none, some _ => true
  | some _, none => false
  | none, none => a.hotel < b.hotel || (a.hotel = b.hotel && a.room ≤ b.room)
  | some x, some y =>
    x < y || (x = y && (a.hotel < b.hotel || (a.hotel = b.hotel && a.room ≤ b.room)))

def due (s : Store τ) (today limit : ℕ) : List (Policy τ) :=
  ((s.policies.values.filter fun p =>
    isActive s p.hotel p.room && today + p.horizonDays ≤ maxOrdinal &&
      p.nextDay < today + p.horizonDays).mergeSort servedBefore).take limit

/-- The start of `roll_once`: its checks and the policies it will fill. -/
def rollStart (now : τ) (maxPolicies maxRows : ℤ) (s : Store τ) : Except Error (Roll τ) := do
  integer maxPolicies "max_policies" 1 128
  integer maxRows "max_rows" 1 8192
  return ⟨e.today now, due s (e.today now) maxPolicies.toNat, 0, maxRows.toNat⟩

/-- `INSERT OR IGNORE` of a day. -/
def fillDay (policy : Policy τ) (inventory : Dict Slot Inventory) (day : ℕ) :
    Dict Slot Inventory :=
  let row : Inventory := ⟨policy.capacity, policy.overbook, policy.price, 0, 0⟩
  match inventory.get? (policy.hotel, policy.room, day) with
  | some _ => inventory
  | none => if row.Check then inventory.set (policy.hotel, policy.room, day) row else inventory

/-- The policy is still the one that was read, and its room is bookable. -/
def isCurrent (s : Store τ) (policy : Policy τ) : Bool :=
  match s.policies.get? (policy.hotel, policy.room) with
  | some now => now.version = policy.version && now.nextDay = policy.nextDay &&
      now.generation = policy.generation && isActive s policy.hotel policy.room
  | none => false

/-- The write transaction for one policy. -/
def fillPolicy (s : Store τ) (now : τ) (policy : Policy τ) (first count : ℕ) : Store τ :=
  let filled := (daysFrom first (first + count)).foldl (fillDay policy) s.inventory
  match s.policies.get? (policy.hotel, policy.room) with
  | some current =>
    { s with
      inventory := filled
      policies := s.policies.set (policy.hotel, policy.room)
        { current with nextDay := first + count, served := some now } }
  | none => { s with inventory := filled }

/-- One round of the loop of `roll_once`; `none` when the loop has ended. -/
def rollNext (now : τ) (roll : Roll τ) (s : Store τ) : Store τ × Option (Roll τ) :=
  match roll.policies with
  | [] => (s, none)
  | policy :: rest =>
    if roll.maxRows ≤ roll.examined then (s, none)
    else
      let first := max roll.observedDay policy.nextDay
      let count := min (roll.observedDay + policy.horizonDays - first) (roll.maxRows - roll.examined)
      if count = 0 then (s, some { roll with policies := rest })
      else if e.today now ≠ roll.observedDay then (s, none)
      else if isCurrent s policy then
        (fillPolicy s now policy first count, some { roll with policies := rest, examined := roll.examined + count })
      else (s, some { roll with policies := rest })

end SystemDesign.Hotel
