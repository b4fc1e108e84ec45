import SystemDesign.Lib.Json
import SystemDesign.Lib.Sha256
import SystemDesign.Lib.Transaction

/-!
The store of one hotel shard (`store.py`, `schema.py`) and the checks on what callers
send (`common.py`, `payment_contracts.py`).

A table is a dictionary from its primary key to its row. The nights of a booking are
inserted with it and never change, so they are a field of its row. Dates are counted
as day ordinals: the tables hold canonical ISO dates only, whose text order is the
order of the days. A job's id is its action and booking.

The clock is any linearly ordered type with a day for each reading and some rounding
of the sum of a reading and a number of seconds.
-/

namespace SystemDesign.Hotel

inductive Error where
  | valueError (message : String)
  | http (status : ℕ) (message : String)
  | integrityError
  | overflowError
deriving DecidableEq

/-! ### Tables -/

inductive Status where
  | pending
  | confirmed
  | cancelled
  | expired
  | rejected
deriving DecidableEq

inductive Payment where
  | none
  | charging
  | paid
  | declined
  | refundPending
  | refunded
deriving DecidableEq

inductive Action where
  | charge
  | refund
deriving DecidableEq

inductive JobStatus where
  | pending
  | inflight
  | done
deriving DecidableEq

/-- A night of a room type: `(hotel, room, day)`. -/
abbrev Slot := String × String × ℕ

structure Inventory where
  capacity : ℤ
  overbook : ℤ
  price : ℤ
  reserved : ℤ
  version : ℕ

/-- `capacity+(capacity*overbook)/100`. -/
def Inventory.limit (row : Inventory) : ℤ := row.capacity + row.capacity * row.overbook / 100

/-- The `CHECK` constraints of the table. -/
def Inventory.Check (row : Inventory) : Prop :=
  0 ≤ row.capacity ∧ (0 ≤ row.overbook ∧ row.overbook ≤ 10) ∧ 0 ≤ row.price ∧
    (0 ≤ row.reserved ∧ row.reserved ≤ row.limit)

instance (row : Inventory) : Decidable row.Check := by
  unfold Inventory.Check
  infer_instance

structure Booking (τ : Type) where
  id : String
  hotel : String
  room : String
  user : String
  requestKey : String
  hash : String
  start : ℕ
  stop : ℕ
  quantity : ℤ
  amount : ℤ
  currency : String
  status : Status
  payment : Payment
  held : Bool
  expires : τ
  created : τ
  method : String
  nights : List (ℕ × ℤ)

structure Job (τ : Type) where
  status : JobStatus
  attempts : ℕ
  due : τ
  lease : Option τ
  token : String
  error : String

structure Policy (τ : Type) where
  hotel : String
  room : String
  capacity : ℤ
  overbook : ℤ
  price : ℤ
  horizonDays : ℕ
  version : ℕ
  nextDay : ℕ
  served : Option τ
  updated : τ
  generation : String

/-- Hotels and room types are kept with their `active` flag. -/
structure Store (τ : Type) where
  hotels : Dict String Bool
  rooms : Dict (String × String) Bool
  inventory : Dict Slot Inventory
  bookings : Dict String (Booking τ)
  jobs : Dict (Action × String) (Job τ)
  policies : Dict (String × String) (Policy τ)

def Store.empty {τ : Type} : Store τ := ⟨.empty, .empty, .empty, .empty, .empty, .empty⟩

/-- The settings of a shard and its clock. -/
structure Settings (τ : Type) where
  shard : ℕ
  shards : ℕ
  holdSeconds : ℕ
  today : τ → ℕ
  plus : τ → ℚ → τ

/-! ### Checks -/

def digest (value : Json) : String := Sha256.hexdigest value.encode

def isIdentifier (value : String) : Bool :=
  1 ≤ value.length && value.length ≤ 80 && value.toList.all fun c => c.isAlphanum || c = '_' || c = '-'

def identifier (value : String) : Except Error Unit :=
  require (isIdentifier value = true)
    (.valueError "IDs must contain 1..80 ASCII letters, digits, underscores or hyphens")

def integer (value : ℤ) (name : String) (low high : ℤ) : Except Error Unit :=
  require (low ≤ value ∧ value ≤ high) (.valueError
    (name ++ " must be an integer in [" ++ toString low ++ "," ++ toString high ++ "]"))

def isHex (value : String) : Bool :=
  value.length = 32 && value.toList.all fun c => ('0' ≤ c && c ≤ '9') || ('a' ≤ c && c ≤ 'f')

def bookingHotel (booking : String) : Except Error String :=
  match booking.toList.splitOn '.' with
  | [hotel, suffix] =>
    if isHex (String.ofList suffix) then do
      identifier (String.ofList hotel)
      return String.ofList hotel
    else .error (.valueError "invalid reservation ID")
  | _ => .error (.valueError "invalid reservation ID")

/-- `shard_for`: the first 16 hexadecimal digits of the digest, modulo the shards. -/
def shardFor (hotel : String) (count : ℕ) : ℕ :=
  ((digest (.str hotel)).toList.take 16).foldl (fun n c => n * 16 + (Json.hexVal c).getD 0) 0 % count

def Settings.owner {τ : Type} (e : Settings τ) (hotel : String) : Except Error Unit := do
  identifier hotel
  require (shardFor hotel e.shards = e.shard) (.http 409 "hotel belongs to another shard")

/-! ### Dates -/

def isLeap (year : ℕ) : Bool := year % 4 = 0 && (year % 100 ≠ 0 || year % 400 = 0)

def daysBeforeMonth (year month : ℕ) : ℕ :=
  [0, 31, 59, 90, 120, 151, 181, 212, 243, 273, 304, 334].getD (month - 1) 0 + if 2 < month && isLeap year then 1 else 0

def daysInMonth (year month : ℕ) : ℕ :=
  if month = 2 && isLeap year then 29
  else [31, 28, 31, 30, 31, 30, 31, 31, 30, 31, 30, 31].getD (month - 1) 0

/-- `date.max.toordinal()`. -/
@[irreducible] def maxOrdinal : ℕ := 3652059

def decimal (digits : List Char) : ℕ := digits.foldl (fun n c => n * 10 + (c.toNat - 48)) 0

/-- The ordinal of a date, if it is one. -/
def ordinal (year month day : ℕ) : Option ℕ :=
  if 1 ≤ year && 1 ≤ month && month ≤ 12 && 1 ≤ day && day ≤ daysInMonth year month then
    some ((year - 1) * 365 + (year - 1) / 4 - (year - 1) / 100 + (year - 1) / 400 + daysBeforeMonth year month + day)
  else none

/-- The ordinal of a canonical `YYYY-MM-DD` text. -/
def isoOrdinal (text : String) : Option ℕ :=
  match text.toList with
  | [a, b, c, d, s, m, n, t, x, y] =>
    if s = '-' ∧ t = '-' ∧ [a, b, c, d, m, n, x, y].all Char.isDigit then
      ordinal (decimal [a, b, c, d]) (decimal [m, n]) (decimal [x, y])
    else none
  | _ => none

def daysFrom (start stop : ℕ) : List ℕ := List.range' start (stop - start)

@[simp] theorem mem_daysFrom {start stop day : ℕ} : day ∈ daysFrom start stop ↔ start ≤ day ∧ day < stop := by
  simp only [daysFrom, List.mem_range'_1]
  omega

theorem daysFrom_nodup (start stop : ℕ) : (daysFrom start stop).Nodup := List.nodup_range'

@[simp] theorem length_daysFrom (start stop : ℕ) : (daysFrom start stop).length = stop - start :=
  List.length_range'

/-- `stay`: the first day and the day after the last, within the bookable period. -/
def stay {τ : Type} (e : Settings τ) (start stop : String) (now : τ) : Except Error (ℕ × ℕ) :=
  match isoOrdinal start, isoOrdinal stop with
  | some first, some last => do
    require (first + 1 ≤ last ∧ last ≤ first + 30)
      (.valueError "stay must contain 1..30 nights with canonical YYYY-MM-DD dates")
    require (e.today now ≤ first) (.valueError "stay must be within the next 730 UTC calendar days")
    require (e.today now + 730 ≤ maxOrdinal) .overflowError
    require (last ≤ e.today now + 730) (.valueError "stay must be within the next 730 UTC calendar days")
    return (first, last)
  | _, _ =>
    .error (.valueError "stay must contain 1..30 nights with canonical YYYY-MM-DD dates")

/-! ### Payment contracts -/

/-- A payment intent as a worker receives it. -/
structure JobMessage where
  action : Action
  booking : String
  token : String
  amount : ℤ
  currency : String
  method : String

def JobMessage.id (job : JobMessage) : Action × String := (job.action, job.booking)

inductive Outcome where
  | paid
  | declined
  | refunded
deriving DecidableEq

structure Receipt where
  booking : String
  amount : ℤ
  currency : String
  status : Outcome

def isMethod (method : String) : Bool := method = "test-ok" || method = "test-decline"

/-- `normalize_operation`: the intent without its token. -/
def normalizeOperation (job : JobMessage) : Except Error Unit := do
  let _ ← bookingHotel job.booking
  integer job.amount "amount" 0 30000000000
  require (job.currency = "USD" ∧ isMethod job.method = true)
    (.valueError "only USD simulated payment methods are supported")

def normalizeJob (job : JobMessage) : Except Error Unit := do
  normalizeOperation job
  require (isHex job.token = true) (.valueError "invalid job lease token")

/-- The outcomes a receipt for an action may carry. -/
def Action.admits : Action → Outcome → Bool
  | .charge, .paid => true
  | .charge, .declined => true
  | .refund, .refunded => true
  | _, _ => false

def normalizeReceipt (receipt : Receipt) (job : JobMessage) : Except Error Unit := do
  require (0 ≤ receipt.amount ∧ receipt.amount ≤ 30000000000) (.http 409 "invalid simulated payment amount")
  require (receipt.booking = job.booking ∧ receipt.amount = job.amount ∧ receipt.currency = "USD")
    (.http 409 "provider receipt does not match frozen order")
  require (job.action.admits receipt.status = true) (.http 409 "unexpected simulated payment outcome")

end SystemDesign.Hotel
