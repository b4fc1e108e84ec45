import SystemDesign.Lib.Json
import SystemDesign.Lib.Py
import SystemDesign.Lib.Sha256

/-!
Frozen wire values of the stock exchange (`common.py`, `contracts.py`).

Commands and settings arrive as JSON. `validate` and `settings` check the exact
fields, identifiers and integer ranges and return the typed content of the
frozen value; everything after them works on the typed content.

The set comparisons of the source are membership in both directions, and a
`bool` is not an integer because `integer` looks at the exact type.
-/

namespace SystemDesign.StockExchange

/-! ### Common checks -/

def maxTimestamp : ℤ := 253402300799

/-- `hashlib.sha256(encode(value).encode()).hexdigest()`. -/
def checksum (value : Json) : String := Sha256.hexdigest value.encode

def isIdentifier (s : String) : Bool :=
  1 ≤ s.toList.length && s.toList.length ≤ 80 && s.toList.all fun c => c.isAlphanum || c = '_' || c = '-'

/-- `re.fullmatch(r"[A-Za-z0-9_-]{1,80}", value)` on a string. -/
def identifier : Json → Py String
  | .str s => if isIdentifier s then .ok s else .error (.valueError
      "identifier must be 1..80 ASCII letters, digits, underscores or hyphens")
  | _ => .error (.valueError
      "identifier must be 1..80 ASCII letters, digits, underscores or hyphens")

def integer (value : Json) (minimum maximum : ℤ) : Py ℤ :=
  match value with
  | .int n => if minimum ≤ n ∧ n ≤ maximum then .ok n else
      .error (.valueError "integer cents/sequence outside reference limits")
  | _ => .error (.valueError "integer cents/sequence outside reference limits")

/-- The default bounds of `integer`. -/
def cents (value : Json) : Py ℤ := integer value 0 (10 ^ 12)

/-- `value[key]`. -/
def item (value : Json) (key : String) : Py Json :=
  match value.get? key with
  | some v => .ok v
  | none => .error (.keyError key)

/-- `loads(encode(value))`. -/
def freeze (value : Json) : Py Json :=
  match Json.loads value.encode with
  | some v => .ok v
  | none => .error (.valueError "invalid JSON")

/-- The object's fields when they are exactly the expected ones. -/
def fields (value : Json) (expected : List String) : Py (List (String × Json)) :=
  match value with
  | .obj fs =>
      if (∀ p ∈ fs, p.1 ∈ expected) ∧ ∀ k ∈ expected, k ∈ fs.map Prod.fst then .ok fs
      else .error (.valueError ("exact fields required: " ++ ", ".intercalate (expected.insertionSort (· ≤ ·))))
  | _ => .error (.valueError ("exact fields required: " ++
      ", ".intercalate (expected.insertionSort (· ≤ ·))))

def isText (value : Json) (text : String) : Bool :=
  match value with
  | .str s => s = text
  | _ => false

/-! ### Orders and cancels -/

inductive Side where
  | BUY
  | SELL
deriving DecidableEq

def Side.text : Side → String
  | .BUY => "BUY"
  | .SELL => "SELL"

def Side.opposite : Side → Side
  | .BUY => .SELL
  | .SELL => .BUY

def side (value : Json) : Py Side :=
  if isText value "BUY" then .ok .BUY
  else if isText value "SELL" then .ok .SELL
  else .error (.valueError "side must be BUY or SELL")

/-- The body of a limit order. -/
structure NewOrder where
  requestId : String
  orderId : String
  symbol : String
  side : Side
  price : ℤ
  quantity : ℤ

/-- A validated body: a limit order or the cancel of one. -/
inductive Body where
  | new (order : NewOrder)
  | cancel (requestId orderId : String)

def Body.requestId : Body → String
  | .new o => o.requestId
  | .cancel r _ => r

/-- Lists and dictionaries cannot be looked up in a set. -/
def unhashable : Json → Bool
  | .arr _ => true
  | .obj _ => true
  | _ => false

def validate (body kind : Json) : Py Body := do
  let body ← freeze body
  if isText kind "new" then
    let _ ← fields body ["request_id", "order_id", "symbol", "side", "price", "quantity"]
    let requestId ← identifier (← item body "request_id")
    let orderId ← identifier (← item body "order_id")
    let symbol ← identifier (← item body "symbol")
    let price ← integer (← item body "price") 1 100000000
    let quantity ← integer (← item body "quantity") 1 1000000
    let side ← side (← item body "side")
    return .new ⟨requestId, orderId, symbol, side, price, quantity⟩
  else if isText kind "cancel" then
    let _ ← fields body ["request_id", "order_id"]
    let requestId ← identifier (← item body "request_id")
    let orderId ← identifier (← item body "order_id")
    return .cancel requestId orderId
  else if unhashable kind then throw (.typeError "unhashable type")
  else throw (.valueError "limit order or cancel required")

/-! ### Settings -/

structure Session where
  weekdays : List ℤ
  startMinute : ℤ
  endMinute : ℤ

/-- Opening balances of one account. -/
structure Opening where
  cash : ℤ
  positions : SortedMap String ℤ

structure Settings where
  symbols : List String
  accounts : SortedMap String Opening
  session : Session
  dailyLimit : ℤ

def readSymbols (value : Json) : Py (List String) :=
  match value with
  | .arr items => do
      if ¬ (1 ≤ items.length ∧ items.length ≤ 100) then
        throw (.valueError "1..100 symbols required")
      let symbols ← items.mapM identifier
      if ¬ symbols.Nodup then throw (.valueError "duplicate symbol")
      return symbols
  | _ => .error (.valueError "1..100 symbols required")

def readPositions (symbols : List String) (value : Json) : Py (SortedMap String ℤ) :=
  match value with
  | .obj fs => do
      if ¬ ∀ p ∈ fs, p.1 ∈ symbols then throw (.valueError "unknown opening position")
      let held ← fs.mapM fun p => do return (p.1, ← cents p.2)
      return SortedMap.ofList held
  | _ => .error (.valueError "unknown opening position")

def readOpening (symbols : List String) (p : String × Json) : Py (String × Opening) := do
  let owner ← identifier (.str p.1)
  let _ ← fields p.2 ["cash", "positions"]
  let cash ← cents (← item p.2 "cash")
  let positions ← readPositions symbols (← item p.2 "positions")
  return (owner, ⟨cash, positions⟩)

def readAccounts (symbols : List String) (value : Json) : Py (SortedMap String Opening) :=
  match value with
  | .obj fs => do
      if ¬ (1 ≤ fs.length ∧ fs.length ≤ 100) then throw (.valueError "1..100 accounts required")
      let accounts ← fs.mapM (readOpening symbols)
      return SortedMap.ofList accounts
  | _ => .error (.valueError "1..100 accounts required")

def readWeekdays (value : Json) : Py (List ℤ) :=
  match value with
  | .arr items => do
      if items.isEmpty then throw (.valueError "UTC weekday list required")
      let days ← items.mapM fun day => integer day 0 6
      if ¬ days.Nodup then throw (.valueError "duplicate weekday")
      return days
  | _ => .error (.valueError "UTC weekday list required")

def settings (value : Json) : Py Settings := do
  let value ← freeze value
  let _ ← fields value ["symbols", "accounts", "session", "daily_limit"]
  let symbols ← readSymbols (← item value "symbols")
  let accounts ← readAccounts symbols (← item value "accounts")
  let session ← item value "session"
  let _ ← fields session ["weekdays", "start_minute", "end_minute"]
  let start ← integer (← item session "start_minute") 0 1439
  let stop ← integer (← item session "end_minute") (start + 1) 1440
  let weekdays ← readWeekdays (← item session "weekdays")
  let limit ← integer (← item value "daily_limit") 1 1000000
  return ⟨symbols, accounts, ⟨weekdays, start, stop⟩, limit⟩

end SystemDesign.StockExchange
