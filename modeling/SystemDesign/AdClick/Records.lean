import SystemDesign.Lib.Json
import SystemDesign.Lib.Sha256
import SystemDesign.Lib.Transaction

/-!
Events and contracts of the ad-click service (`common.py`, `records.py`).

`ipAddress` is `str(ipaddress.ip_address(text))` and `decode` turns the bytes of a JSON
text into characters, as `json.loads` does before it parses. The checks of an event's
texts come in the order of its fields; the source makes them in the order of a set.
-/

namespace SystemDesign.AdClick

inductive Error where
  | valueError (message : String)
  | http (status : ℕ) (message : String)

structure Settings where
  ipAddress : String → Option String
  decode : List UInt8 → Option String

@[irreducible] def maxPosition : ℕ := 2 ^ 53

/-! ### Contracts -/

def digest (value : Json) : String := Sha256.hexdigest value.encode

/-- `hashlib.sha256(data).hexdigest()`. -/
def hexdigest (data : List UInt8) : String := String.ofList ((Sha256.digest data).flatMap Sha256.hexByte)

def isText (value : String) : Bool := 1 ≤ value.length && value.length ≤ 128 && value.toList.all fun c => 32 ≤ c.toNat

def text (value : Option Json) (name : String) : Except Error String :=
  match value with
  | some (.str s) =>
    if isText s then .ok s
    else .error (.valueError (name ++ " must contain 1..128 printable characters"))
  | _ => .error (.valueError (name ++ " must contain 1..128 printable characters"))

def integer (value : Option Json) (name : String) (low high : ℤ) : Except Error ℤ :=
  let invalid : Error := .valueError (name ++ " must be an integer in [" ++ toString low ++ "," ++ toString high ++ "]")
  match value with
  | some (.int n) => if low ≤ n ∧ n ≤ high then .ok n else .error invalid
  | _ => .error invalid

/-! ### Events -/

structure Event where
  eventId : String
  adId : String
  clickTimestamp : ℤ
  userId : String
  ip : String
  country : String
deriving DecidableEq

def eventFields : List String := ["event_id", "ad_id", "click_timestamp", "user_id", "ip", "country"]

def Event.toJson (v : Event) : Json :=
  .obj [("event_id", .str v.eventId), ("ad_id", .str v.adId),
    ("click_timestamp", .int v.clickTimestamp), ("user_id", .str v.userId), ("ip", .str v.ip),
    ("country", .str v.country)]

/-- `isinstance(body, dict) and set(body) == fields`. -/
def hasFields (body : Json) : Bool :=
  match body.keys? with
  | some keys => keys.all (eventFields.contains ·) && eventFields.all (keys.contains ·)
  | none => false

def isCountry (country : String) : Bool := country.length = 2 && country.toList.all Char.isAlpha

/-- `country.upper()` of ASCII letters. -/
def upper (country : String) : String := String.ofList (country.toList.map Char.toUpper)

/-- `event(body, now)`, for `limit = int(now) + 30`. -/
def event (e : Settings) (body : Json) (limit : ℤ) : Except Error Event := do
  require (hasFields body = true)
    (.valueError "event requires exactly ad_id, click_timestamp, country, event_id, ip, user_id")
  let eventId ← text (body.get? "event_id") "event_id"
  let adId ← text (body.get? "ad_id") "ad_id"
  let userId ← text (body.get? "user_id") "user_id"
  let ip ← text (body.get? "ip") "ip"
  let country ← text (body.get? "country") "country"
  let clickTimestamp ← integer (body.get? "click_timestamp") "click_timestamp" 0 limit
  match e.ipAddress ip with
  | none => .error (.valueError "invalid IP address")
  | some ip => do
    require (isCountry country = true) (.valueError "country must be a two-letter code")
    return ⟨eventId, adId, clickTimestamp, userId, ip, upper country⟩

def normalizeEvent (e : Settings) (body : Json) : Except Error Event := event e body maxPosition

def prepareEvents (e : Settings) (bodies : List Json) : Except Error (List Event) := do
  require (1 ≤ bodies.length ∧ bodies.length ≤ 200) (.valueError "events must contain 1..200 items")
  bodies.mapM (normalizeEvent e)

/-- `strict_json` of the bytes of a line. -/
def strictJson (e : Settings) (line : List UInt8) : Except Error Json :=
  match (e.decode line).bind Json.loads with
  | some value => .ok value
  | none => .error (.valueError "invalid JSON")

end SystemDesign.AdClick
