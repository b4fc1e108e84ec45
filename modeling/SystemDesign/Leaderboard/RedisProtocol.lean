import SystemDesign.Lib.Binary
import SystemDesign.Lib.Json
import SystemDesign.Lib.Locked
import SystemDesign.Lib.Py

/-!
Framing of the Redis protocol (`redis_protocol.py`): commands as arrays of bulk strings, and a reader of replies with
budgets for bytes, items and depth.

A stream is the bytes that it still gives. `lines` holds the depths of the items whose line was read; only statements
look at it.
-/

namespace SystemDesign.Leaderboard

abbrev Bytes := List UInt8

/-! ### Budgets -/

def maxBytes : ℕ := 8 * 1024 * 1024

def maxItems : ℕ := 100000

def maxArray : ℕ := 65536

def maxDepth : ℕ := 16

def maxLine : ℕ := 65536

/-! ### Writing -/

inductive Arg where
  | bytes (data : Bytes)
  | str (text : String)
  | int (n : ℤ)
  | float (x : FloatLit)

/-- `str(arg)` of what is not bytes. -/
def Arg.text : Arg → String
  | .bytes _ => ""
  | .str text => text
  | .int n => String.ofList (Json.printInt n)
  | .float x => String.ofList x.text

def Arg.data : Arg → Bytes
  | .bytes data => data
  | arg => utf8Bytes arg.text

def crlf : Bytes := [13, 10]

/-- `str(n).encode()` -/
def decimal (n : ℕ) : Bytes := (Nat.toDigits 10 n).map fun c => UInt8.ofNat c.toNat

/-- A marker, a number and the end of the line. -/
def header (marker : UInt8) (n : ℕ) : Bytes := marker :: (decimal n ++ crlf)

/-- The loop of `encode`. -/
def encodeFrom : List Arg → ℕ → Py Bytes
  | [], _ => .ok []
  | arg :: rest, total => do
    let total := total + ((header 36 arg.data.length).length + arg.data.length + 2)
    require (total ≤ maxBytes) (.valueError "Redis command exceeds 8 MiB")
    let tail ← encodeFrom rest total
    return header 36 arg.data.length ++ (arg.data ++ (crlf ++ tail))

def encode (args : List Arg) : Py Bytes := do
  require (args ≠ [] ∧ args.length ≤ 1024) (.valueError "Redis command requires 1..1024 arguments")
  let tail ← encodeFrom args (header 42 args.length).length
  return header 42 args.length ++ tail

/-! ### Reading -/

/-- `RedisError`; an error reply has the text of its bytes. -/
inductive RedisError where
  | message (text : String)
  | reply (text : Bytes)

inductive Reply where
  | text (value : String)
  | number (value : ℤ)
  | null
  | array (items : List Reply)

structure Reader where
  stream : Bytes
  bytes : ℕ
  items : ℕ
  lines : List ℕ

def Reader.new (stream : Bytes) : Reader := ⟨stream, 0, 0, []⟩

/-- `_number`: at most twenty bytes `-?(0|[1-9][0-9]*)` -/
def number (value : Bytes) : Except RedisError ℤ :=
  match intLiteral (value.map fun b => Char.ofNat b.toNat) with
  | none => .error (.message "invalid RESP integer")
  | some n =>
    if 20 < value.length then .error (.message "invalid RESP integer")
    else if ¬ (-2 ^ 63 ≤ n ∧ n < 2 ^ 63) then .error (.message "RESP integer out of range")
    else .ok n

/-- `_text` -/
def textOf (value : Bytes) : Except RedisError String :=
  match ofUtf8Bytes value with
  | some text => .ok text
  | none => .error (.message "invalid RESP UTF-8")

open Locked

/-- Some bytes are taken from the front of the stream, and `_consume`. -/
def consume (size : ℕ) : Locked RedisError Reader Unit := do
  effect fun reader => { reader with stream := reader.stream.drop size, bytes := reader.bytes + size }
  let bytes ← read Reader.bytes
  lift (require (bytes ≤ maxBytes) (.message "RESP response exceeds 8 MiB"))

/-- How much `stream.readline(limit)` takes. -/
def lineLength (limit : ℕ) (stream : Bytes) : ℕ := min stream.length (min limit (stream.idxOf 10 + 1))

/-- The line of an item, to the end of it. -/
def readLine (depth : ℕ) : Locked RedisError Reader Bytes := do
  let reader ← read id
  let size := lineLength (min (maxLine + 1) (maxBytes - reader.bytes + 1)) reader.stream
  let line := reader.stream.take size
  effect fun reader => { reader with lines := depth :: reader.lines }
  consume size
  lift (require (line ≠ [] ∧ line.length ≤ maxLine ∧ line.drop (line.length - 2) = crlf)
    (.message "truncated or oversized RESP line"))
  return line

def readBulk (length : ℕ) : Locked RedisError Reader Reply := do
  let reader ← read id
  lift (require (reader.bytes + (length + 2) ≤ maxBytes) (.message "RESP response exceeds 8 MiB"))
  let data := reader.stream.take (length + 2)
  consume data.length
  lift (require (data.length = length + 2 ∧ data.drop length = crlf) (.message "truncated RESP bulk"))
  let text ← lift (textOf (data.take length))
  return .text text

/-- `[self.read(depth + 1) for _ in range(length)]` -/
def readItems (item : Locked RedisError Reader Reply) : ℕ → Locked RedisError Reader (List Reply)
  | 0 => pure []
  | count + 1 => do
    let value ← item
    let values ← readItems item count
    return value :: values

/-- One more item is counted. -/
def countItem : Locked RedisError Reader Unit := do
  effect fun reader => { reader with items := reader.items + 1 }
  let items ← read Reader.items
  lift (require (items ≤ maxItems) (.message "RESP nesting or item budget exceeded"))

/-- What an item's line says, `item` reading what is nested in it. -/
def readValue (item : Locked RedisError Reader Reply) (line : Bytes) : Locked RedisError Reader Reply := do
  let value := (line.take (line.length - 2)).drop 1
  match line.head? with
  | some 43 => do
    let text ← lift (textOf value)
    return .text text
  | some 45 => lift (.error (.reply value))
  | some 58 => do
    let n ← lift (number value)
    return .number n
  | some 36 => do
    let length ← lift (number value)
    if length = -1 then return .null
    else do
      lift (require (0 ≤ length) (.message "invalid RESP length"))
      readBulk length.toNat
  | some 42 => do
    let length ← lift (number value)
    if length = -1 then return .null
    else do
      lift (require (0 ≤ length) (.message "invalid RESP length"))
      let items ← read Reader.items
      lift (require (length.toNat ≤ maxArray ∧ items + length.toNat ≤ maxItems) (.message "RESP array exceeds budget"))
      let values ← readItems item length.toNat
      return .array values
  | _ => lift (.error (.message "unsupported RESP type"))

/-- `read(depth)` with so many levels left: `depth` is `MAX_DEPTH + 1` less those. -/
def readFrom : ℕ → Locked RedisError Reader Reply
  | 0 => do
    effect fun reader => { reader with items := reader.items + 1 }
    lift (.error (.message "RESP nesting or item budget exceeded"))
  | left + 1 => do
    countItem
    let line ← readLine (maxDepth - left)
    readValue (readFrom left) line

/-- `read()` -/
def readReply : Locked RedisError Reader Reply := readFrom (maxDepth + 1)

end SystemDesign.Leaderboard
