import SystemDesign.Lib.Floats
import SystemDesign.Lib.Py
import SystemDesign.Lib.Sha256
import SystemDesign.Lib.Transaction

/-!
Samples and their checks (`common.py` of the metrics monitor).

A number is a JSON integer or a float literal; an accepted one is kept as the float
`float(value)` gives.
-/

namespace SystemDesign.Metrics

def dumps (value : Json) : String := value.encode

def digest (value : Json) : String := Sha256.hexdigest (dumps value)

/-! ### Checks -/

/-- `[A-Za-z0-9_.:-]{1,100}` -/
def isIdentifier (s : String) : Bool :=
  1 ≤ s.toList.length && s.toList.length ≤ 100 &&
    s.toList.all fun c => c.isAlphanum || c = '_' || c = '.' || c = ':' || c = '-'

def identifier (value : Json) : Py String :=
  match value with
  | .str s => if isIdentifier s then .ok s else .error (.valueError "invalid identifier")
  | _ => .error (.valueError "invalid identifier")

/-- `[A-Za-z_][A-Za-z0-9_]{0,31}` -/
def isLabelKey (s : String) : Bool :=
  match s.toList with
  | c :: cs => (c.isAlpha || c = '_') && cs.length ≤ 31 && cs.all fun c => c.isAlphanum || c = '_'
  | [] => false

def label (entry : String × Json) : Py (String × String) :=
  match entry with
  | (key, .str item) =>
    if isLabelKey key ∧ item.toList.length ≤ 128 then .ok (key, item)
    else .error (.valueError "invalid label")
  | _ => .error (.valueError "invalid label")

/-- The labels by key. -/
def labels (value : Json) : Py (List (String × String)) :=
  match value with
  | .obj fields =>
    if fields.length ≤ 8 then do
      let checked ← fields.mapM label
      return checked.insertionSort fun a b => a.1 ≤ b.1
    else .error (.valueError "at most eight labels required")
  | _ => .error (.valueError "at most eight labels required")

def number (value : Json) : Py FloatLit :=
  let invalid : PyError := .valueError "finite bounded numeric value required"
  match value with
  | .int n => if -(10 : ℤ) ^ 15 ≤ n ∧ n ≤ 10 ^ 15 then .ok (.ofInt n) else .error invalid
  | .float x => if -(10 : ℚ) ^ 15 ≤ x.value ∧ x.value ≤ 10 ^ 15 then .ok x else .error invalid
  | _ => .error invalid

/-! ### Samples -/

inductive Kind where
  | gauge
  | counter
deriving DecidableEq

def Kind.text : Kind → String
  | .gauge => "gauge"
  | .counter => "counter"

def Kind.read (value : Option Json) : Py Kind :=
  match value with
  | none => .ok .gauge
  | some (.str "gauge") => .ok .gauge
  | some (.str "counter") => .ok .counter
  | some _ => .error (.valueError "type must be gauge or counter")

structure Sample where
  metric : String
  labels : List (String × String)
  kind : Kind
  timestamp : FloatLit
  value : FloatLit
deriving DecidableEq

def labelsJson (labels : List (String × String)) : Json := .obj (labels.map fun e => (e.1, .str e.2))

def Sample.toJson (v : Sample) : Json :=
  .obj [("metric", .str v.metric), ("labels", labelsJson v.labels), ("type", .str v.kind.text),
    ("timestamp", .float v.timestamp), ("value", .float v.value)]

def sampleFields : List String := ["metric", "labels", "type", "timestamp", "value"]

/-- `value[key]` -/
def required (value : Json) (key : String) : Py Json :=
  match value.get? key with
  | some item => .ok item
  | none => .error (.keyError key)

def isSampleObject (value : Json) : Bool :=
  match value.keys? with
  | some keys => keys.all (sampleFields.contains ·)
  | none => false

def sample (value : Json) : Py Sample := do
  require (isSampleObject value = true) (.valueError "invalid sample object")
  let metric ← identifier (← required value "metric")
  let kind ← Kind.read (value.get? "type")
  let reading ← number (← required value "value")
  require (¬ (kind = .counter ∧ reading.value < 0)) (.valueError "counter must be nonnegative")
  let labels ← labels ((value.get? "labels").getD (.obj []))
  let timestamp ← number (← required value "timestamp")
  return ⟨metric, labels, kind, timestamp, reading⟩

end SystemDesign.Metrics
