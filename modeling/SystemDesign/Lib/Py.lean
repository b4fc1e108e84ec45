import SystemDesign.Lib.SortedMap

/-!
Exceptions and the calendar functions of `datetime` used on UTC timestamps.
-/

namespace SystemDesign

/-- The exceptions the modelled programs raise. `http` is their own
`Error(status, message)`; `outOfFuel` is the model's own and marks a loop that ran
longer than its bound. -/
inductive PyError where
  | valueError (message : String)
  | keyError (key : String)
  | typeError (message : String)
  | structError
  | http (status : ℕ) (message : String)
  | outOfFuel
deriving DecidableEq

abbrev Py (α : Type) := Except PyError α

@[simp] theorem Py.bind_ok {α β : Type} (a : α) (f : α → Py β) : ((Except.ok a : Py α) >>= f) = f a := rfl

@[simp] theorem Py.bind_error {α β : Type} (e : PyError) (f : α → Py β) :
    ((Except.error e : Py α) >>= f) = Except.error e := rfl

@[simp] theorem Py.pure_eq {α : Type} (a : α) : (pure a : Py α) = .ok a := rfl

@[simp] theorem Py.throw_eq {α : Type} (e : PyError) : (throw e : Py α) = .error e := rfl

theorem Py.bind_eq_ok {α β : Type} {x : Py α} {f : α → Py β} {b : β} :
    (x >>= f) = .ok b ↔ ∃ a, x = .ok a ∧ f a = .ok b := by
  cases x with
  | error e => simp
  | ok a => simp

theorem Py.guard_eq_ok {α : Type} {c : Prop} [Decidable c] {e : PyError} {x : Py α} {a : α} :
    (if c then Except.error e else x) = .ok a ↔ ¬ c ∧ x = .ok a := by
  by_cases h : c <;> simp [h]

/-- `d[k]` on a map whose iteration order is not observed. -/
def SortedMap.getItem {ν : Type} {κ : Type} [LinearOrder κ] [ToString κ] (m : SortedMap κ ν) (k : κ) : Py ν :=
  match m.get? k with
  | some v => .ok v
  | none => .error (.keyError (toString k))

/-- `d[k]` on a dictionary. -/
def Dict.getItem {ν : Type} {κ : Type} [DecidableEq κ] [ToString κ] (d : Dict κ ν) (k : κ) :
    Py ν :=
  match d.get? k with
  | some v => .ok v
  | none => .error (.keyError (toString k))

theorem SortedMap.getItem_of_get? {ν κ : Type} [LinearOrder κ] [ToString κ] {m : SortedMap κ ν}
    {k : κ} {v : ν} (h : m.get? k = some v) : m.getItem k = .ok v := by
  simp [getItem, h]

theorem Dict.getItem_of_get? {ν κ : Type} [DecidableEq κ] [ToString κ] {d : Dict κ ν}
    {k : κ} {v : ν} (h : d.get? k = some v) : d.getItem k = .ok v := by
  simp [getItem, h]

theorem Dict.getItem_eq_ok {ν κ : Type} [DecidableEq κ] [ToString κ] {d : Dict κ ν}
    {k : κ} {v : ν} : d.getItem k = .ok v ↔ d.get? k = some v := by
  unfold getItem
  cases d.get? k <;> simp

/-! ### UTC calendar -/

namespace Calendar

/-- Days since 1970-01-01 of a UTC timestamp in seconds. -/
def dayNumber (stamp : ℕ) : ℕ := stamp / 86400

/-- Proleptic Gregorian year, month and day of a day number. -/
def civil (days : ℕ) : ℕ × ℕ × ℕ :=
  let z := days + 719468
  let era := z / 146097
  let doe := z % 146097
  let yoe := (doe - doe / 1460 + doe / 36524 - doe / 146096) / 365
  let doy := doe - (365 * yoe + yoe / 4 - yoe / 100)
  let mp := (5 * doy + 2) / 153
  let d := doy - (153 * mp + 2) / 5 + 1
  let m := if mp < 10 then mp + 3 else mp - 9
  (yoe + era * 400 + (if m ≤ 2 then 1 else 0), m, d)

/-- A number in at least `width` digits. -/
def padded (width n : ℕ) : String :=
  String.ofList (List.replicate (width - (Nat.toDigits 10 n).length) '0' ++ Nat.toDigits 10 n)

/-- `datetime.fromtimestamp(stamp, timezone.utc).date().isoformat()`. -/
def isoDate (stamp : ℕ) : String :=
  let date := civil (dayNumber stamp)
  padded 4 date.1 ++ "-" ++ padded 2 date.2.1 ++ "-" ++ padded 2 date.2.2

/-- `weekday()`, Monday being 0; 1970-01-01 was a Thursday. -/
def weekday (stamp : ℕ) : ℕ := (dayNumber stamp + 3) % 7

/-- `hour * 60 + minute`. -/
def minuteOfDay (stamp : ℕ) : ℕ := stamp % 86400 / 60

end Calendar

/-! ### Texts -/

/-- The characters that `str.strip` takes off. -/
def isSpace (ch : Char) : Bool :=
  (9 ≤ ch.toNat && ch.toNat ≤ 13) || (28 ≤ ch.toNat && ch.toNat ≤ 32) ||
    (8192 ≤ ch.toNat && ch.toNat ≤ 8202) ||
    ch.toNat ∈ [133, 160, 5760, 8232, 8233, 8239, 8287, 12288]

/-- `not text.strip()`. -/
def isBlank (text : String) : Bool := text.toList.all isSpace

end SystemDesign
