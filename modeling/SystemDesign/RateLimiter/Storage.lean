import SystemDesign.Lib.Dict
import SystemDesign.Lib.Locked

/-!
The memory storage of the rate limiter (`storage/memory.py`, `storage/clocks.py`).

Numbers are exact rationals, and a stored text is kept as what it was written from. A call runs
under the storage's lock; it samples the wall clock and the monotonic clock of the deadlines
once, and both are arguments. Whatever sweeps and expiry drop, `read` says what the storage
still shows at a time.
-/

namespace SystemDesign.RateLimiter

open List
open Dict hiding keys

inductive StorageError where
  | valueError (message : String)
  | memoryError (message : String)

/-- A stored text: `str` of a float or of an integer, or a request log. -/
inductive Stored where
  | number (value : ℚ)
  | count (value : ℤ)
  | log (entries : List (ℚ × String))

/-- `float(text)`. -/
def Stored.toFloat : Stored → Except StorageError ℚ
  | .number value => .ok value
  | .count value => .ok value
  | .log _ => .error (.valueError "could not convert string to float")

/-- `int(text)`. -/
def Stored.toInt : Stored → Except StorageError ℤ
  | .count value => .ok value
  | _ => .error (.valueError "invalid literal for int()")

/-- The lines that a log's text splits into; a number's text has none of two fields. -/
def Stored.toLog : Stored → List (ℚ × String)
  | .log entries => entries
  | _ => []

structure MemoryStorage where
  data : Dict String Stored
  expiry : Dict String ℚ
  maxKeys : ℕ
  nextSweep : ℚ
  maxKeys_ge : 4 ≤ maxKeys

namespace MemoryStorage

/-- `__init__`. -/
def new (maxKeys : ℕ) (h : 4 ≤ maxKeys) : MemoryStorage := ⟨.empty, .empty, maxKeys, 0, h⟩

def drop (key : String) (s : MemoryStorage) : MemoryStorage :=
  { s with data := s.data.erase key, expiry := s.expiry.erase key }

/-- A deadline goes to the end of the queue. -/
def requeue (key : String) (deadline : ℚ) (s : MemoryStorage) : MemoryStorage :=
  { s with expiry := (s.expiry.erase key).set key deadline }

/-- The loop of `_sweep`: the oldest deadline is dropped with its value, or goes to the end. -/
def visit (monotonic : ℚ) : ℕ → MemoryStorage → MemoryStorage
  | 0, s => s
  | budget + 1, s =>
    match s.expiry.entries with
    | [] => s
    | (key, deadline) :: _ =>
      visit monotonic budget <|
        if deadline ≤ monotonic then s.drop key else s.requeue key deadline

/-- `_sweep`. -/
def sweep (budget : ℕ) (force : Bool) (monotonic : ℚ) (s : MemoryStorage) : MemoryStorage :=
  if !force && decide (monotonic < s.nextSweep) then s
  else visit monotonic (min budget s.expiry.entries.length) { s with nextSweep := monotonic + 1 / 20 }

/-- `_is_expired`. -/
def isExpired (s : MemoryStorage) (monotonic : ℚ) (key : String) : Bool :=
  match s.expiry.get? key with
  | some deadline => decide (deadline ≤ monotonic)
  | none => false

def put (key : String) (value : Stored) (deadline : Option ℚ) (s : MemoryStorage) : MemoryStorage :=
  { s with
    data := s.data.set key value
    expiry := match deadline with
      | some deadline => s.expiry.set key deadline
      | none => s.expiry.erase key }

def isFull (s : MemoryStorage) : Bool := decide (s.maxKeys ≤ s.data.entries.length)

def deadline (monotonic : ℚ) (ttl : Option ℤ) : Option ℚ := ttl.map fun seconds : ℤ => monotonic + (seconds : ℚ)

/-- What a reading at a time finds. -/
def read (s : MemoryStorage) (t : ℚ) (key : String) : Option Stored :=
  if s.isExpired t key then none else s.data.get? key

end MemoryStorage

abbrev Under (α : Type) := Locked StorageError MemoryStorage α

open Locked (effect lift)
open MemoryStorage (isFull deadline)

/-- `get_unlocked`. -/
def getUnlocked (monotonic : ℚ) (key : String) : Under (Option Stored) := do
  let expired ← Locked.read fun s => s.isExpired monotonic key
  if expired then do
    effect (·.drop key)
    return none
  else Locked.read fun s => s.data.get? key

/-- The capacity check of `set_unlocked`: expired keys make room, live ones are never evicted. -/
def makeRoom (monotonic : ℚ) (key : String) : Under Unit := do
  let needed ← Locked.read fun s => !s.data.contains key && s.isFull
  if needed then do
    effect (·.sweep 128 true monotonic)
    let full ← Locked.read isFull
    lift (require (full = false) (.memoryError "rate limiter state capacity reached"))
  else pure ()

/-- `set_unlocked`. -/
def setUnlocked (monotonic : ℚ) (key : String) (value : Stored) (ttl : Option ℤ) : Under Unit := do
  lift (require (∀ seconds ∈ ttl, 0 < seconds) (.valueError "ttl must be a positive integer"))
  makeRoom monotonic key
  effect (·.put key value (deadline monotonic ttl))

/-! ### One atomic call -/

/-- `checked_time`. -/
def checkedTime (value : ℚ) : Except StorageError ℚ :=
  if 0 ≤ value ∧ value ≤ 10 ^ 12 then .ok value
  else .error (.valueError "clock must be finite and in 0..1e12")

/-- The five fields that a script returns. -/
structure Reply where
  flag : ℤ
  remaining : ℤ
  limit : ℤ
  resetAfter : ℚ
  retryAfter : ℚ

/-- `delay_for_clock_regression`. -/
def delayForClockRegression (result : Reply) (skew : ℚ) : Reply :=
  if skew = 0 then result
  else
    { result with
      resetAfter := result.resetAfter + skew
      retryAfter := if result.flag = 0 then result.retryAfter + skew else result.retryAfter }

/-- The time of a call: the wall clock's, unless an earlier call has seen a later one. -/
def notBefore (previous : Option Stored) (wall : ℚ) : Except StorageError ℚ :=
  match previous with
  | some text => (text.toFloat >>= checkedTime).map (max wall)
  | none => .ok wall

/-- `execute_algorithm`: the first of the script's keys names the clock, and the last of its
arguments is the lifetime of the clock's record. -/
def executeAlgorithm (wall monotonic : ℚ) (firstKey : String) (clockTtl : ℤ) (script : ℚ → Under Reply) :
    Under Reply := do
  effect (·.sweep 64 false monotonic)
  let wall ← lift (checkedTime wall)
  let clockKey := firstKey ++ ":clock-v2"
  let previous ← getUnlocked monotonic clockKey
  let now ← lift (notBefore previous wall)
  let result ← script now
  setUnlocked monotonic clockKey (.number now) (some clockTtl)
  return delayForClockRegression result (now - wall)

/-! ### What a reading shows -/

theorem append_ne {key a b : String} (h : a ≠ b) : key ++ a ≠ key ++ b := by
  intro heq
  exact h (String.append_right_inj key |>.mp heq)

theorem ne_append {key a : String} (h : a ≠ "") : key ≠ key ++ a := by
  intro heq
  exact h (String.append_right_inj key |>.mp (heq.symm.trans (String.append_empty (s := key)).symm))

namespace MemoryStorage

variable {s s' s'' : MemoryStorage} {m t : ℚ} {key k : String}

/-- Every value has a deadline, every deadline a value, and the capacity is kept. `B` bounds the deadlines. -/
structure Timed (B : String → ℚ → Prop) (s : MemoryStorage) : Prop where
  value : ∀ k, (∃ d, s.expiry.get? k = some d) ↔ ∃ v, s.data.get? k = some v
  bound : ∀ k d, s.expiry.get? k = some d → B k d
  fits : s.data.entries.length ≤ s.maxKeys

/-- The second storage shows from time `m` on what the first does, and has no other keys. -/
structure Same (m : ℚ) (s s' : MemoryStorage) : Prop where
  read : ∀ t k, m ≤ t → s'.read t k = s.read t k
  keys : ∀ k ∈ s'.data.keys, k ∈ s.data.keys
  maxKeys : s'.maxKeys = s.maxKeys
  timed : ∀ B, s.Timed B → s'.Timed B

theorem Same.refl (m : ℚ) (s : MemoryStorage) : Same m s s := ⟨fun _ _ _ => rfl, fun _ hk => hk, rfl, fun _ h => h⟩

theorem Same.trans (h : Same m s s') (h' : Same m s' s'') : Same m s s'' :=
  ⟨fun t k ht => (h'.read t k ht).trans (h.read t k ht), fun k hk => h.keys k (h'.keys k hk), h'.maxKeys.trans h.maxKeys,
    fun B hB => h'.timed B (h.timed B hB)⟩

theorem length_erase_le {ν : Type} (d : Dict String ν) (key : String) : (d.erase key).entries.length ≤ d.entries.length :=
  length_filter_le _ _

theorem Timed.mono {B B' : String → ℚ → Prop} (h : s.Timed B) (hB : ∀ k d, B k d → B' k d) : s.Timed B' :=
  ⟨h.value, fun k d hd => hB k d (h.bound k d hd), h.fits⟩

theorem Timed.drop {B : String → ℚ → Prop} (h : s.Timed B) (key : String) : (s.drop key).Timed B := by
  refine ⟨fun k => ?_, fun k d hd => ?_, (length_erase_le _ _).trans h.fits⟩
  · simp only [MemoryStorage.drop, get?_erase]
    by_cases hk : k = key
    · simp [hk]
    · simpa [hk] using h.value k
  · rw [MemoryStorage.drop, get?_erase] at hd
    split at hd
    · cases hd
    · exact h.bound k d hd

theorem get?_requeue {deadline : ℚ} (h : s.expiry.get? key = some deadline) (k : String) :
    (s.requeue key deadline).expiry.get? k = s.expiry.get? k := by
  rw [requeue, get?_set, get?_erase]
  by_cases hk : k = key
  · simp [hk, h]
  · simp [hk]

theorem Timed.requeue {B : String → ℚ → Prop} {deadline : ℚ} (h : s.Timed B) (hget : s.expiry.get? key = some deadline) :
    (s.requeue key deadline).Timed B := by
  refine ⟨fun k => ?_, fun k d hd => ?_, h.fits⟩
  · rw [get?_requeue hget]
    exact h.value k
  · rw [get?_requeue hget] at hd
    exact h.bound k d hd

theorem read_eq (s : MemoryStorage) (t : ℚ) (k : String) : s.read t k = match s.expiry.get? k with
      | some deadline => if deadline ≤ t then none else s.data.get? k
      | none => s.data.get? k := by
  rw [read, isExpired]
  cases s.expiry.get? k <;> simp

theorem keys_erase_subset {ν : Type} (d : Dict String ν) (key : String) : ∀ k ∈ (d.erase key).keys, k ∈ d.keys := by
  intro k hk
  obtain ⟨v, hv⟩ := Dict.mem_keys.mp hk
  rw [get?_erase] at hv
  split at hv
  · cases hv
  · exact Dict.mem_keys.mpr ⟨v, hv⟩

theorem same_drop (h : s.isExpired m key = true) : Same m s (s.drop key) := by
  refine ⟨fun t k ht => ?_, keys_erase_subset _ _, rfl, fun B hB => hB.drop key⟩
  rw [read_eq, read_eq]
  simp only [drop, get?_erase]
  by_cases hk : k = key
  · subst hk
    rw [isExpired] at h
    cases hd : s.expiry.get? k with
    | none => simp [hd] at h
    | some deadline =>
      have hle : deadline ≤ m := by simpa [hd] using h
      simp [hle.trans ht]
  · simp [hk]

theorem same_visit (m : ℚ) (budget : ℕ) (s : MemoryStorage) : Same m s (visit m budget s) := by
  induction budget generalizing s with
  | zero => exact .refl m s
  | succ budget ih =>
    rw [visit]
    cases hentries : s.expiry.entries with
    | nil => exact .refl m s
    | cons first rest =>
      obtain ⟨key, deadline⟩ := first
      have hget : s.expiry.get? key = some deadline := mem_entries.mp (hentries ▸ mem_cons_self)
      refine Same.trans ?_ (ih _)
      split
      case isTrue hexpired => exact same_drop (by simpa [isExpired, hget] using hexpired)
      case isFalse =>
        refine ⟨fun t k _ => ?_, fun _ hk => hk, rfl, fun B hB => hB.requeue hget⟩
        rw [read_eq, read_eq, get?_requeue hget]
        rfl

theorem same_sweep (budget : ℕ) (force : Bool) (m : ℚ) (s : MemoryStorage) : Same m s (s.sweep budget force m) := by
  rw [sweep]
  split
  · exact .refl m s
  · have hsame := same_visit m (min budget s.expiry.entries.length) { s with nextSweep := m + 1 / 20 }
    exact ⟨hsame.read, hsame.keys, hsame.maxKeys, fun B hB => hsame.timed B ⟨hB.value, hB.bound, hB.fits⟩⟩

theorem read_put (s : MemoryStorage) (key : String) (value : Stored) (deadline : Option ℚ) (t : ℚ) (k : String) :
    (s.put key value deadline).read t k =
      if k = key then (if deadline.any (· ≤ t) then none else some value) else s.read t k := by
  rw [read_eq, read_eq]
  by_cases hk : k = key
  · subst hk
    cases deadline with
    | none => simp [put, get?_erase]
    | some deadline => simp [put]
  · cases deadline with
    | none => simp [put, hk, get?_erase, get?_set]
    | some deadline => simp [put, hk, get?_set]

/-- The storage has room for every key of the list. -/
def Holds (keys : List String) (s : MemoryStorage) : Prop := (∀ k ∈ s.data.keys, k ∈ keys) ∧ keys.length ≤ s.maxKeys

theorem Same.holds {keys : List String} (h : Same m s s') (hs : s.Holds keys) : s'.Holds keys :=
  ⟨fun k hk => hs.1 k (h.keys k hk), h.maxKeys ▸ hs.2⟩

theorem Holds.put {keys : List String} (h : s.Holds keys) (hkey : key ∈ keys) (value : Stored) (deadline : Option ℚ) :
    (s.put key value deadline).Holds keys := by
  refine ⟨fun k hk => ?_, h.2⟩
  obtain ⟨v, hv⟩ := Dict.mem_keys.mp hk
  obtain ⟨rfl, -⟩ | ⟨-, hv⟩ := get?_set_cases hv
  · exact hkey
  · exact h.1 k (Dict.mem_keys.mpr ⟨v, hv⟩)

end MemoryStorage

open MemoryStorage

variable {s : MemoryStorage} {keys : List String} {key : String}

/-- A reading leaves what the storage shows. -/
theorem getUnlocked_spec (m : ℚ) (key : String) (s : MemoryStorage) :
    ∃ s', (getUnlocked m key).exec s = (.ok (s.read m key), s') ∧ Same m s s' := by
  rw [getUnlocked, Locked.exec_bind_ok (Locked.exec_read _ s)]
  by_cases h : s.isExpired m key = true
  · rw [if_pos h, Locked.exec_bind_ok (Locked.exec_effect _ s), MemoryStorage.read, if_pos h]
    exact ⟨s.drop key, rfl, same_drop h⟩
  · rw [if_neg h, MemoryStorage.read, if_neg h]
    exact ⟨s, rfl, .refl m s⟩

theorem makeRoom_spec (m : ℚ) (h : s.Holds keys) (hkey : key ∈ keys) : (makeRoom m key).exec s = (.ok (), s) := by
  have hroom : s.data.contains key = true ∨ ¬ s.isFull = true := by
    by_cases hcontains : s.data.contains key = true
    · exact .inl hcontains
    · refine .inr fun hfull => ?_
      rw [isFull, decide_eq_true_eq] at hfull
      have hnot : key ∉ s.data.keys := fun hmem => hcontains (Dict.contains_iff.mpr (Dict.mem_keys.mp hmem))
      have hsub : (key :: s.data.keys).length ≤ keys.length := by
        refine (Nodup.subperm (nodup_cons.mpr ⟨hnot, s.data.nodup⟩) ?_).length_le
        exact cons_subset.mpr ⟨hkey, fun k hk => h.1 k hk⟩
      have hlength : s.data.keys.length = s.data.entries.length := length_map _
      have := h.2
      rw [length_cons] at hsub
      omega
  rw [makeRoom, Locked.exec_bind_ok (Locked.exec_read _ _)]
  obtain hcontains | hfull := hroom
  · simp [hcontains]
  · simp [hfull]

theorem setUnlocked_spec (m : ℚ) (value : Stored) {ttl : Option ℤ} (h : s.Holds keys) (hkey : key ∈ keys)
    (httl : ∀ seconds ∈ ttl, 0 < seconds) :
    (setUnlocked m key value ttl).exec s = (.ok (), s.put key value (deadline m ttl)) := by
  rw [setUnlocked, Locked.exec_bind_ok (Locked.exec_require httl _ s),
    Locked.exec_bind_ok (makeRoom_spec m h hkey), Locked.exec_effect]

end SystemDesign.RateLimiter
