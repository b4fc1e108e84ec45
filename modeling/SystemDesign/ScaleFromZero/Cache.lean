import SystemDesign.Lib.Transitions
import SystemDesign.ScaleFromZero.Profiles

/-!
The cache of profiles and the web nodes in front of it (`cache.py`, `app.py`).

The cache process runs on, so that its instance is left out of tickets; its counters, which nothing reads, are left
out as well. A read whose probe fails leaves no trace and is not represented.
-/

namespace SystemDesign.ScaleFromZero

inductive Policy where
  | lru
  | lfu
  | fifo
deriving DecidableEq

/-- The floats of a clock are added by `later`. -/
structure CacheConfig where
  capacity : ℕ
  ttl : ℚ
  maxBytes : ℕ
  policy : Policy
  later : ℚ → ℚ → ℚ

structure CacheEntry where
  expires : ℚ
  value : Record
  size : ℕ

/-- Dictionaries are ordered; `move_to_end` takes a key out and puts it last. -/
structure Cache where
  values : Dict String CacheEntry
  freq : Dict String ℕ
  floors : Dict String ℕ
  bytes : ℤ
  generation : ℕ

/-- What `probe` answers. -/
structure Probe where
  value : Option Record
  generation : ℕ
  minVersion : ℕ

def Record.json (value : Record) : Json :=
  .obj [("user", .str value.user), ("version", .int value.version), ("profile", value.profile.json)]

/-- `len(encode(snapshot).encode())`. -/
def Record.size (value : Record) : ℕ := value.json.encode.utf8ByteSize

def moveToEnd {ν : Type} (key : String) (d : Dict String ν) : Dict String ν :=
  (d.get? key).elim d fun v => (d.erase key).set key v

variable (c : CacheConfig)

/-- `_remove`. -/
def Cache.remove (key : String) (s : Cache) : Cache :=
  { s with
    values := s.values.erase key
    freq := s.freq.erase key
    bytes := s.bytes - (s.values.get? key).elim 0 fun entry => (entry.size : ℤ) }

def Cache.frequency (key : String) (s : Cache) : ℕ := (s.freq.get? key).getD 0

/-- `_victim`, unless nothing is stored. -/
def Cache.victim (s : Cache) : Option String :=
  match c.policy with
  | .lfu => s.values.keys.find? fun key => s.values.keys.all fun other => s.frequency key ≤ s.frequency other
  | _ => s.values.keys.head?

/-- The floor of a key, at least the given one. -/
def Cache.floor (key : String) (minVersion : ℕ) (s : Cache) : ℕ := max minVersion ((s.floors.get? key).getD 0)

/-- The entry is live and not below the floor. -/
def CacheEntry.hit (now : ℚ) (floor : ℕ) (entry : CacheEntry) : Bool := now < entry.expires ∧ floor ≤ entry.value.version

/-- What a hit changes. -/
def Cache.touch (key : String) (s : Cache) : Cache :=
  match c.policy with
  | .lru => { s with values := moveToEnd key s.values }
  | .lfu => { s with freq := s.freq.set key (s.frequency key + 1) }
  | .fifo => s

def Cache.probe (key : String) (minVersion : ℕ) (now : ℚ) (s : Cache) : Probe × Cache :=
  let floor := s.floor key minVersion
  match s.values.get? key with
  | none => (⟨none, s.generation, floor⟩, s)
  | some entry =>
    if entry.hit now floor then (⟨some entry.value, s.generation, floor⟩, s.touch c key)
    else (⟨none, s.generation, floor⟩, if entry.expires ≤ now then s.remove key else s)

/-- Too many entries or too many bytes. -/
def Cache.full (s : Cache) : Bool := c.capacity < s.values.entries.length ∨ (c.maxBytes : ℤ) < s.bytes

/-- The loop of `put`; it takes one entry out each time. -/
def Cache.evict : ℕ → Cache → Cache
  | 0, s => s
  | n + 1, s => if s.full c then (s.victim c).elim s fun key => Cache.evict n (s.remove key) else s

/-- The entry that a value of a key meets: `put` refuses an older value and raises on another of the same version. -/
def meets (value : Record) (now : ℚ) : Option CacheEntry → Py Bool
  | none => .ok true
  | some old =>
    if old.expires ≤ now then .ok true
    else if value.version < old.value.version then .ok false
    else do
      require (value.version ≠ old.value.version ∨ value = old.value) (.http 409 "same-version cache content conflict")
      return true

/-- The store of `put`, once nothing speaks against it. -/
def Cache.store (key : String) (value : Record) (now : ℚ) (s : Cache) : Cache :=
  let seen := s.frequency key
  let s := s.remove key
  let s := ((s.values.entries.filter fun e => e.2.expires ≤ now).map Prod.fst).foldl (fun s key => s.remove key) s
  let s := { s with
    values := s.values.set key ⟨c.later now c.ttl, value, value.size⟩
    bytes := s.bytes + value.size
    freq := if c.policy = Policy.lfu then s.freq.set key (seen + 1) else s.freq }
  s.evict c s.values.entries.length

def Cache.put (key : String) (value : Record) (generation : ℕ) (now : ℚ) (s : Cache) : Py (Bool × Cache) := do
  if generation ≠ s.generation ∨ value.version < s.floor key 0 ∨ c.maxBytes < value.size then
    return (false, s)
  else
    let fits ← meets value now (s.values.get? key)
    return if fits then (true, s.store c key value now) else (false, s)

/-- A floor that is raised moves to the end; the oldest of more than a thousand goes. -/
def raiseFloor (key : String) (minVersion : ℕ) (floors : Dict String ℕ) : Dict String ℕ :=
  let raised := (floors.erase key).set key (max minVersion ((floors.get? key).getD 0))
  if 1000 < raised.entries.length then
    ⟨raised.entries.tail, raised.nodup.sublist ((List.tail_sublist _).map _)⟩
  else raised

def Cache.delete (key : String) (minVersion : ℕ) (s : Cache) : Cache :=
  let s := s.remove key
  { s with
    generation := s.generation + 1
    floors := if minVersion = 0 then s.floors else raiseFloor key minVersion s.floors }

/-! ### Web nodes -/

/-- Where a read has got to, after its probe. -/
inductive ReadPhase where
  | missed
  /-- The replica did not have it. -/
  | behind
  | filling (value : Record)
  | answered (value : Record)
  | failed

/-- A read, with what its probe said and the deletes before its probe. -/
structure Read where
  user : String
  floor : ℕ
  generation : ℕ
  phase : ReadPhase
  before : List (String × ℕ)

structure Web where
  clock : ℚ
  /-- The versions of each user at the primary. -/
  primary : String → List Profile
  cache : Cache
  reads : ℕ → Option Read
  /-- Deletes that the cache has run with a version, for statements only. -/
  deletes : List (String × ℕ)

/-- A version of a user. -/
def Web.record (s : Web) (user : String) (version : ℕ) : Option Record :=
  if version = 0 then none else ((s.primary user)[version - 1]?).map fun profile => ⟨user, version, profile⟩

def Web.goOn (s : Web) (i : ℕ) (read : Read) (phase : ReadPhase) : Web :=
  { s with reads := Function.update s.reads i (some { read with phase := phase }) }

/-- The end of `get`: an older value than the floor is refused. -/
def Read.finish (read : Read) (value : Record) : ReadPhase := if value.version < read.floor then .failed else .answered value

inductive Serves (s : Web) : Web → Prop
  | tick (now : ℚ) (hnow : s.clock ≤ now) : Serves s { s with clock := now }
  | update (user : String) (profile : Profile) :
      Serves s { s with primary := Function.update s.primary user (s.primary user ++ [profile]) }
  /-- The delete of an update, new or repeated, that returned this version. -/
  | delete (user : String) (version : ℕ) (hversion : 1 ≤ version ∧ version ≤ (s.primary user).length) :
      Serves s { s with cache := s.cache.delete user version, deletes := s.deletes ++ [(user, version)] }
  | probe (i : ℕ) (hnew : s.reads i = none) (user : String) (minVersion : ℕ) {probe : Probe} {cache : Cache}
      (h : s.cache.probe c user minVersion s.clock = (probe, cache)) :
      Serves s { s with
        cache := cache
        reads := Function.update s.reads i (some ⟨user, probe.minVersion, probe.generation,
          probe.value.elim .missed .answered, s.deletes⟩) }
  /-- The replica has an older version, or the newest. -/
  | replica (i : ℕ) (read : Read) (h : s.reads i = some read) (hphase : read.phase = .missed) (version : ℕ) (value : Record)
      (hvalue : s.record read.user version = some value) :
      Serves s (s.goOn i read (if value.version < read.floor then .behind else .filling value))
  | replicaFails (i : ℕ) (read : Read) (h : s.reads i = some read) (hphase : read.phase = .missed) :
      Serves s (s.goOn i read .behind)
  | primary (i : ℕ) (read : Read) (h : s.reads i = some read) (hphase : read.phase = .behind) :
      Serves s (s.goOn i read ((s.record read.user (s.primary read.user).length).elim .failed .filling))
  | fill (i : ℕ) (read : Read) (h : s.reads i = some read) (value : Record) (hphase : read.phase = .filling value)
      {stored : Bool} {cache : Cache} (hput : s.cache.put c read.user value read.generation s.clock = .ok (stored, cache)) :
      Serves s { s.goOn i read (read.finish value) with cache := cache }
  /-- The cache cannot be reached, or refuses. -/
  | fillFails (i : ℕ) (read : Read) (h : s.reads i = some read) (value : Record) (hphase : read.phase = .filling value) :
      Serves s (s.goOn i read (read.finish value))

def Web.start : Web where
  clock := 0
  primary _ := []
  cache := ⟨.empty, .empty, .empty, 0, 0⟩
  reads _ := none
  deletes := []

def web : Transitions Web where
  start s := s = .start
  step s s' := Serves c s s'

end SystemDesign.ScaleFromZero
