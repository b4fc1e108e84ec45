import Mathlib
import SystemDesign.Lib.Transitions

/-!
Offline push: consumers of one stream over Redis (`push.py`, and the push programs of `redis_scripts.py`).

Each program and each stream command of Redis is one step, and so is each answer of the provider or of the
presence check. A worker that crashes takes no further step; a command that it has sent may still arrive,
since nothing obliges a later step to come before it. The next entry of a worker may even begin before the
last is over.
-/

namespace SystemDesign.Chat.Push

/-! ### Redis -/

/-- The fields of a stream entry. -/
structure Fields where
  user : String
  messageId : String

/-- What `push_retries` holds of an entry. -/
structure Retry where
  attempts : ℕ
  due : ℚ
  error : String

/-- The owner of a pending entry and when it was last delivered to one. -/
structure Pending where
  consumer : ℕ
  delivered : ℚ

structure Lock where
  token : ℕ
  expires : ℚ

structure DeadLetter where
  entry : ℕ
  fields : Fields
  attempts : ℕ
  error : String

/-- Entries are numbered as they were added; the group has delivered the first of them. -/
structure Redis where
  clock : ℚ
  stream : List Fields
  lastDelivered : ℕ
  pending : ℕ → Option Pending
  locks : ℕ → Option Lock
  retries : ℕ → Option Retry
  deadLetters : List DeadLetter

/-- `GET` of the lock of an entry. -/
def Redis.holder (entry : ℕ) (r : Redis) : Option ℕ :=
  ((r.locks entry).filter fun lock => r.clock < lock.expires).map Lock.token

/-- The attempts of an entry that were stored; an entry without a state has none. -/
def Redis.attempts (entry : ℕ) (r : Redis) : ℕ := (r.retries entry).elim 0 Retry.attempts

/-- The token holds the lock of the entry, and the entry is pending. -/
def Redis.owns (entry token : ℕ) (r : Redis) : Bool := r.holder entry = some token ∧ (r.pending entry).isSome = true

/-- `_PUSH_LOCK`. -/
def Redis.lock (entry token : ℕ) (ttl : ℚ) (r : Redis) : Bool × Redis :=
  if (r.pending entry).isNone then (false, r)
  else if (r.holder entry).isSome then (false, r)
  else (true, { r with locks := Function.update r.locks entry (some ⟨token, r.clock + ttl⟩) })

/-- `_PUSH_COMPLETE`, with a dead letter where it completes a failure. -/
def Redis.complete (entry token : ℕ) (letter : Option DeadLetter) (r : Redis) : Bool × Redis :=
  if r.owns entry token then
    (true, { r with
      deadLetters := r.deadLetters ++ letter.toList
      pending := Function.update r.pending entry none
      retries := Function.update r.retries entry none })
  else (false, r)

/-- `_PUSH_RETRY`. -/
def Redis.retry (entry token : ℕ) (state : Retry) (r : Redis) : Bool × Redis :=
  if r.owns entry token then (true, { r with retries := Function.update r.retries entry (some state) })
  else (false, r)

/-- `_PUSH_RENEW`. -/
def Redis.renew (entry token : ℕ) (ttl : ℚ) (r : Redis) : Bool × Redis :=
  if r.holder entry = some token then
    (true, { r with locks := Function.update r.locks entry (some ⟨token, r.clock + ttl⟩) })
  else (false, r)

/-- The program of `_release_lock`. -/
def Redis.release (entry token : ℕ) (r : Redis) : Redis :=
  if r.holder entry = some token then { r with locks := Function.update r.locks entry none } else r

/-- `XAUTOCLAIM` of these entries. -/
def Redis.claim (consumer : ℕ) (entries : List ℕ) (r : Redis) : Redis :=
  { r with pending := fun entry => if entry ∈ entries then some ⟨consumer, r.clock⟩ else r.pending entry }

/-- `XREADGROUP` of entries that were never delivered. -/
def Redis.fetch (consumer count : ℕ) (r : Redis) : Redis :=
  { r with
    lastDelivered := r.lastDelivered + count
    pending := fun entry =>
      if r.lastDelivered ≤ entry ∧ entry < r.lastDelivered + count then some ⟨consumer, r.clock⟩ else r.pending entry }

/-! ### Workers -/

structure Worker where
  keyPrefix : String
  reclaimIdleMs : ℕ
  retryBase : ℚ
  maxAttempts : ℕ
  maxAttempts_pos : 0 < maxAttempts

variable (c : Worker)

/-- `lock_ttl_ms`, in seconds. -/
def Worker.lockTtl : ℚ := (max 15000 (c.reclaimIdleMs * 2) : ℕ) / 1000

/-- The idempotency key of an entry. -/
def Worker.identity (fields : Fields) : String := c.keyPrefix ++ fields.user ++ ":" ++ fields.messageId

def Worker.delay (attempts : ℕ) : ℚ := min 60 (c.retryBase * 2 ^ min (attempts - 1) 20)

/-- Where `_deliver_locked` has got to. Attempts are those it has read, `failed` and later those it counts. -/
inductive Phase where
  | locked
  | read (attempts : ℕ) (due : ℚ)
  | ready (attempts : ℕ)
  | delivering (attempts : ℕ)
  | failed (attempts : ℕ) (error : String)
  | retrying (state : Retry)
  | completing (letter : Option DeadLetter)
  | done

/-- A call of `_handle` that got its lock. -/
structure Handle where
  entry : ℕ
  fields : Fields
  phase : Phase

structure System where
  redis : Redis
  /-- How many lock tokens were drawn; tokens never repeat. -/
  drawn : ℕ
  /-- The entries that a consumer has and has not begun to handle. -/
  batch : ℕ → List ℕ
  /-- The calls of `_handle`, by their tokens. -/
  handles : ℕ → Option Handle
  /-- Entries whose user was seen online, identities that were delivered, entries of failed attempts and
  entries acknowledged, one for each time, for statements only. -/
  seen : List ℕ
  delivered : List String
  failures : List ℕ
  acks : List ℕ

/-- The handle of a token goes on. -/
def System.move (token : ℕ) (handle : Handle) (phase : Phase) (s : System) : System :=
  { s with handles := Function.update s.handles token (some { handle with phase := phase }) }

/-- What the provider's failure leads to. -/
def Worker.failure (handle : Handle) (attempts : ℕ) (error : String) : Phase :=
  if c.maxAttempts ≤ attempts + 1 then .completing (some ⟨handle.entry, handle.fields, attempts + 1, error⟩)
  else .failed (attempts + 1) error

/-- One step, labelled with the token of the handle that takes it. -/
inductive Acts (s : System) : Option ℕ → System → Prop
  | tick (now : ℚ) (hnow : s.redis.clock ≤ now) : Acts s none { s with redis := { s.redis with clock := now } }
  | append (fields : Fields) : Acts s none { s with redis := { s.redis with stream := s.redis.stream ++ [fields] } }
  | claim (consumer : ℕ) (entries : List ℕ) (hcount : entries.length ≤ 100) (hidle : ∀ entry ∈ entries, ∃ p,
      s.redis.pending entry = some p ∧ p.delivered + (c.reclaimIdleMs : ℚ) / 1000 ≤ s.redis.clock) :
      Acts s none { s with
        redis := s.redis.claim consumer entries
        batch := Function.update s.batch consumer entries }
  | fetch (consumer count : ℕ) (hcount : count ≤ 100) (hstream : s.redis.lastDelivered + count ≤ s.redis.stream.length) :
      Acts s none { s with
        redis := s.redis.fetch consumer count
        batch := Function.update s.batch consumer
          (s.batch consumer ++ (List.range count).map fun i => s.redis.lastDelivered + i) }
  /-- `run_once` raises, or its process ends. -/
  | abandon (consumer : ℕ) : Acts s none { s with batch := Function.update s.batch consumer [] }
  | lock (consumer entry : ℕ) (rest : List ℕ) (fields : Fields) (hbatch : s.batch consumer = entry :: rest)
      (hfields : s.redis.stream[entry]? = some fields) {ok : Bool} {redis : Redis}
      (h : s.redis.lock entry s.drawn c.lockTtl = (ok, redis)) :
      Acts s none { s with
        redis := redis
        drawn := s.drawn + 1
        batch := Function.update s.batch consumer rest
        handles := if ok then Function.update s.handles s.drawn (some ⟨entry, fields, .locked⟩) else s.handles }
  | renew (token : ℕ) (handle : Handle) (h : s.handles token = some handle) :
      Acts s (some token) { s with redis := (s.redis.renew handle.entry token c.lockTtl).2 }
  | release (token : ℕ) (handle : Handle) (h : s.handles token = some handle) :
      Acts s (some token) { s with redis := s.redis.release handle.entry token }
  | read (token : ℕ) (handle : Handle) (h : s.handles token = some handle) (hphase : handle.phase = .locked) :
      Acts s (some token) (s.move token handle
        (.read (s.redis.attempts handle.entry) ((s.redis.retries handle.entry).elim 0 Retry.due)))
  | begin (token : ℕ) (handle : Handle) (h : s.handles token = some handle) (attempts : ℕ) (due : ℚ)
      (hphase : handle.phase = .read attempts due) :
      Acts s (some token) (s.move token handle (if s.redis.clock < due then .done else .ready attempts))
  | online (token : ℕ) (handle : Handle) (h : s.handles token = some handle) (attempts : ℕ)
      (hphase : handle.phase = .ready attempts) :
      Acts s (some token) { s.move token handle (.completing none) with seen := s.seen ++ [handle.entry] }
  | offline (token : ℕ) (handle : Handle) (h : s.handles token = some handle) (attempts : ℕ)
      (hphase : handle.phase = .ready attempts) : Acts s (some token) (s.move token handle (.delivering attempts))
  | deliver (token : ℕ) (handle : Handle) (h : s.handles token = some handle) (attempts : ℕ)
      (hphase : handle.phase = .delivering attempts) :
      Acts s (some token) { s.move token handle (.completing none) with delivered := s.delivered ++ [c.identity handle.fields] }
  | fail (token : ℕ) (handle : Handle) (h : s.handles token = some handle) (attempts : ℕ)
      (hphase : handle.phase = .delivering attempts) (error : String) :
      Acts s (some token) { s.move token handle (c.failure handle attempts error) with failures := s.failures ++ [handle.entry] }
  | schedule (token : ℕ) (handle : Handle) (h : s.handles token = some handle) (attempts : ℕ) (error : String)
      (hphase : handle.phase = .failed attempts error) :
      Acts s (some token) (s.move token handle (.retrying ⟨attempts, s.redis.clock + c.delay attempts, error⟩))
  | retry (token : ℕ) (handle : Handle) (h : s.handles token = some handle) (state : Retry)
      (hphase : handle.phase = .retrying state) :
      Acts s (some token) { s.move token handle .done with redis := (s.redis.retry handle.entry token state).2 }
  | complete (token : ℕ) (handle : Handle) (h : s.handles token = some handle) (letter : Option DeadLetter)
      (hphase : handle.phase = .completing letter) {ok : Bool} {redis : Redis}
      (hscript : s.redis.complete handle.entry token letter = (ok, redis)) :
      Acts s (some token) { s.move token handle .done with
        redis := redis
        acks := if ok then s.acks ++ [handle.entry] else s.acks }
  /-- The delivery is cancelled, or something in it raises. -/
  | stop (token : ℕ) (handle : Handle) (h : s.handles token = some handle) : Acts s (some token) (s.move token handle .done)

def System.start : System where
  redis := ⟨0, [], 0, fun _ => none, fun _ => none, fun _ => none, []⟩
  drawn := 0
  batch _ := []
  handles _ := none
  seen := []
  delivered := []
  failures := []
  acks := []

def push : Transitions System where
  start s := s = .start
  step s s' := ∃ label, Acts c s label s'

end SystemDesign.Chat.Push
