import SystemDesign.Lib.Json
import SystemDesign.Lib.Sha256
import SystemDesign.Lib.SlidingWindow
import SystemDesign.Notification.System

/-!
Admission: quotas, deduplication and the enqueue between them (`service.py`, `rate_limiter.py`,
`dedup.py`).

The coroutines of one event loop run in turn; a send stops at an await with the admission lock of
its recipient held. Contacts, templates and preferences may change at any time, and so may what
they answer: whatever they refuse ends a send at its first stop.
-/

namespace SystemDesign.Notification

structure RateLimitConfig where
  maxCount : ℕ
  windowSeconds : ℚ
  maxCount_pos : 0 < maxCount
  windowSeconds_pos : 0 < windowSeconds

/-- `Channel.value`. -/
def Channel.value : Channel → String
  | .iosPush => "ios_push"
  | .androidPush => "android_push"
  | .sms => "sms"
  | .email => "email"

/-- A service. Sums and differences of floats are rounded, which keeps their order. -/
structure AdmissionSetup where
  perChannelLimits : Channel → Option RateLimitConfig
  globalLimit : RateLimitConfig
  dedupWindow : ℚ
  queue : Queue
  plus : ℚ → ℚ → ℚ
  minus : ℚ → ℚ → ℚ
  plus_mono : ∀ d, Monotone (plus · d)
  minus_mono : ∀ d, Monotone (minus · d)
  uuid : ℕ → String
  /-- `hash(recipient_id) % 64`. -/
  stripe : String → ℕ

/-! ### The rate limiter -/

/-- The two default dictionaries of `SlidingWindowRateLimiter`. -/
structure Limiter where
  channelWindows : String × Channel → List ℚ
  globalWindows : String → List ℚ

variable (c : AdmissionSetup)

def Limiter.checkGlobal (user : String) (now : ℚ) (l : Limiter) : Bool × Limiter :=
  let window := pruneWindow (c.minus now c.globalLimit.windowSeconds) (l.globalWindows user)
  (decide (window.length < c.globalLimit.maxCount), { l with globalWindows := Function.update l.globalWindows user window })

/-- `check`: whether it returns, and what it leaves. -/
def Limiter.check (user : String) (channel : Channel) (now : ℚ) (l : Limiter) : Bool × Limiter :=
  match c.perChannelLimits channel with
  | none => l.checkGlobal c user now
  | some config =>
    let window := pruneWindow (c.minus now config.windowSeconds) (l.channelWindows (user, channel))
    let l := { l with channelWindows := Function.update l.channelWindows (user, channel) window }
    if config.maxCount ≤ window.length then (false, l) else l.checkGlobal c user now

/-- `record`. -/
def Limiter.record (user : String) (channel : Channel) (now : ℚ) (l : Limiter) : Limiter where
  channelWindows := Function.update l.channelWindows (user, channel) (l.channelWindows (user, channel) ++ [now])
  globalWindows := Function.update l.globalWindows user (l.globalWindows user ++ [now])

/-! ### The deduplicator -/

/-- The notification of a key and its expiry. -/
abbrev Entries := Dict String (String × ℚ)

/-- `compute_key` of the content that `_accept` makes of a title and a body. -/
def dedupKey (recipient : String) (channel : Channel) (title body : String) : String :=
  Sha256.hexdigest (recipient ++ ":" ++ channel.value ++ ":" ++ Json.encode (.arr [.str title, .str body]))

/-- `_expire_old_entries`. -/
def expireEntries (now : ℚ) (entries : Entries) : Entries :=
  ⟨entries.entries.filter fun entry => now < entry.2.2, entries.nodup.sublist (List.filter_sublist.map _)⟩

/-- `check`, which reads the clock twice. -/
def checkEntry (key : String) (now now' : ℚ) (entries : Entries) : Option String × Entries :=
  let entries := expireEntries now entries
  match entries.get? key with
  | none => (none, entries)
  | some (id, expiry) => if now' < expiry then (some id, entries) else (none, entries.erase key)

/-- `record`. -/
def recordEntry (key id : String) (now : ℚ) (entries : Entries) : Entries :=
  entries.set key (id, c.plus now c.dedupWindow)

/-! ### A send -/

/-- Where a send has stopped. -/
inductive Stage where
  | looking
  | enqueuing (task : Task)
  /-- The transaction of the queue is over and the send has not gone on yet. -/
  | accepted (task : Task) (time : ℚ)

structure Admission where
  request : Request
  stage : Stage

/-- A notification in the queue, with the content that was resolved. -/
structure Enqueued where
  request : Request
  time : ℚ

structure Service where
  clock : ℚ
  db : Db
  limiter : Limiter
  entries : Entries
  drawn : ℕ
  /-- The sends that hold an admission lock. -/
  held : ℕ → Option Admission
  /-- What was enqueued so far, for statements only. -/
  enqueued : List Enqueued

/-- The quota and duplicate checks of `_accept` for a request whose content was resolved. -/
def Service.check (request : Request) (now₁ now₂ now₃ : ℚ) (s : Service) : Bool × Limiter × Entries :=
  match s.limiter.check c request.recipientId request.channel now₁ with
  | (false, limiter) => (false, limiter, s.entries)
  | (true, limiter) =>
    match request.eventId with
    | some _ => (true, limiter, s.entries)
    | none =>
      let key := dedupKey request.recipientId request.channel request.title request.body
      match checkEntry key now₂ now₃ s.entries with
      | (some _, entries) => (false, limiter, entries)
      | (none, entries) => (true, limiter, entries)

/-- What `_accept` records once the queue has accepted. -/
def Service.record (request : Request) (id : String) (now₁ now₂ : ℚ) (s : Service) : Service :=
  { s with
    clock := now₂
    limiter := s.limiter.record request.recipientId request.channel now₁
    entries := match request.eventId with
      | some _ => s.entries
      | none => recordEntry c (dedupKey request.recipientId request.channel request.title request.body) id now₂ s.entries
    held := Function.update s.held (c.stripe request.recipientId) none }

/-- The lock of a recipient is given back. -/
def Service.leave (recipient : String) (now : ℚ) (s : Service) : Service :=
  { s with clock := now, held := Function.update s.held (c.stripe recipient) none }

/-- Steps with the label `true` are those of a caller cancelled after the queue had accepted. -/
inductive Sends (s : Service) : Bool → Service → Prop
  | start (request : Request) (now : ℚ) (hnow : s.clock ≤ now) (hfree : s.held (c.stripe request.recipientId) = none) :
      Sends s false { s with
        clock := now
        held := Function.update s.held (c.stripe request.recipientId) (some ⟨request, .looking⟩) }
  /-- A known event, a refused request or a caller cancelled while it looked up its event. -/
  | refuse (request : Request) (hheld : s.held (c.stripe request.recipientId) = some ⟨request, .looking⟩)
      (now : ℚ) (hnow : s.clock ≤ now) : Sends s false (s.leave c request.recipientId now)
  | check (request : Request) (hheld : s.held (c.stripe request.recipientId) = some ⟨request, .looking⟩)
      (title body : String) (endpoints : List String) (createdAt : ℚ) (scheduledAt : Option ℚ) (now₁ now₂ now₃ : ℚ)
      (hnow₁ : s.clock ≤ now₁) (hnow₂ : now₁ ≤ now₂) (hnow₃ : now₂ ≤ now₃) {ok : Bool} {limiter : Limiter} {entries : Entries}
      (h : s.check c { request with title := title, body := body } now₁ now₂ now₃ = (ok, limiter, entries)) :
      Sends s false { s with
        clock := now₃, limiter := limiter, entries := entries, drawn := s.drawn + 1
        held := Function.update s.held (c.stripe request.recipientId) <|
          if ok then
            let resolved := { request with title := title, body := body }
            some ⟨resolved, .enqueuing (resolved.task (c.uuid s.drawn) createdAt scheduledAt endpoints)⟩
          else none }
  | enqueue (request : Request) (task : Task)
      (hheld : s.held (c.stripe request.recipientId) = some ⟨request, .enqueuing task⟩) (now wall : ℚ) (hnow : s.clock ≤ now)
      {db : Db} (h : c.queue.enqueue task wall s.db = .ok db) :
      Sends s false { s with
        clock := now, db := db
        held := Function.update s.held (c.stripe request.recipientId) (some ⟨request, .accepted task now⟩)
        enqueued := s.enqueued ++ [⟨request, now⟩] }
  /-- The queue refuses, or the caller is cancelled and nothing was committed. -/
  | fail (request : Request) (task : Task)
      (hheld : s.held (c.stripe request.recipientId) = some ⟨request, .enqueuing task⟩) (now : ℚ) (hnow : s.clock ≤ now) :
      Sends s false (s.leave c request.recipientId now)
  | record (request : Request) (task : Task) (time : ℚ)
      (hheld : s.held (c.stripe request.recipientId) = some ⟨request, .accepted task time⟩) (now₁ now₂ : ℚ)
      (hnow₁ : s.clock ≤ now₁) (hnow₂ : now₁ ≤ now₂) :
      Sends s false (s.record c request task.notificationId now₁ now₂)
  | cancel (request : Request) (task : Task) (time : ℚ)
      (hheld : s.held (c.stripe request.recipientId) = some ⟨request, .accepted task time⟩) (now : ℚ) (hnow : s.clock ≤ now) :
      Sends s true (s.leave c request.recipientId now)
  /-- Workers take jobs out of the queue and put them back. -/
  | work (db : Db) : Sends s false { s with db := db }

def Service.start : Service := ⟨0, ⟨.empty, .empty⟩, ⟨fun _ => [], fun _ => []⟩, .empty, 0, fun _ => none, []⟩

/-- Any callers. -/
def admission : Transitions Service where
  start s := s = Service.start
  step s s' := ∃ cancelled, Sends c s cancelled s'

/-- Callers that are not cancelled once the queue has accepted. -/
def patientAdmission : Transitions Service where
  start s := s = Service.start
  step s s' := Sends c s false s'

/-! ### Quotas, seen from the queue -/

/-- The windows of a user: one for each channel, and one over all of them. -/
def Limiter.window (l : Limiter) (user : String) : Option Channel → List ℚ
  | none => l.globalWindows user
  | some channel => l.channelWindows (user, channel)

def AdmissionSetup.limit : Option Channel → Option RateLimitConfig
  | none => some c.globalLimit
  | some channel => c.perChannelLimits channel

/-- The request counts for this window. -/
def Request.inScope (request : Request) (user : String) (scope : Option Channel) : Bool :=
  request.recipientId = user ∧ (scope = none ∨ scope = some request.channel)

/-- When the notifications of a window were enqueued. -/
def Service.times (s : Service) (user : String) (scope : Option Channel) : List ℚ :=
  (s.enqueued.filter fun e => e.request.inScope user scope).map Enqueued.time

/-- No window holds more than its maximum, at any instant. -/
def Service.WithinQuota (s : Service) : Prop :=
  ∀ user scope config, c.limit scope = some config → ∀ t,
    ((s.times user scope).countP fun x => c.minus t config.windowSeconds < x ∧ x ≤ t) ≤ config.maxCount

/-- Two notifications that a deduplicator without events cannot tell apart. -/
def Request.sameContent (a b : Request) : Prop :=
  a.eventId = none ∧ b.eventId = none ∧ a.recipientId = b.recipientId ∧ a.channel = b.channel ∧ a.title = b.title ∧ a.body = b.body

def Service.NoDuplicates (s : Service) : Prop :=
  s.enqueued.Pairwise fun a b => a.request.sameContent b.request → c.plus a.time c.dedupWindow ≤ b.time

/-- Quota and duplicate entries are as before, apart from those that are over. -/
structure Lapsed (s s' : Service) : Prop where
  windows : ∀ user scope config, c.limit scope = some config → ∃ dropped,
    s.limiter.window user scope = dropped ++ s'.limiter.window user scope ∧
      ∀ x ∈ dropped, x ≤ c.minus s'.clock config.windowSeconds
  entries : ∀ key, s'.entries.get? key = s.entries.get? key ∨
    (s'.entries.get? key = none ∧ ∃ id expiry, s.entries.get? key = some (id, expiry) ∧ expiry ≤ s'.clock)

end SystemDesign.Notification
