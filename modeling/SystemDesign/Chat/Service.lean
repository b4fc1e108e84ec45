import SystemDesign.Lib.Py
import SystemDesign.Lib.Transitions

/-!
The session registry and presence fan-out of the chat service (`service.py`).

A session object has a number; the objects are a function of it. The clock is a sequence of
readings and `reading` counts those taken. A set is a list without repetitions; the order
in which Python goes over it is a parameter of the setup. What subscribers know is kept
beside the queues in two fields of a session that no function reads: `answer`, the answers
of its latest subscription, and `heard`, the presence events put into its queue since.

`_publish_presence` only appends while it is running. The functions it calls take what
they publish with as an argument: `announce` inside its loop, `publishPresence` outside.
-/

namespace SystemDesign.Chat

inductive Error where
  | chat (message : String)
  | authentication (message : String)

/-- An event of a session's queue; `message` is what `_deliver_live` sends. -/
inductive LiveEvent (μ : Type) where
  | closed (reason : String)
  | presence (userId : String) (online : Bool)
  | message (message : μ)
deriving DecidableEq

abbrev SessionId := ℕ

structure Session (τ μ : Type) where
  userId : String
  deviceId : String
  token : String
  queue : List (LiveEvent μ)
  lastHeartbeat : τ
  closed : Bool
  answer : Dict String Bool
  heard : List (String × Bool)

/-- The clock, the configuration and the order in which sets are gone over. -/
structure Setup (τ : Type) [LinearOrder τ] [Sub τ] where
  clock : ℕ → τ
  clock_mono : Monotone clock
  sub_le : ∀ a b h : τ, a ≤ b → a - h ≤ b - h
  heartbeatTimeout : τ
  queueSize : ℕ
  queue_pos : 0 < queueSize
  order : List SessionId → List SessionId
  order_perm : ∀ set, (order set).Perm set
  userOrder : List String → List String
  userOrder_perm : ∀ set, (userOrder set).Perm set

structure ChatService (τ μ : Type) where
  auth : String → Option String
  object : SessionId → Session τ μ
  next : SessionId
  sessions : Dict (String × String) SessionId
  userSessions : Dict String (List SessionId)
  subscriptions : Dict SessionId (List String)
  watchers : Dict String (List SessionId)
  presenceEvents : List (String × Bool)
  publishing : Bool
  reading : ℕ

/-! ### Sets in dictionaries -/

/-- `d.get(k, ())`. -/
def members {κ α : Type} [DecidableEq κ] (d : Dict κ (List α)) (k : κ) : List α := (d.get? k).getD []

/-- `d.setdefault(k, set()).add(a)`. -/
def insertInto {κ α : Type} [DecidableEq κ] [DecidableEq α] (a : α) (d : Dict κ (List α)) (k : κ) : Dict κ (List α) :=
  d.set k (if a ∈ members d k then members d k else members d k ++ [a])

/-- `discard` from a set, which goes when it is empty. -/
def discard {κ α : Type} [DecidableEq κ] [DecidableEq α] (a : α) (d : Dict κ (List α)) (k : κ) : Dict κ (List α) :=
  match d.get? k with
  | none => d
  | some set =>
    let rest := set.filter fun b => b ≠ a
    if rest = [] then d.erase k else d.set k rest

namespace ChatService

variable {τ μ : Type} [LinearOrder τ] [Sub τ] (c : Setup τ)

/-! ### Sessions -/

def key (s : ChatService τ μ) (i : SessionId) : String × String := ((s.object i).userId, (s.object i).deviceId)

def setObject (i : SessionId) (x : Session τ μ) (s : ChatService τ μ) : ChatService τ μ :=
  { s with object := Function.update s.object i x }

/-- A reading of the clock is taken. -/
def tick (s : ChatService τ μ) : ChatService τ μ := { s with reading := s.reading + 1 }

def unsubscribe (i : SessionId) (s : ChatService τ μ) : ChatService τ μ :=
  { s with
    subscriptions := s.subscriptions.erase i
    watchers := (members s.subscriptions i).foldl (discard i) s.watchers }

def closedEvent : LiveEvent μ := .closed "reconnect and sync"

/-- `_close`. -/
def close (i : SessionId) (s : ChatService τ μ) : ChatService τ μ :=
  if (s.object i).closed then s
  else
    let sessions := if s.sessions.get? (s.key i) = some i then s.sessions.erase (s.key i) else s.sessions
    let s := { s with
      sessions := sessions
      userSessions := discard i s.userSessions (s.object i).userId }
    (s.unsubscribe i).setObject i { s.object i with closed := true, queue := [closedEvent] }

/-- The heartbeat of a session is too old. -/
def lapsed (now : τ) (s : ChatService τ μ) (i : SessionId) : Bool :=
  c.heartbeatTimeout ≤ now - (s.object i).lastHeartbeat

/-- `_has_live_session`, before the reading is counted. -/
def hasLive (user : String) (s : ChatService τ μ) : Bool :=
  (members s.userSessions user).any fun i => !s.lapsed c (c.clock s.reading) i

/-- The token is no longer the user's, or the heartbeat is too old. -/
def stale (now : τ) (user : String) (s : ChatService τ μ) (i : SessionId) : Bool :=
  s.auth (s.object i).token ≠ some user || s.lapsed c now i

/-! ### Publishing -/

/-- `_presence_events.append`. -/
def announce (user : String) (online : Bool) (s : ChatService τ μ) : ChatService τ μ :=
  { s with presenceEvents := s.presenceEvents ++ [(user, online)] }

/-- A reading that may lead to an announcement: nobody is live any more. -/
def announceGone (publish : String → Bool → ChatService τ μ → ChatService τ μ) (user : String)
    (s : ChatService τ μ) : ChatService τ μ :=
  if s.hasLive c user then s.tick else publish user false s.tick

/-- The loop of `_expire_user`: the state and whether it changed. -/
def expireAll (now : τ) (user : String) (ids : List SessionId) (s : ChatService τ μ) : ChatService τ μ × Bool :=
  ids.foldl (fun acc i => if acc.1.stale c now user i then (acc.1.close i, true) else acc) (s, false)

/-- `_expire_user`. -/
def expireUser (publish : String → Bool → ChatService τ μ → ChatService τ μ) (user : String)
    (s : ChatService τ μ) : ChatService τ μ :=
  let expired := expireAll c (c.clock s.reading) user (c.order (members s.userSessions user)) s.tick
  if expired.2 then announceGone c publish user expired.1 else expired.1

def disconnect (publish : String → Bool → ChatService τ μ → ChatService τ μ) (i : SessionId)
    (s : ChatService τ μ) : ChatService τ μ :=
  if s.sessions.get? (s.key i) = some i then
    announceGone c publish (s.object i).userId (s.close i)
  else s

/-- What a subscriber is told by an event. -/
def told : LiveEvent μ → List (String × Bool)
  | .presence user online => [(user, online)]
  | _ => []

/-- `put_nowait`. -/
def put (i : SessionId) (event : LiveEvent μ) (s : ChatService τ μ) : ChatService τ μ :=
  s.setObject i { s.object i with
    queue := (s.object i).queue ++ [event]
    heard := (s.object i).heard ++ told event }

/-- `_enqueue`. -/
def enqueue (publish : String → Bool → ChatService τ μ → ChatService τ μ) (i : SessionId)
    (event : LiveEvent μ) (s : ChatService τ μ) : ChatService τ μ :=
  if (s.object i).closed then s
  else if (s.object i).queue.length < c.queueSize then s.put i event
  else s.disconnect c publish i

/-- One subscriber of the loop of `_publish_presence`. -/
def tell (target : String) (state : Bool) (s : ChatService τ μ) (i : SessionId) : ChatService τ μ :=
  (s.expireUser c announce (s.object i).userId).enqueue c announce i (.presence target state)

/-- `while self._presence_events`. -/
def drain : ℕ → ChatService τ μ → ChatService τ μ
  | 0, s => s
  | fuel + 1, s =>
    match s.presenceEvents with
    | [] => s
    | (target, state) :: rest =>
      drain fuel ((c.order (members s.watchers target)).foldl (tell c target state) { s with presenceEvents := rest })

/-- The sessions that are open. -/
def openCount (s : ChatService τ μ) : ℕ := (List.range s.next).countP fun i => !(s.object i).closed

/-- `_publish_presence`; each event takes a round, and each further event takes a session. -/
def publishPresence (user : String) (online : Bool) (s : ChatService τ μ) : ChatService τ μ :=
  let s := s.announce user online
  if s.publishing then s
  else { drain c (s.presenceEvents.length + s.openCount) { s with publishing := true } with
    publishing := false }

/-! ### Calls -/

/-- A text that is not blank and has at most 128 characters. -/
def validName (text : String) : Bool := !isBlank text && text.length ≤ 128

def connect (token deviceId : String) (s : ChatService τ μ) : Except Error SessionId × ChatService τ μ :=
  match s.auth token with
  | none => (.error (.authentication "invalid token"), s)
  | some user =>
    if validName deviceId then
      let s := s.expireUser c (publishPresence c) user
      let wasOnline : Bool := members s.userSessions user ≠ []
      let s := match s.sessions.get? (user, deviceId) with
        | some previous => s.close previous
        | none => s
      let session : Session τ μ := ⟨user, deviceId, token, [], c.clock s.reading, false, .empty, []⟩
      let id := s.next
      let s := { s.tick.setObject id session with
        next := id + 1
        sessions := s.sessions.set (user, deviceId) id
        userSessions := insertInto id s.userSessions user }
      (.ok id, if wasOnline then s else s.publishPresence c user true)
    else (.error (.chat "invalid device"), s)

def validateSession (i : SessionId) (s : ChatService τ μ) : Except Error Unit × ChatService τ μ :=
  let s := s.expireUser c (publishPresence c) (s.object i).userId
  if (s.object i).closed = true ∨ s.sessions.get? (s.key i) ≠ some i then
    (.error (.authentication "session closed"), s)
  else match s.auth (s.object i).token with
    | none => (.error (.authentication "invalid token"), s)
    | some user =>
      if user = (s.object i).userId then (.ok (), s)
      else (.error (.authentication "invalid session"), s.disconnect c (publishPresence c) i)

def heartbeat (i : SessionId) (s : ChatService τ μ) : Except Error Unit × ChatService τ μ :=
  match s.validateSession c i with
  | (.error err, s) => (.error err, s)
  | (.ok (), s) =>
    (.ok (), s.tick.setObject i { s.object i with lastHeartbeat := c.clock s.reading })

def expireSessions (s : ChatService τ μ) : ChatService τ μ :=
  s.userSessions.keys.foldl (fun s user => s.expireUser c (publishPresence c) user) s

def isOnline (user : String) (s : ChatService τ μ) : Bool × ChatService τ μ :=
  let s := s.expireUser c (publishPresence c) user
  (s.hasLive c user, s.tick)

/-- `_user_ids`. -/
def userIds (values : List String) : Except Error (List String) :=
  if values.length ≤ 100 ∧ values.all validName = true then .ok values.dedup
  else .error (.chat "invalid user list")

/-- The registration of a subscription. -/
def watch (i : SessionId) (users : List String) (s : ChatService τ μ) : ChatService τ μ :=
  let s := s.unsubscribe i
  { s.setObject i { s.object i with answer := .empty, heard := [] } with
    subscriptions := s.subscriptions.set i users
    watchers := (c.userOrder users).foldl (insertInto i) s.watchers }

/-- The answer for one user. -/
def ask (i : SessionId) (acc : Dict String Bool × ChatService τ μ) (user : String) :
    Dict String Bool × ChatService τ μ :=
  let (online, s) := acc.2.isOnline c user
  (acc.1.set user online, s.setObject i { s.object i with answer := (s.object i).answer.set user online })

def subscribePresence (i : SessionId) (values : List String) (s : ChatService τ μ) :
    Except Error (Dict String Bool) × ChatService τ μ :=
  match s.validateSession c i with
  | (.error err, s) => (.error err, s)
  | (.ok (), s) => match userIds values with
    | .error err => (.error err, s)
    | .ok users =>
      let (answer, s) := (c.userOrder users).foldl (ask c i) (.empty, s.watch c i users)
      (.ok answer, s)

/-- One member in `_deliver_live`. -/
def deliverTo (message : μ) (sender : String) (acc : List String × ChatService τ μ) (user : String) :
    List String × ChatService τ μ :=
  let s := acc.2.expireUser c (publishPresence c) user
  let s := (c.order (members s.userSessions user)).foldl
    (fun s target => s.enqueue c (publishPresence c) target (.message message)) s
  if user = sender then (acc.1, s)
  else (if s.hasLive c user then acc.1 else acc.1 ++ [user], s.tick)

/-- `_deliver_live`: the members who are offline. -/
def deliverLive (message : μ) (users : List String) (sender : String) (s : ChatService τ μ) :
    List String × ChatService τ μ :=
  users.foldl (deliverTo c message sender) ([], s)

/-! ### The system -/

/-- A call from outside; `authenticator` issues or revokes tokens and `receive` takes an
event out of a queue. -/
inductive Call (μ : Type) where
  | connect (token deviceId : String)
  | disconnect (i : SessionId)
  | validate (i : SessionId)
  | heartbeat (i : SessionId)
  | expireSessions
  | isOnline (user : String)
  | subscribe (i : SessionId) (values : List String)
  | authenticator (auth : String → Option String)
  | deliver (message : μ) (users : List String) (sender : String)
  | receive (i : SessionId)

def perform (s : ChatService τ μ) : Call μ → ChatService τ μ
  | .connect token deviceId => (s.connect c token deviceId).2
  | .disconnect i => s.disconnect c (publishPresence c) i
  | .validate i => (s.validateSession c i).2
  | .heartbeat i => (s.heartbeat c i).2
  | .expireSessions => s.expireSessions c
  | .isOnline user => (s.isOnline c user).2
  | .subscribe i values => (s.subscribePresence c i values).2
  | .authenticator auth => { s with auth := auth }
  | .deliver message users sender => (s.deliverLive c message users sender).2
  | .receive i => s.setObject i { s.object i with queue := (s.object i).queue.tail }

/-- No session yet: every object is one that was closed. -/
def init (auth : String → Option String) (start : τ) : ChatService τ μ where
  auth := auth
  object _ := ⟨"", "", "", [], start, true, .empty, []⟩
  next := 0
  sessions := .empty
  userSessions := .empty
  subscriptions := .empty
  watchers := .empty
  presenceEvents := []
  publishing := false
  reading := 0

def serving (start : τ) : Transitions (ChatService τ μ) where
  start s := ∃ auth, s = init auth start
  step s s' := ∃ call, s' = s.perform c call

end ChatService

end SystemDesign.Chat
