import SystemDesign.Email.Transport
import SystemDesign.Lib.Fencing

/-!
The shards, the spool, the object store and the workers between them.

A step is a transaction that returns, or an object operation; what raises changes nothing but
the worker. A worker may stop at any time, an answer may be lost after its transaction, and the
readings of a clock need not agree. The two lists of claims are for statements only.
-/

namespace SystemDesign.Email

open List

inductive SenderPhase where
  | claimed
  | accepted
  | failed

/-- A sender that holds a row of a shard's outbox. -/
structure Sender where
  shard : ℕ
  job : Job
  phase : SenderPhase

inductive ReceiverPhase where
  | claimed
  | delivering (descriptor : Descriptor) (body : String) (left : List String)
  | failing (rejected : Bool)

/-- A call of `process_once` that holds a row of the spool. -/
structure Receiver where
  job : Job
  phase : ReceiverPhase

structure State where
  stores : ℕ → Store
  spool : Spool
  objects : Dict String Bytes
  sending : List Sending
  senders : List Sender
  receivers : List Receiver
  drawn : ℕ
  /-- The claims of outbox rows, the latest first. -/
  outboxClaims : List ((ℕ × String) × String)
  /-- The claims of spool rows, the latest first. -/
  spoolClaims : List (String × String)

variable (c : Setup)

/-- `ObjectStore.put`. -/
def put (data : Bytes) (objects : Dict String Bytes) : Dict String Bytes :=
  if (objects.get? (c.sha data)).isSome then objects else objects.set (c.sha data) data

inductive Step (s : State) : State → Prop
  | prepare (user : String) (request : Request) (attachments : List (Attachment × Bytes)) {work : Sending} {message : Bytes}
      (h : prepare c user request attachments (s.stores (c.shardOf user)) = .ok (some (work, message))) :
      Step s { s with objects := put c message s.objects, sending := s.sending ++ [work] }
  | enqueue (before after : List Sending) (work : Sending) (hwork : s.sending = before ++ work :: after) (now : ℚ)
      {reply : Reply} {store : Store}
      (h : (s.stores (c.shardOf work.user)).enqueue c now work.user work.key work.fingerprint work.descriptor work.body
        work.raw = .ok (reply, store)) :
      Step s { s with stores := Function.update s.stores (c.shardOf work.user) store, sending := before ++ after }
  | abandon (before after : List Sending) (work : Sending) (hwork : s.sending = before ++ work :: after) :
      Step s { s with sending := before ++ after }
  | put (data : Bytes) : Step s { s with objects := put c data s.objects }
  | claim (shard : ℕ) (now : ℚ) (leaseSeconds : ℕ) {job : Option Job} {store : Store}
      (h : (s.stores shard).claim c now leaseSeconds (c.uuid s.drawn) = .ok (job, store)) :
      Step s { s with
        stores := Function.update s.stores shard store
        senders := s.senders ++ (job.map fun job => ⟨shard, job, .claimed⟩).toList
        drawn := s.drawn + 1
        outboxClaims := (job.map fun job => ((shard, job.id), job.token)).toList ++ s.outboxClaims }
  | smtp (before after : List Sender) (shard : ℕ) (job : Job) (hwork : s.senders = before ++ ⟨shard, job, .claimed⟩ :: after)
      (now : ℚ) (answered : Bool) {raw : Bytes} {delivery : String} {lost : Bool} {spool : Spool}
      (hraw : s.objects.get? job.raw = some raw)
      (h : s.spool.accept c now (c.transmit raw) job.sender job.recipients = .ok ((delivery, lost), spool)) :
      Step s { s with
        spool := spool
        objects := put c (c.transmit raw) s.objects
        senders := before ++ ⟨shard, job, if answered && !lost then .accepted else .failed⟩ :: after }
  | senderFails (before after : List Sender) (worker : Sender) (hwork : s.senders = before ++ worker :: after) :
      Step s { s with senders := before ++ { worker with phase := .failed } :: after }
  | settle (before after : List Sender) (shard : ℕ) (job : Job) (hwork : s.senders = before ++ ⟨shard, job, .accepted⟩ :: after)
      (now : ℚ) (answered : Bool) {settled : Bool} {store : Store}
      (h : (s.stores shard).settle c now job.id job.token none = .ok (settled, store)) :
      Step s { s with
        stores := Function.update s.stores shard store
        senders := before ++ if answered then after else ⟨shard, job, .failed⟩ :: after }
  | settleError (before after : List Sender) (shard : ℕ) (job : Job) (hwork : s.senders = before ++ ⟨shard, job, .failed⟩ :: after)
      (now : ℚ) (error : String) {settled : Bool} {store : Store}
      (h : (s.stores shard).settle c now job.id job.token (some error) = .ok (settled, store)) :
      Step s { s with stores := Function.update s.stores shard store, senders := before ++ after }
  | senderStops (before after : List Sender) (worker : Sender) (hwork : s.senders = before ++ worker :: after) :
      Step s { s with senders := before ++ after }
  | accept (now : ℚ) (raw : Bytes) (sender : String) (recipients : List String) {delivery : String} {lost : Bool} {spool : Spool}
      (h : s.spool.accept c now raw sender recipients = .ok ((delivery, lost), spool)) :
      Step s { s with spool := spool, objects := put c raw s.objects }
  | control (loseAck scannerDown : Bool) :
      Step s { s with spool := { s.spool with loseAck := loseAck, scannerDown := scannerDown } }
  | spoolClaim (now leaseSeconds : ℚ) {job : Option Job} {spool : Spool}
      (h : s.spool.claim c now leaseSeconds (c.uuid s.drawn) = (job, spool)) :
      Step s { s with
        spool := spool
        receivers := s.receivers ++ (job.map fun job => ⟨job, .claimed⟩).toList
        drawn := s.drawn + 1
        spoolClaims := (job.map fun job => (job.id, job.token)).toList ++ s.spoolClaims }
  | parse (before after : List Receiver) (job : Job) (hwork : s.receivers = before ++ ⟨job, .claimed⟩ :: after)
      (hscanner : s.spool.scannerDown = false) {raw : Bytes} {descriptor : Descriptor} {body : String}
      (hraw : s.objects.get? job.raw = some raw)
      (h : parseReceived c raw job.sender job.recipients job.id = .ok (descriptor, body)) :
      Step s { s with receivers := before ++ ⟨job, .delivering descriptor body job.recipients⟩ :: after }
  | deliver (before after : List Receiver) (job : Job) (descriptor : Descriptor) (body : String) (recipient : String)
      (left : List String) (hwork : s.receivers = before ++ ⟨job, .delivering descriptor body (recipient :: left)⟩ :: after)
      (answered : Bool) {user : String} {reply : Reply} {store : Store} (huser : localUser c recipient = .ok user)
      (h : (s.stores (c.shardOf user)).receive c user job.id descriptor body = .ok (reply, store)) :
      Step s { s with
        stores := Function.update s.stores (c.shardOf user) store
        receivers := before ++ ⟨job, if answered then .delivering descriptor body left else .failing false⟩ :: after }
  | receiverFails (before after : List Receiver) (worker : Receiver) (rejected : Bool)
      (hwork : s.receivers = before ++ worker :: after) :
      Step s { s with receivers := before ++ { worker with phase := .failing rejected } :: after }
  | finish (before after : List Receiver) (job : Job) (descriptor : Descriptor) (body : String)
      (hwork : s.receivers = before ++ ⟨job, .delivering descriptor body []⟩ :: after) (now : ℚ) {settled : Bool} {spool : Spool}
      (h : s.spool.settle c now job none false = (settled, spool)) :
      Step s { s with spool := spool, receivers := before ++ after }
  | spoolError (before after : List Receiver) (job : Job) (rejected : Bool)
      (hwork : s.receivers = before ++ ⟨job, .failing rejected⟩ :: after) (now : ℚ) (error : String) {settled : Bool} {spool : Spool}
      (h : s.spool.settle c now job (some error) rejected = (settled, spool)) :
      Step s { s with spool := spool, receivers := before ++ after }
  | receiverStops (before after : List Receiver) (worker : Receiver) (hwork : s.receivers = before ++ worker :: after) :
      Step s { s with receivers := before ++ after }

def init : State :=
  ⟨fun _ => ⟨.empty, .empty, .empty, .empty⟩, ⟨.empty, false, false⟩, .empty, [], [], [], 0, [], []⟩

def service : Transitions State where
  start s := s = init
  step := Step c

/-! ### What holds of a state -/

/-- An object is a message with this delivery. -/
def Carries (raw delivery : String) : Prop := ∃ message, c.sha message = raw ∧ c.deliveryIds (c.transmit message) = [delivery]

/-- The spool has the message of an object for its sender and recipients. -/
def Holds (spool : Spool) (delivery raw sender : String) (recipients : List String) : Prop :=
  ∃ message row, c.sha message = raw ∧ spool.rows.get? delivery = some row ∧
    row.hash = Spool.fingerprint c (c.transmit message) sender recipients

/-- The store of a recipient has the message. -/
def Delivered (stores : ℕ → Store) (delivery recipient : String) : Prop :=
  ∃ user r, localUser c recipient = .ok user ∧ (stores (c.shardOf user)).deliveries.get? (user, delivery) = some r

structure Sound (s : State) : Prop where
  fine : ∀ shard, (s.stores shard).Fine c
  objects : ∀ key data, s.objects.get? key = some data → c.sha data = key
  outbox : ∀ shard id row, (s.stores shard).outbox.get? id = some row →
    Carries c row.raw id ∧ (row.status = .done → Holds c s.spool id row.raw row.sender row.recipients)
  spool : ∀ id row, s.spool.rows.get? id = some row → row.status = .done → ∀ r ∈ row.recipients, Delivered c s.stores id r
  sending : ∀ work ∈ s.sending, work.descriptor.deliveryId = Store.name c work.user work.key "delivery" ∧
    work.descriptor.delivery = "queued" ∧ Carries c work.raw work.descriptor.deliveryId
  senders : ∀ worker ∈ s.senders, (∃ row, (s.stores worker.shard).outbox.get? worker.job.id = some row ∧
      row.raw = worker.job.raw ∧ row.sender = worker.job.sender ∧ row.recipients = worker.job.recipients) ∧
    (worker.phase = .accepted → Holds c s.spool worker.job.id worker.job.raw worker.job.sender worker.job.recipients)
  receivers : ∀ worker ∈ s.receivers, (∃ row, s.spool.rows.get? worker.job.id = some row ∧
      row.recipients = worker.job.recipients) ∧
    ∀ descriptor body left, worker.phase = .delivering descriptor body left → ∀ r ∈ worker.job.recipients, r ∈ left ∨
      Delivered c s.stores worker.job.id r

variable {c} {s s' : State}

theorem Holds.mono {spool spool' : Spool} {delivery raw sender : String} {recipients : List String}
    (h : Holds c spool delivery raw sender recipients) (hmoves : spool.Moves spool') :
    Holds c spool' delivery raw sender recipients := by
  obtain ⟨message, row, hsha, hrow, hhash⟩ := h
  obtain ⟨row', hrow', hfollows⟩ := hmoves delivery row hrow
  exact ⟨message, row', hsha, hrow', hfollows.hash.trans hhash⟩

theorem Delivered.mono {stores stores' : ℕ → Store} {delivery recipient : String} (h : Delivered c stores delivery recipient)
    (hmoves : ∀ shard, (stores shard).Moves (stores' shard)) : Delivered c stores' delivery recipient := by
  obtain ⟨user, r, huser, hr⟩ := h
  exact ⟨user, r, huser, (hmoves _).deliveries _ r hr⟩

theorem moves_update {stores : ℕ → Store} {shard : ℕ} {store : Store} (h : (stores shard).Moves store) :
    ∀ shard', (stores shard').Moves (Function.update stores shard store shard') := by
  intro shard'
  by_cases hsame : shard' = shard
  · subst hsame
    rw [Function.update_self]
    exact h
  · rw [Function.update_of_ne hsame]
    exact .refl _

theorem put_objects (data : Bytes) {objects : Dict String Bytes}
    (h : ∀ key value, objects.get? key = some value → c.sha value = key) :
    ∀ key value, (put c data objects).get? key = some value → c.sha value = key := by
  intro key value hget
  unfold put at hget
  split at hget
  · exact h key value hget
  · obtain ⟨rfl, rfl⟩ | ⟨-, hget⟩ := Dict.get?_set_cases hget
    · rfl
    · exact h key value hget

/-- What a change of the tables leaves to be shown; the workers stay as they were. -/
theorem Sound.tables (h : Sound c s) {stores : ℕ → Store} {spool : Spool} {objects : Dict String Bytes}
    (hfine : ∀ shard, (stores shard).Fine c) (hstores : ∀ shard, (s.stores shard).Moves (stores shard))
    (hspool : s.spool.Moves spool) (hobjects : ∀ key data, objects.get? key = some data → c.sha data = key)
    (houtbox : ∀ shard id row, (stores shard).outbox.get? id = some row →
      Carries c row.raw id ∧ (row.status = .done → Holds c spool id row.raw row.sender row.recipients))
    (hdone : ∀ id row, spool.rows.get? id = some row → row.status = .done → ∀ r ∈ row.recipients, Delivered c stores id r) :
    Sound c { s with stores := stores, spool := spool, objects := objects } where
  fine := hfine
  objects := hobjects
  outbox := houtbox
  spool := hdone
  sending := h.sending
  senders worker hworker := by
    obtain ⟨⟨row, hrow, hraw, hsender, hrecipients⟩, haccepted⟩ := h.senders worker hworker
    obtain ⟨row', hrow', hfollows⟩ := (hstores worker.shard).outbox _ row hrow
    exact ⟨⟨row', hrow', hfollows.raw.trans hraw, hfollows.sender.trans hsender, hfollows.recipients.trans hrecipients⟩,
      fun hphase => (haccepted hphase).mono hspool⟩
  receivers worker hworker := by
    obtain ⟨⟨row, hrow, hrecipients⟩, hdelivered⟩ := h.receivers worker hworker
    obtain ⟨row', hrow', hfollows⟩ := hspool _ row hrow
    exact ⟨⟨row', hrow', hfollows.recipients.trans hrecipients⟩, fun descriptor body left hphase r hr =>
      (hdelivered descriptor body left hphase r hr).imp_right fun hold => hold.mono hstores⟩

/-- Workers are replaced by workers of which the same holds. -/
theorem Sound.workers (h : Sound c s) {sending : List Sending} {senders : List Sender} {receivers : List Receiver}
    (hsending : ∀ work ∈ sending, work ∈ s.sending ∨ work.descriptor.deliveryId = Store.name c work.user work.key "delivery" ∧
      work.descriptor.delivery = "queued" ∧ Carries c work.raw work.descriptor.deliveryId)
    (hsenders : ∀ worker ∈ senders, worker ∈ s.senders ∨
      (∃ row, (s.stores worker.shard).outbox.get? worker.job.id = some row ∧
        row.raw = worker.job.raw ∧ row.sender = worker.job.sender ∧ row.recipients = worker.job.recipients) ∧
      (worker.phase = .accepted → Holds c s.spool worker.job.id worker.job.raw worker.job.sender worker.job.recipients))
    (hreceivers : ∀ worker ∈ receivers, worker ∈ s.receivers ∨
      (∃ row, s.spool.rows.get? worker.job.id = some row ∧ row.recipients = worker.job.recipients) ∧
      ∀ descriptor body left, worker.phase = .delivering descriptor body left → ∀ r ∈ worker.job.recipients, r ∈ left ∨
        Delivered c s.stores worker.job.id r) (drawn : ℕ) (outboxClaims : List ((ℕ × String) × String))
    (spoolClaims : List (String × String)) :
    Sound c { s with
      sending := sending, senders := senders, receivers := receivers, drawn := drawn, outboxClaims := outboxClaims,
      spoolClaims := spoolClaims } where
  fine := h.fine
  objects := h.objects
  outbox := h.outbox
  spool := h.spool
  sending work hwork := (hsending work hwork).elim (h.sending work) fun hnew => hnew
  senders worker hworker := (hsenders worker hworker).elim (h.senders worker) fun hnew => hnew
  receivers worker hworker := (hreceivers worker hworker).elim (h.receivers worker) fun hnew => hnew

theorem Sound.setStore (h : Sound c s) {shard : ℕ} {store : Store} (hfine : store.Fine c)
    (hmoves : (s.stores shard).Moves store) (houtbox : ∀ id row, store.outbox.get? id = some row →
      Carries c row.raw id ∧ (row.status = .done → Holds c s.spool id row.raw row.sender row.recipients)) :
    Sound c { s with stores := Function.update s.stores shard store } := by
  have hstores := moves_update hmoves
  refine h.tables (fun shard' => ?_) hstores (.refl s.spool) h.objects (fun shard' id row hrow => ?_)
    fun id row hrow hdone r hr => (h.spool id row hrow hdone r hr).mono hstores
  · by_cases hsame : shard' = shard
    · subst hsame
      rw [Function.update_self]
      exact hfine
    · rw [Function.update_of_ne hsame]
      exact h.fine shard'
  · by_cases hsame : shard' = shard
    · subst hsame
      rw [Function.update_self] at hrow
      exact houtbox id row hrow
    · rw [Function.update_of_ne hsame] at hrow
      exact h.outbox shard' id row hrow

theorem Sound.setSpool (h : Sound c s) {spool : Spool} (hmoves : s.spool.Moves spool)
    (hdone : ∀ id row, spool.rows.get? id = some row → row.status = .done → ∀ r ∈ row.recipients, Delivered c s.stores id r)
    {objects : Dict String Bytes} (hobjects : ∀ key data, objects.get? key = some data → c.sha data = key) :
    Sound c { s with spool := spool, objects := objects } :=
  h.tables h.fine (fun _ => .refl _) hmoves hobjects
    (fun shard id row hrow => ⟨(h.outbox shard id row hrow).1, fun hover => ((h.outbox shard id row hrow).2 hover).mono hmoves⟩)
    hdone

theorem mem_replaced {α : Type} {before after : List α} {x y w : α} {all : List α} (hall : all = before ++ w :: after)
    (h : x ∈ before ++ y :: after) : x ∈ all ∨ x = y := by
  rw [hall]
  rw [mem_append, mem_cons] at h ⊢
  obtain h | rfl | h := h
  · exact .inl (.inl h)
  · exact .inr rfl
  · exact .inl (.inr (.inr h))

theorem mem_removed {α : Type} {before after : List α} {x w : α} {all : List α} (hall : all = before ++ w :: after)
    (h : x ∈ before ++ after) : x ∈ all := by
  rw [hall]
  rw [mem_append] at h
  rw [mem_append, mem_cons]
  exact h.imp_right .inr

/-! ### What a step keeps -/

/-- A message that was prepared carries its delivery. -/
theorem prepare_carries {user : String} {request : Request} {attachments : List (Attachment × Bytes)} {store : Store}
    {work : Sending} {message : Bytes} (h : prepare c user request attachments store = .ok (some (work, message))) :
    work.descriptor.deliveryId = Store.name c work.user work.key "delivery" ∧ work.descriptor.delivery = "queued" ∧
      Carries c work.raw work.descriptor.deliveryId := by
  obtain ⟨_, -, h⟩ := of_bind h
  obtain ⟨_, -, h⟩ := of_bind h
  obtain ⟨_, -, h⟩ := of_bind h
  obtain ⟨_, -, h⟩ := of_bind h
  obtain ⟨_, -, h⟩ := of_bind h
  obtain ⟨_, -, h⟩ := of_bind h
  obtain ⟨_, hsubject, h⟩ := of_bind h
  rw [require_eq_ok] at hsubject
  split at h
  · obtain ⟨_, -, heq⟩ := of_bind h
    cases heq
  · cases h
    exact ⟨rfl, rfl, _, rfl, c.carries _ hsubject.1 hsubject.2 (c.digest_key _)⟩

theorem Sound.enqueue (h : Sound c s) {work : Sending} (hwork : work ∈ s.sending) {now : ℚ} {reply : Reply} {store : Store}
    (henqueue : (s.stores (c.shardOf work.user)).enqueue c now work.user work.key work.fingerprint work.descriptor work.body
      work.raw = .ok (reply, store)) :
    Sound c { s with stores := Function.update s.stores (c.shardOf work.user) store } := by
  obtain ⟨hdelivery, hqueued, hcarries⟩ := h.sending work hwork
  refine h.setStore ((h.fine _).enqueue henqueue hdelivery hqueued) (.enqueue henqueue) fun id row hrow => ?_
  obtain ⟨-, ⟨old, -, -, -, rfl⟩ | ⟨-, -, -, -, rfl⟩⟩ := Store.enqueue_cases henqueue
  · exact h.outbox _ id row hrow
  · obtain ⟨rfl, rfl⟩ | ⟨-, hrow⟩ := Dict.get?_set_cases hrow
    · exact ⟨hcarries, nofun⟩
    · exact h.outbox _ id row hrow

theorem Sound.claim (h : Sound c s) {shard : ℕ} {now : ℚ} {leaseSeconds : ℕ} {token : String} {job : Option Job} {store : Store}
    (hclaim : (s.stores shard).claim c now leaseSeconds token = .ok (job, store)) :
    Sound c { s with stores := Function.update s.stores shard store } ∧ ∀ held, job = some held →
      ∃ row, store.outbox.get? held.id = some row ∧ row.raw = held.raw ∧ row.sender = held.sender ∧
        row.recipients = held.recipients := by
  obtain ⟨hfine, hmoves⟩ := (h.fine shard).claim hclaim
  obtain ⟨rfl, rfl⟩ | ⟨id, row, lease, hrow, hopen, rfl, rfl⟩ := Store.claim_cases hclaim
  · exact ⟨h.setStore hfine hmoves (h.outbox shard), nofun⟩
  · refine ⟨h.setStore hfine hmoves fun id' row' hrow' => ?_, fun held hheld => ?_⟩
    · obtain ⟨rfl, rfl⟩ | ⟨-, hrow'⟩ := Dict.get?_set_cases hrow'
      · exact ⟨(h.outbox shard id' row hrow).1, nofun⟩
      · exact h.outbox shard id' row' hrow'
    · cases hheld
      exact ⟨_, Dict.get?_set_self _ _ _, rfl, rfl, rfl⟩

theorem Sound.settle (h : Sound c s) {worker : Sender} (hworker : worker ∈ s.senders) {now : ℚ} (error : Option String)
    (haccepted : error = none → worker.phase = .accepted) {settled : Bool} {store : Store}
    (hsettle : (s.stores worker.shard).settle c now worker.job.id worker.job.token error = .ok (settled, store)) :
    Sound c { s with stores := Function.update s.stores worker.shard store } := by
  obtain ⟨hfine, hmoves⟩ := (h.fine worker.shard).settle hsettle
  refine h.setStore hfine hmoves fun id row hrow => ?_
  obtain ⟨-, rfl⟩ | ⟨old, hold, -, -, -, ⟨-, due, text, rfl⟩ | ⟨herror, mail, -, rfl⟩⟩ := Store.settle_cases hsettle
  · exact h.outbox _ id row hrow
  · obtain ⟨rfl, rfl⟩ | ⟨-, hrow⟩ := Dict.get?_set_cases hrow
    · exact ⟨(h.outbox _ _ old hold).1, nofun⟩
    · exact h.outbox _ id row hrow
  · obtain ⟨rfl, rfl⟩ | ⟨-, hrow⟩ := Dict.get?_set_cases hrow
    · refine ⟨(h.outbox _ _ old hold).1, fun _ => ?_⟩
      obtain ⟨⟨row', hrow', hraw, hsender, hrecipients⟩, hholds⟩ := h.senders worker hworker
      cases hold.symm.trans hrow'
      have hspool := hholds (haccepted herror)
      rw [← hraw, ← hsender, ← hrecipients] at hspool
      exact hspool
    · exact h.outbox _ id row hrow

theorem Sound.deliver (h : Sound c s) {user delivery body : String} {d : Descriptor} {reply : Reply} {store : Store}
    (hreceive : (s.stores (c.shardOf user)).receive c user delivery d body = .ok (reply, store)) :
    Sound c { s with stores := Function.update s.stores (c.shardOf user) store } ∧
      ∃ r, store.deliveries.get? (user, delivery) = some r := by
  have hsame : store.outbox = (s.stores (c.shardOf user)).outbox ∧ ∃ r, store.deliveries.get? (user, delivery) = some r := by
    obtain ⟨-, -, ⟨prior, hprior, rfl⟩ | ⟨hash, -, -, rfl⟩⟩ := Store.receive_cases hreceive
    · exact ⟨rfl, prior, hprior⟩
    · exact ⟨rfl, _, Dict.get?_set_self _ _ _⟩
  refine ⟨h.setStore ((h.fine _).receive hreceive) (.receive hreceive) fun id row hrow => ?_, hsame.2⟩
  rw [hsame.1] at hrow
  exact h.outbox _ id row hrow

theorem Sound.accept (h : Sound c s) {now : ℚ} {raw : Bytes} {sender delivery : String} {recipients : List String} {lost : Bool}
    {spool : Spool} (haccept : s.spool.accept c now raw sender recipients = .ok ((delivery, lost), spool)) :
    Sound c { s with spool := spool, objects := put c raw s.objects } := by
  refine h.setSpool (.accept haccept) (fun id row hrow hdone => ?_) (put_objects _ h.objects)
  obtain ⟨-, ⟨prior, -, -, rfl⟩ | ⟨-, rfl⟩⟩ := Spool.accept_cases haccept
  · exact h.spool id row hrow hdone
  · obtain ⟨-, rfl⟩ | ⟨-, hrow⟩ := Dict.get?_set_cases hrow
    · cases hdone
    · exact h.spool id row hrow hdone

/-- The spool has what a sender was told was accepted. -/
theorem Sound.accepted (h : Sound c s) {worker : Sender} (hworker : worker ∈ s.senders) {now : ℚ} {raw : Bytes}
    (hraw : s.objects.get? worker.job.raw = some raw) {delivery : String} {lost : Bool} {spool : Spool}
    (haccept : s.spool.accept c now (c.transmit raw) worker.job.sender worker.job.recipients = .ok ((delivery, lost), spool)) :
    Holds c spool worker.job.id worker.job.raw worker.job.sender worker.job.recipients := by
  obtain ⟨⟨row, hrow, hrowRaw, -, -⟩, -⟩ := h.senders worker hworker
  obtain ⟨message, hsha, hids⟩ := (h.outbox _ _ row hrow).1
  have hsame : message = raw := c.sha_injective ((hsha.trans hrowRaw).trans (h.objects _ raw hraw).symm)
  subst hsame
  obtain ⟨hids', hcase⟩ := Spool.accept_cases haccept
  cases hids.symm.trans hids'
  obtain ⟨prior, hprior, hhash, rfl⟩ | ⟨-, rfl⟩ := hcase
  · exact ⟨message, prior, hsha.trans hrowRaw, hprior, hhash⟩
  · exact ⟨message, _, hsha.trans hrowRaw, Dict.get?_set_self _ _ _, rfl⟩

theorem Sound.spoolClaim (h : Sound c s) {now leaseSeconds : ℚ} {token : String} {job : Option Job} {spool : Spool}
    (hclaim : s.spool.claim c now leaseSeconds token = (job, spool)) : Sound c { s with spool := spool } ∧
      ∀ held, job = some held → ∃ row, spool.rows.get? held.id = some row ∧ row.recipients = held.recipients := by
  obtain ⟨rfl, rfl⟩ | ⟨id, row, lease, hrow, hpending, rfl, rfl⟩ := Spool.claim_cases hclaim
  · exact ⟨h, nofun⟩
  · refine ⟨h.setSpool (.claim hclaim) (fun id' row' hrow' hdone => ?_) h.objects, fun held hheld => ?_⟩
    · obtain ⟨-, rfl⟩ | ⟨-, hrow'⟩ := Dict.get?_set_cases hrow'
      · rw [hpending] at hdone
        cases hdone
      · exact h.spool id' row' hrow' hdone
    · cases hheld
      exact ⟨_, Dict.get?_set_self _ _ _, rfl⟩

theorem Sound.spoolSettle (h : Sound c s) {worker : Receiver} (hworker : worker ∈ s.receivers) {now : ℚ} (error : Option String)
    {rejected settled : Bool} {spool : Spool}
    (hphase : error = none → ∃ descriptor body, worker.phase = .delivering descriptor body [])
    (hsettle : s.spool.settle c now worker.job error rejected = (settled, spool)) : Sound c { s with spool := spool } := by
  obtain ⟨-, rfl⟩ | ⟨row, row', hrow, hpending, -, hhash, hrecipients, -, hdone, rfl⟩ := Spool.settle_cases hsettle
  · exact h
  · refine h.setSpool (.settle hsettle) (fun id new hnew hover r hr => ?_) h.objects
    obtain ⟨rfl, rfl⟩ | ⟨-, hnew⟩ := Dict.get?_set_cases hnew
    · obtain ⟨descriptor, body, hleft⟩ := hphase (hdone hover)
      obtain ⟨⟨old, hold, hsame⟩, hdelivered⟩ := h.receivers worker hworker
      cases hrow.symm.trans hold
      rw [hrecipients, hsame] at hr
      exact (hdelivered descriptor body [] hleft r hr).resolve_left not_mem_nil
    · exact h.spool id new hnew hover r hr

theorem Sound.step (h : Sound c s) (hstep : Step c s s') : Sound c s' := by
  cases hstep with
  | prepare user request attachments hprepare =>
    rename_i work message
    have hput := h.setSpool (.refl s.spool) h.spool (put_objects message h.objects)
    refine hput.workers (fun other hwork => ?_) (fun _ hworker => .inl hworker) (fun _ hworker => .inl hworker) _ _ _
    obtain hwork | hwork := mem_append.mp hwork
    · exact .inl hwork
    · rw [mem_singleton.mp hwork]
      exact .inr (prepare_carries hprepare)
  | enqueue before after work hwork now henqueue =>
    have hmem : work ∈ s.sending := hwork ▸ mem_append_right _ mem_cons_self
    exact (h.enqueue hmem henqueue).workers (fun _ hrest => .inl (mem_removed hwork hrest)) (fun _ hworker => .inl hworker)
      (fun _ hworker => .inl hworker) _ _ _
  | abandon before after work hwork =>
    exact h.workers (fun _ hrest => .inl (mem_removed hwork hrest)) (fun _ hworker => .inl hworker)
      (fun _ hworker => .inl hworker) _ _ _
  | put data => exact h.setSpool (.refl s.spool) h.spool (put_objects _ h.objects)
  | claim shard now leaseSeconds hclaim =>
    rename_i job store
    obtain ⟨hstore, hheld⟩ := h.claim hclaim
    refine hstore.workers (fun _ hwork => .inl hwork) (fun worker hworker => ?_) (fun _ hworker => .inl hworker) _ _ _
    obtain hworker | hworker := mem_append.mp hworker
    · exact .inl hworker
    · obtain ⟨held, hjob, rfl⟩ := Option.map_eq_some_iff.mp (Option.mem_toList.mp hworker)
      obtain ⟨row, hrow, hrest⟩ := hheld held hjob
      refine .inr ⟨⟨row, ?_, hrest⟩, nofun⟩
      change (Function.update s.stores shard store shard).outbox.get? held.id = some row
      rw [Function.update_self]
      exact hrow
  | smtp before after shard job hwork now answered hraw haccept =>
    have hmem : (⟨shard, job, .claimed⟩ : Sender) ∈ s.senders := hwork ▸ mem_append_right _ mem_cons_self
    refine (h.accept haccept).workers (fun _ hwork => .inl hwork) (fun worker hworker => ?_) (fun _ hworker => .inl hworker) _ _ _
    refine (mem_replaced hwork hworker).imp_right fun heq => ?_
    rw [heq]
    exact ⟨(h.senders _ hmem).1, fun _ => h.accepted hmem hraw haccept⟩
  | senderFails before after worker hwork =>
    have hmem : worker ∈ s.senders := hwork ▸ mem_append_right _ mem_cons_self
    refine h.workers (fun _ hwork => .inl hwork) (fun worker' hworker => ?_) (fun _ hworker => .inl hworker) _ _ _
    refine (mem_replaced hwork hworker).imp_right fun heq => ?_
    rw [heq]
    exact ⟨(h.senders worker hmem).1, nofun⟩
  | settle before after shard job hwork now answered hsettle =>
    have hmem : (⟨shard, job, .accepted⟩ : Sender) ∈ s.senders := hwork ▸ mem_append_right _ mem_cons_self
    have hstore := h.settle hmem none (fun _ => rfl) hsettle
    refine hstore.workers (fun _ hwork => .inl hwork) (fun worker' hworker => ?_) (fun _ hworker => .inl hworker) _ _ _
    cases answered with
    | true => exact .inl (mem_removed hwork hworker)
    | false =>
      refine (mem_replaced hwork hworker).imp_right fun heq => ?_
      rw [heq]
      exact ⟨(hstore.senders _ hmem).1, nofun⟩
  | settleError before after shard job hwork now error hsettle =>
    have hmem : (⟨shard, job, .failed⟩ : Sender) ∈ s.senders := hwork ▸ mem_append_right _ mem_cons_self
    exact (h.settle hmem (some error) nofun hsettle).workers (fun _ hwork => .inl hwork)
      (fun _ hworker => .inl (mem_removed hwork hworker)) (fun _ hworker => .inl hworker) _ _ _
  | senderStops before after worker hwork =>
    exact h.workers (fun _ hwork => .inl hwork) (fun _ hworker => .inl (mem_removed hwork hworker))
      (fun _ hworker => .inl hworker) _ _ _
  | accept now raw sender recipients haccept => exact h.accept haccept
  | control loseAck scannerDown =>
    have hmoves : s.spool.Moves { s.spool with loseAck := loseAck, scannerDown := scannerDown } :=
      fun id row hrow => ⟨row, hrow, .refl row⟩
    exact h.setSpool hmoves h.spool h.objects
  | spoolClaim now leaseSeconds hclaim =>
    obtain ⟨hspool, hheld⟩ := h.spoolClaim hclaim
    refine hspool.workers (fun _ hwork => .inl hwork) (fun _ hworker => .inl hworker) (fun worker hworker => ?_) _ _ _
    obtain hworker | hworker := mem_append.mp hworker
    · exact .inl hworker
    · obtain ⟨held, hjob, rfl⟩ := Option.map_eq_some_iff.mp (Option.mem_toList.mp hworker)
      exact .inr ⟨hheld held hjob, nofun⟩
  | parse before after job hwork hscanner hraw hparse =>
    have hmem : (⟨job, .claimed⟩ : Receiver) ∈ s.receivers := hwork ▸ mem_append_right _ mem_cons_self
    refine h.workers (fun _ hwork => .inl hwork) (fun _ hworker => .inl hworker) (fun worker hworker => ?_) _ _ _
    refine (mem_replaced hwork hworker).imp_right fun heq => ?_
    rw [heq]
    refine ⟨(h.receivers _ hmem).1, fun descriptor body left hphase r hr => .inl ?_⟩
    cases hphase
    exact hr
  | deliver before after job descriptor body recipient left hwork answered huser hreceive =>
    rename_i user reply store
    have hmem : (⟨job, .delivering descriptor body (recipient :: left)⟩ : Receiver) ∈ s.receivers :=
      hwork ▸ mem_append_right _ mem_cons_self
    obtain ⟨hstore, r', hr'⟩ := h.deliver hreceive
    refine hstore.workers (fun _ hwork => .inl hwork) (fun _ hworker => .inl hworker) (fun worker hworker => ?_) _ _ _
    refine (mem_replaced hwork hworker).imp_right fun heq => ?_
    rw [heq]
    refine ⟨(h.receivers _ hmem).1, fun descriptor' body' left' hphase r hr => ?_⟩
    cases answered with
    | false => cases hphase
    | true =>
      cases hphase
      obtain hleft | hdelivered := (hstore.receivers _ hmem).2 descriptor body (recipient :: left) rfl r hr
      · obtain rfl | hleft := mem_cons.mp hleft
        · refine .inr ⟨user, r', huser, ?_⟩
          change (Function.update s.stores (c.shardOf user) store (c.shardOf user)).deliveries.get? (user, job.id) = some r'
          rw [Function.update_self]
          exact hr'
        · exact .inl hleft
      · exact .inr hdelivered
  | receiverFails before after worker rejected hwork =>
    have hmem : worker ∈ s.receivers := hwork ▸ mem_append_right _ mem_cons_self
    refine h.workers (fun _ hwork => .inl hwork) (fun _ hworker => .inl hworker) (fun worker' hworker => ?_) _ _ _
    refine (mem_replaced hwork hworker).imp_right fun heq => ?_
    rw [heq]
    exact ⟨(h.receivers worker hmem).1, nofun⟩
  | finish before after job descriptor body hwork now hsettle =>
    have hmem : (⟨job, .delivering descriptor body []⟩ : Receiver) ∈ s.receivers :=
      hwork ▸ mem_append_right _ mem_cons_self
    exact (h.spoolSettle hmem none (fun _ => ⟨descriptor, body, rfl⟩) hsettle).workers (fun _ hwork => .inl hwork)
      (fun _ hworker => .inl hworker) (fun _ hworker => .inl (mem_removed hwork hworker)) _ _ _
  | spoolError before after job rejected hwork now error hsettle =>
    have hmem : (⟨job, .failing rejected⟩ : Receiver) ∈ s.receivers := hwork ▸ mem_append_right _ mem_cons_self
    exact (h.spoolSettle hmem (some error) nofun hsettle).workers (fun _ hwork => .inl hwork)
      (fun _ hworker => .inl hworker) (fun _ hworker => .inl (mem_removed hwork hworker)) _ _ _
  | receiverStops before after worker hwork =>
    exact h.workers (fun _ hwork => .inl hwork) (fun _ hworker => .inl hworker)
      (fun _ hworker => .inl (mem_removed hwork hworker)) _ _ _

end SystemDesign.Email
