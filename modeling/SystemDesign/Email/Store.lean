import SystemDesign.Lib.Json
import SystemDesign.Lib.Transaction
import SystemDesign.Lib.Transitions

/-!
One shard of the mail store and the receive spool (`store.py`, `mail.py`, `spool.py`).

Every function is one transaction. A store keeps the rows that sending and receiving read:
postings and the change log are written along with a mail and are left out.
-/

namespace SystemDesign.Email

inductive Error where
  | value (message : String)
  | http (status : ℕ) (message : String)
  | integrity

abbrev Bytes := List UInt8

/-- `text.encode()`. -/
def utf8 (text : String) : Bytes := text.toList.flatMap String.utf8EncodeChar

inductive Folder where
  | inbox
  | sent
  | spam
  | quarantine
deriving DecidableEq

structure Attachment where
  key : String
  size : ℕ
  filename : String

structure Descriptor where
  deliveryId : String
  sender : String
  recipients : List String
  subject : String
  bodyKey : String
  attachments : List Attachment
  folder : Folder
  delivery : String
  scan : String
  scanEngine : String

/-- What `mail.send` makes a message from. -/
structure Outgoing where
  user : String
  recipients : List String
  subject : String
  content : String
  delivery : String
  attachments : List (String × Bytes)

/-- What is left of a received message after MIME is decoded. -/
structure Mime where
  subject : String
  body : String
  /-- The message and its decoded parts. -/
  scanned : Bytes
  attachments : List (String × Bytes)

/-- A hexadecimal digest, as `object_key` checks it. -/
def isKey (key : String) : Bool :=
  key.length = 64 && key.toList.all fun ch => ('0' ≤ ch && ch ≤ '9') || ('a' ≤ ch && ch ≤ 'f')

/-- The configuration, the libraries for digests and MIME and the source of tokens. -/
structure Setup where
  digest : Json → String
  digest_key : ∀ value, isKey (digest value) = true
  sha : Bytes → String
  sha_injective : Function.Injective sha
  terms : String → List String
  uuid : ℕ → String
  uuid_injective : Function.Injective uuid
  uuid_ne : ∀ n, uuid n ≠ ""
  plus : ℚ → ℚ → ℚ
  /-- `0.1 * 2 ** n`, at most ten. -/
  backoff : ℕ → ℚ
  users : List String
  shardOf : String → ℕ
  testMarkers : Bool
  /-- `message.as_bytes()` of a message with an `X-Delivery-ID`. -/
  compose : Outgoing → Bytes
  /-- What the SMTP server reads of what the SMTP client is given. -/
  transmit : Bytes → Bytes
  /-- The `X-Delivery-ID` headers of a message. -/
  deliveryIds : Bytes → List String
  mime : Bytes → Except Error Mime
  carries : ∀ m : Outgoing, '\r' ∉ m.subject.toList → '\n' ∉ m.subject.toList → isKey m.delivery = true →
    deliveryIds (transmit (compose m)) = [m.delivery]

variable (c : Setup)

/-! ### Validation -/

/-- `identifier`. -/
def identifier (value : String) : Except Error Unit :=
  require (1 ≤ value.length ∧ value.length ≤ 80 ∧
    value.toList.all (fun ch => ch.isAlphanum || ch = '_' || ch = '-') = true) (.value "invalid identifier")

/-- `text`. -/
def text (value name : String) (maximum : ℕ) : Except Error Unit :=
  require (value.length ≤ maximum ∧ '\x00' ∉ value.toList) (.value ("invalid " ++ name))

/-- `local_user`. -/
def localUser (value : String) : Except Error String :=
  match value.toList.splitOn '@' with
  | [user, domain] => do
    require (domain.map Char.toLower = "local.test".toList ∧ String.ofList user ∈ c.users)
      (.http 403 "only configured local.test test recipients are allowed")
    return String.ofList user
  | _ => .error (.value "invalid local address")

/-- `local_address`. -/
def localAddress (value : String) : Except Error Unit := do
  text value "local address" 254
  match value.toList.splitOn '@' with
  | [user, domain] => do
    identifier (String.ofList user)
    require (domain.map Char.toLower = "local.test".toList) (.value "local.test address required")
  | _ => .error (.value "invalid local address")

/-- `attachment`. -/
def checkAttachment (a : Attachment) : Except Error Unit := do
  require (isKey a.key = true) (.value "invalid object key")
  require (a.size ≤ 2 * 1024 * 1024) (.value "invalid attachment size")
  text a.filename "filename" 200
  require (a.filename ≠ "" ∧ a.filename.toList.all (fun ch => ch ∉ ['/', '\\', '\r', '\n']) = true)
    (.value "attachment filename must be a plain basename")

/-- `descriptor`. -/
def checkDescriptor (d : Descriptor) : Except Error Unit := do
  text d.subject "subject" 200
  require ('\r' ∉ d.subject.toList ∧ '\n' ∉ d.subject.toList) (.value "subject header injection")
  localAddress d.sender
  require (1 ≤ d.recipients.length ∧ d.recipients.length ≤ 10) (.value "1..10 recipients required")
  d.recipients.forM localAddress
  require d.recipients.Nodup (.value "distinct recipients required")
  identifier d.deliveryId
  require (isKey d.bodyKey = true) (.value "invalid object key")
  require (d.attachments.length ≤ 3) (.value "at most three attachments")
  d.attachments.forM checkAttachment
  text d.scan "scan" 80
  text d.scanEngine "scan_engine" 80
  text d.delivery "delivery" 80

/-- `indexed_message`. -/
def indexedMessage (d : Descriptor) (body : String) : Except Error Unit := do
  checkDescriptor d
  text body "body" 65536
  require ((c.terms d.subject ++ c.terms d.sender ++ c.terms body).length ≤ 4096)
    (.http 422 "message exceeds 4096 indexed field terms")

/-! ### The mail store -/

structure Mail where
  user : String
  descriptor : Descriptor
  version : ℕ

/-- What `settle` makes of a mail that was sent. -/
def Mail.smtpAccepted (mail : Mail) : Mail :=
  { mail with descriptor := { mail.descriptor with delivery := "smtp-accepted" }, version := mail.version + 1 }

/-- A row of `receipts` or of `deliveries`. -/
structure Receipt where
  hash : String
  mail : String

inductive Status where
  | pending
  | inflight
  | done
deriving DecidableEq

structure Outbox where
  user : String
  mail : String
  raw : String
  sender : String
  recipients : List String
  status : Status
  attempts : ℕ
  due : ℚ
  lease : ℚ
  token : String
  error : String

structure Store where
  mails : Dict String Mail
  receipts : Dict (String × String) Receipt
  deliveries : Dict (String × String) Receipt
  outbox : Dict String Outbox

structure Reply where
  id : String
  duplicate : Bool

/-- What a worker holds of a claimed row. -/
structure Job where
  id : String
  token : String
  raw : String
  sender : String
  recipients : List String
  attempts : ℕ

namespace Store

/-- `digest([user, key, kind])`. -/
def name (user key kind : String) : String := c.digest (.arr [.str user, .str key, .str kind])

/-- `insert_mail`. -/
def insertMail (user mail : String) (d : Descriptor) (store : Store) : Except Error Store := do
  require ((store.mails.get? mail).isNone = true) .integrity
  return { store with mails := store.mails.set mail ⟨user, d, 1⟩ }

/-- `enqueue`, after the checks of the owner. -/
def enqueue (now : ℚ) (user key fingerprint : String) (d : Descriptor) (body raw : String) (store : Store) :
    Except Error (Reply × Store) := do
  identifier key
  indexedMessage c d body
  require (d.folder = .sent) (.value "outbound message belongs in sent folder")
  require (fingerprint ≠ "" ∧ fingerprint.length ≤ 200) (.value "invalid send fingerprint")
  require (raw ≠ "" ∧ raw.length ≤ 80) (.value "invalid raw object reference")
  match store.receipts.get? (user, key) with
  | some old => do
    require (old.hash = fingerprint) (.http 409 "send idempotency payload conflict")
    return (⟨old.mail, true⟩, store)
  | none => do
    let inserted ← store.insertMail user (name c user key "sent") d
    require ((inserted.outbox.get? d.deliveryId).isNone = true) .integrity
    return (⟨name c user key "sent", false⟩, { inserted with
      receipts := inserted.receipts.set (user, key) ⟨fingerprint, name c user key "sent"⟩
      outbox := inserted.outbox.set d.deliveryId
        ⟨user, name c user key "sent", raw, d.sender, d.recipients, .pending, 0, now, 0, "", ""⟩ })

def Attachment.toJson (a : Attachment) : Json :=
  .obj [("key", .str a.key), ("size", .int a.size), ("filename", .str a.filename)]

def folderName : Folder → String
  | .inbox => "inbox"
  | .sent => "sent"
  | .spam => "spam"
  | .quarantine => "quarantine"

def descriptorJson (d : Descriptor) : Json :=
  .obj [("delivery_id", .str d.deliveryId), ("sender", .str d.sender), ("recipients", .arr (d.recipients.map .str)),
    ("subject", .str d.subject), ("body_key", .str d.bodyKey), ("attachments", .arr (d.attachments.map Attachment.toJson)),
    ("folder", .str (folderName d.folder)), ("delivery", .str d.delivery), ("scan", .str d.scan),
    ("scan_engine", .str d.scanEngine)]

/-- `receive`, after the checks of the owner. -/
def receive (user delivery : String) (d : Descriptor) (body : String) (store : Store) : Except Error (Reply × Store) := do
  identifier delivery
  indexedMessage c d body
  require (d.folder ≠ .sent ∧ d.deliveryId = delivery) (.value "invalid received delivery descriptor")
  let fingerprint := c.digest (.obj [("descriptor", descriptorJson d), ("body", .str body)])
  match store.deliveries.get? (user, delivery) with
  | some prior => do
    require (prior.hash = fingerprint) (.http 409 "delivery payload conflict")
    return (⟨prior.mail, true⟩, store)
  | none => do
    let inserted ← store.insertMail user (name c user delivery "inbox") d
    return (⟨name c user delivery "inbox", false⟩, { inserted with
      deliveries := inserted.deliveries.set (user, delivery) ⟨fingerprint, name c user delivery "inbox"⟩ })

/-- The first row in the order of `due` and `id`. -/
def first {ρ : Type} (due : ρ → ℚ) (rows : List (String × ρ)) : Option (String × ρ) :=
  (rows.mergeSort fun row row' => due row.2 < due row'.2 ∨ due row.2 = due row'.2 ∧ row.1 ≤ row'.1).head?

/-- `claim`, with the token that is drawn. -/
def claim (now : ℚ) (leaseSeconds : ℕ) (token : String) (store : Store) : Except Error (Option Job × Store) := do
  require (1 ≤ leaseSeconds ∧ leaseSeconds ≤ 60) (.value "invalid lease seconds")
  match first Outbox.due (store.outbox.entries.filter fun entry =>
      (entry.2.status = .pending && entry.2.due ≤ now) || (entry.2.status = .inflight && entry.2.lease ≤ now)) with
  | none => return (none, store)
  | some (id, row) =>
    return (some ⟨id, token, row.raw, row.sender, row.recipients, row.attempts + 1⟩, { store with
      outbox := store.outbox.set id { row with
        status := .inflight
        attempts := row.attempts + 1
        lease := c.plus now leaseSeconds
        token := token } })

/-- `settle`. -/
def settle (now : ℚ) (id token : String) (error : Option String) (store : Store) : Except Error (Bool × Store) := do
  identifier id
  identifier token
  match store.outbox.get? id with
  | none => return (false, store)
  | some row =>
    if row.token = token ∧ row.status = .inflight ∧ now < row.lease then
      match error with
      | some error => return (true, { store with
          outbox := store.outbox.set id { row with
            status := .pending
            due := c.plus now (c.backoff (min row.attempts 6))
            error := String.ofList (error.toList.take 300)
            lease := 0
            token := "" } })
      | none =>
        match store.mails.get? row.mail with
        | none => .error .integrity
        | some mail => return (true, { store with
            outbox := store.outbox.set id { row with status := .done, error := "", lease := 0, token := "" }
            mails := store.mails.set row.mail mail.smtpAccepted })
    else return (false, store)

end Store

/-! ### The spool -/

inductive SpoolStatus where
  | pending
  | done
  | rejected
deriving DecidableEq

structure SpoolRow where
  hash : String
  raw : String
  sender : String
  recipients : List String
  status : SpoolStatus
  attempts : ℕ
  due : ℚ
  error : String
  lease : ℚ
  token : String

structure Spool where
  rows : Dict String SpoolRow
  loseAck : Bool
  scannerDown : Bool

namespace Spool

/-- `accept`: the delivery and whether its acknowledgement is to be lost. -/
def accept (now : ℚ) (raw : Bytes) (sender : String) (recipients : List String) (spool : Spool) :
    Except Error ((String × Bool) × Spool) := do
  require (raw ≠ [] ∧ raw.length ≤ 8 * 1024 * 1024) (.value "RFC message must be 1 byte..8 MiB")
  let _ ← localUser c sender
  require (1 ≤ recipients.length ∧ recipients.length ≤ 10) (.value "1..10 distinct local recipients required")
  let _ ← recipients.mapM (localUser c)
  require recipients.Nodup (.value "duplicate recipient")
  match c.deliveryIds raw with
  | [delivery] => do
    require (isKey delivery = true) (.value "local transport requires one stable X-Delivery-ID")
    let fingerprint := c.digest (.arr [.str (c.sha raw), .str sender, .arr (recipients.map .str)])
    match spool.rows.get? delivery with
    | some prior => do
      require (prior.hash = fingerprint) (.http 409 "SMTP delivery ID payload conflict")
      return ((delivery, spool.loseAck), spool)
    | none => return ((delivery, spool.loseAck), { spool with
        rows := spool.rows.set delivery ⟨fingerprint, c.sha raw, sender, recipients, .pending, 0, now, "", 0, ""⟩ })
  | _ => .error (.value "local transport requires one stable X-Delivery-ID")

/-- `claim`, with the token that is drawn. -/
def claim (now leaseSeconds : ℚ) (token : String) (spool : Spool) : Option Job × Spool :=
  match Store.first SpoolRow.due (spool.rows.entries.filter fun entry =>
      entry.2.status = .pending && entry.2.due ≤ now && entry.2.lease ≤ now) with
  | none => (none, spool)
  | some (id, row) =>
    (some ⟨id, token, row.raw, row.sender, row.recipients, row.attempts + 1⟩, { spool with
      rows := spool.rows.set id { row with
        token := token
        lease := c.plus now leaseSeconds
        attempts := row.attempts + 1 } })

/-- `settle`. -/
def settle (now : ℚ) (job : Job) (error : Option String) (rejected : Bool) (spool : Spool) : Bool × Spool :=
  match spool.rows.get? job.id with
  | none => (false, spool)
  | some row =>
    if row.status = .pending ∧ row.token = job.token ∧ now < row.lease then
      (true, { spool with
        rows := spool.rows.set job.id { row with
          status := if rejected then .rejected else if error.isSome then .pending else .done
          due := c.plus now (c.backoff (min (job.attempts - 1) 6))
          error := match error with
            | some error => String.ofList (error.toList.take 300)
            | none => ""
          lease := 0
          token := "" } })
    else (false, spool)

end Spool

/-! ### Messages -/

/-- `scan` of the configured scanner. -/
def scan (scanned : Bytes) : Folder × String × String :=
  if c.testMarkers then
    if utf8 "LOCAL_TEST_VIRUS_MARKER" <:+: scanned then (.quarantine, "test-marker-blocked", "test-markers-only")
    else if utf8 "LOCAL_TEST_SPAM_MARKER" <:+: scanned then (.spam, "test-marker-spam", "test-markers-only")
    else (.inbox, "test-policy-pass", "test-markers-only")
  else (.quarantine, "unscanned", "none")

/-- `parse_received`; decoding MIME is left to the library. -/
def parseReceived (raw : Bytes) (sender : String) (recipients : List String) (delivery : String) :
    Except Error (Descriptor × String) := do
  require (raw ≠ [] ∧ raw.length ≤ 8 * 1024 * 1024) (.value "RFC message exceeds 8 MiB")
  let message ← c.mime raw
  text message.body "body" 65536
  text message.subject "subject" 200
  let (folder, status, engine) := scan c message.scanned
  return (⟨delivery, sender, recipients, message.subject, c.sha (utf8 message.body),
    message.attachments.map fun a => ⟨c.sha a.2, a.2.length, a.1⟩, folder, "received", status, engine⟩, message.body)

/-- What a client sends. -/
structure Request where
  requestKey : String
  recipients : List String
  subject : String
  body : String
  attachmentIds : List String

def Request.toJson (request : Request) : Json :=
  .obj [("request_key", .str request.requestKey), ("to", .arr (request.recipients.map .str)), ("subject", .str request.subject),
    ("body", .str request.body), ("attachment_ids", .arr (request.attachmentIds.map .str))]

/-- A call of `send` that is about to enqueue. -/
structure Sending where
  user : String
  key : String
  fingerprint : String
  descriptor : Descriptor
  body : String
  raw : String

def address (user : String) : String := user ++ "@local.test"

/-- `send` up to `enqueue`, with its attachments: what to enqueue and the message. -/
def prepare (user : String) (request : Request) (attachments : List (Attachment × Bytes)) (store : Store) :
    Except Error (Option (Sending × Bytes)) := do
  identifier request.requestKey
  require (1 ≤ request.recipients.length ∧ request.recipients.length ≤ 10) (.value "1..10 distinct local recipients required")
  let _ ← request.recipients.mapM (localUser c)
  require request.recipients.Nodup (.value "1..10 distinct local recipients required")
  text request.subject "subject" 200
  text request.body "body" 65536
  require ('\r' ∉ request.subject.toList ∧ '\n' ∉ request.subject.toList) (.value "subject header injection")
  match store.receipts.get? (user, request.requestKey) with
  | some old => do
    require (old.hash = c.digest request.toJson) (.http 409 "send idempotency payload conflict")
    return none
  | none => do
    let delivery := Store.name c user request.requestKey "delivery"
    let message := c.compose ⟨user, request.recipients, request.subject, request.body, delivery,
      attachments.map fun a => (a.1.filename, a.2)⟩
    return some (⟨user, request.requestKey, c.digest request.toJson,
      ⟨delivery, address user, request.recipients, request.subject, c.sha (utf8 request.body), attachments.map (·.1), .sent,
        "queued", "not-scanned-outbound", "none"⟩, request.body, c.sha message⟩, message)

end SystemDesign.Email
