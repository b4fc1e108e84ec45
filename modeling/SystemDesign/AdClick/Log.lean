import SystemDesign.AdClick.Records

/-!
The partitioned event log (`log.py`).

The rows of the events table are in the order of their acceptance, by event id. `append`
writes its rows as it accepts them; its transaction commits them together with the heads.

Its pages are read from it (`log.py`) and checked again where they are used (`records.py`, `recovery.py`).
-/

namespace SystemDesign.AdClick

structure LogRow (τ : Type) where
  hash : String
  partition : ℕ
  seq : ℕ
  payload : String
  accepted : τ

/-- The log; `heads` holds the last sequence number of each partition. -/
structure EventLog (τ : Type) where
  lineage : String
  maxEvents : ℕ
  heads : List ℕ
  events : Dict String (LogRow τ)

structure LogReceipt where
  partition : ℕ
  seq : ℕ
  duplicate : Bool

/-- The clock: `int(now)`, and the check of `timestamp`. -/
structure Clock (τ : Type) where
  floor : τ → ℤ
  valid : τ → Bool

def EventLog.partitions {τ : Type} (log : EventLog τ) : ℕ := log.heads.length

/-- `EventLog.__init__` on an empty database. -/
def EventLog.init {τ : Type} (lineage : String) (partitions maxEvents : ℕ) : EventLog τ where
  lineage := lineage
  maxEvents := maxEvents
  heads := List.replicate partitions 0
  events := .empty

def hexValue (c : Char) : ℕ := if c.isDigit then c.toNat - 48 else c.toNat - 87

/-- `int(digest(event_id)[:16], 16) % partitions`. -/
def partitionOf (eventId : String) (partitions : ℕ) : ℕ :=
  (((digest (.str eventId)).toList.take 16).foldl (fun n c => 16 * n + hexValue c) 0) % partitions

variable {τ : Type} (e : Settings) (clock : Clock τ)

/-- One event of a batch. -/
def EventLog.accept (log : EventLog τ) (now : τ) (value : Event) : Except Error (EventLog τ × LogReceipt) :=
  match log.events.get? value.eventId with
  | some prior => do
    require (prior.hash = digest value.toJson) (.http 409 "event ID reused with different payload")
    return (log, ⟨prior.partition, prior.seq, true⟩)
  | none => do
    require (value.clickTimestamp ≤ clock.floor now + 30) (.valueError "event exceeds future tolerance")
    require (log.heads.sum < log.maxEvents) (.http 429 "raw log capacity reached; archive/migrate before continuing")
    let partition := partitionOf value.eventId log.partitions
    let seq := (log.heads[partition]?).getD 0 + 1
    require (seq ≤ maxPosition) (.valueError "sequence must be an integer in range")
    let row : LogRow τ := ⟨digest value.toJson, partition, seq, value.toJson.encode, now⟩
    return ({ log with
      heads := log.heads.set partition seq, events := log.events.set value.eventId row },
      ⟨partition, seq, false⟩)

def EventLog.acceptAll (now : τ) (values : List Event) (log : EventLog τ) :
    Except Error (EventLog τ × List LogReceipt) :=
  values.foldlM (fun acc value => do
    let (log, receipt) ← acc.1.accept clock now value
    return (log, acc.2 ++ [receipt])) (log, [])

def EventLog.append (now : τ) (bodies : List Json) (log : EventLog τ) :
    Except Error (EventLog τ × List LogReceipt) := do
  let values ← prepareEvents e bodies
  require (clock.valid now = true) (.valueError "invalid clock")
  log.acceptAll clock now values

/-! ### What a batch leaves in the log -/

/-- The log holds an event: a row with its id and its hash. -/
def EventLog.Holds (log : EventLog τ) (value : Event) : Prop :=
  ∃ row, log.events.get? value.eventId = some row ∧ row.hash = digest value.toJson

/-- Rows stay as they are and none is taken out. -/
def EventLog.Extends (log log' : EventLog τ) : Prop :=
  log'.lineage = log.lineage ∧ ∀ {id row}, log.events.get? id = some row → log'.events.get? id = some row

theorem EventLog.Extends.refl (log : EventLog τ) : log.Extends log := ⟨rfl, fun h => h⟩

theorem EventLog.Extends.trans {log₁ log₂ log₃ : EventLog τ} (h : log₁.Extends log₂)
    (h' : log₂.Extends log₃) : log₁.Extends log₃ :=
  ⟨h'.1.trans h.1, fun hget => h'.2 (h.2 hget)⟩

variable {log log' : EventLog τ}

theorem EventLog.Holds.mono {value : Event} (h : log.Holds value) (hext : log.Extends log') : log'.Holds value := by
  obtain ⟨row, hget, hhash⟩ := h
  exact ⟨row, hext.2 hget, hhash⟩

variable {clock}

theorem accept_spec {now : τ} {value : Event} {receipt : LogReceipt}
    (h : log.accept clock now value = .ok (log', receipt)) : log.Extends log' ∧ log'.Holds value := by
  unfold EventLog.accept at h
  split at h
  · rename_i prior hget
    obtain ⟨_, hhash, h⟩ := of_bind h
    obtain ⟨rfl, -⟩ := Prod.mk.inj (Except.ok.inj h)
    exact ⟨.refl log, prior, hget, require_eq_ok.mp hhash⟩
  · rename_i hnone
    replace h := of_check h
    replace h := of_check h
    replace h := of_check h
    obtain ⟨rfl, -⟩ := Prod.mk.inj (Except.ok.inj h)
    refine ⟨⟨rfl, ?_⟩, _, Dict.get?_set_self _ _ _, rfl⟩
    intro id row hget
    have hne : id ≠ value.eventId := by
      rintro rfl
      rw [hnone] at hget
      cases hget
    rw [Dict.get?_set_of_ne _ hne, hget]

theorem acceptAll_spec {now : τ} {values : List Event} {receipts : List LogReceipt}
    (h : log.acceptAll clock now values = .ok (log', receipts)) :
    log.Extends log' ∧ ∀ value ∈ values, log'.Holds value := by
  suffices hfold : ∀ {values : List Event} {acc acc' : EventLog τ × List LogReceipt}, values.foldlM (fun acc value => do
        let (log, receipt) ← acc.1.accept clock now value
        return (log, acc.2 ++ [receipt])) acc = Except.ok acc' →
      acc.1.Extends acc'.1 ∧ ∀ value ∈ values, acc'.1.Holds value from hfold h
  intro values
  induction values with
  | nil =>
    intro acc acc' hfold
    obtain rfl := Except.ok.inj hfold
    exact ⟨.refl _, fun value hvalue => by cases hvalue⟩
  | cons value values ih =>
    intro acc acc' hfold
    rw [List.foldlM_cons] at hfold
    obtain ⟨middle, hstep, hfold⟩ := of_bind hfold
    obtain ⟨⟨log₁, receipt⟩, haccept, hstep⟩ := of_bind hstep
    obtain rfl := Except.ok.inj hstep
    obtain ⟨hext, hholds⟩ := accept_spec haccept
    obtain ⟨hext', hrest⟩ := ih hfold
    refine ⟨hext.trans hext', fun v hv => ?_⟩
    rcases List.mem_cons.mp hv with rfl | hv
    · exact hholds.mono hext'
    · exact hrest v hv

theorem mapM_normalize {bodies : List Json} {values : List Event} (h : bodies.mapM (normalizeEvent e) = .ok values) :
    ∀ body ∈ bodies, ∃ value ∈ values, normalizeEvent e body = .ok value := by
  induction bodies generalizing values with
  | nil => exact fun body hbody => by cases hbody
  | cons body bodies ih =>
    rw [List.mapM_cons] at h
    obtain ⟨value, hvalue, h⟩ := of_bind h
    obtain ⟨rest, hrest, h⟩ := of_bind h
    obtain rfl := Except.ok.inj h
    intro b hb
    rcases List.mem_cons.mp hb with rfl | hb
    · exact ⟨value, List.mem_cons_self, hvalue⟩
    · obtain ⟨v, hv, hnorm⟩ := ih hrest b hb
      exact ⟨v, List.mem_cons_of_mem _ hv, hnorm⟩

/-- An accepted batch is valid and held by the log. -/
theorem append_spec {now : τ} {bodies : List Json} {receipts : List LogReceipt}
    (h : log.append e clock now bodies = .ok (log', receipts)) :
    log.Extends log' ∧ ∀ body ∈ bodies, ∃ value, normalizeEvent e body = .ok value ∧ log'.Holds value := by
  obtain ⟨values, hvalues, h⟩ := of_bind h
  replace hvalues := of_check hvalues
  replace h := of_check h
  obtain ⟨hext, hholds⟩ := acceptAll_spec h
  refine ⟨hext, fun body hbody => ?_⟩
  obtain ⟨value, hvalue, hnorm⟩ := mapM_normalize e hvalues body hbody
  exact ⟨value, hnorm, hholds value hvalue⟩

end SystemDesign.AdClick

/-! ### Pages -/

namespace SystemDesign.AdClick

structure Entry (τ : Type) where
  seq : ℕ
  event : Event
  accepted : τ
  hash : String

structure Page (τ : Type) where
  lineage : String
  partition : ℕ
  head : ℕ
  entries : List (Entry τ)

variable {τ : Type} (e : Settings) (clock : Clock τ)

/-- `parse_source_row`; two JSON values are equal when they are written alike. -/
def parseSourceRow (row : LogRow τ) : Except Error (Entry τ) :=
  let failed : Error := .http 503 "persisted raw log validation failed"
  match Json.loads row.payload with
  | none => .error failed
  | some raw => match normalizeEvent e raw with
    | .error _ => .error failed
    | .ok value =>
      if value.toJson.encode = raw.encode ∧ digest value.toJson = row.hash ∧
          clock.valid row.accepted = true ∧
          value.clickTimestamp ≤ clock.floor row.accepted + 30 ∧
          1 ≤ row.seq ∧ row.seq ≤ maxPosition then
        .ok ⟨row.seq, value, row.accepted, row.hash⟩
      else .error failed

/-- `WHERE partition=? AND seq>? AND seq<=? ORDER BY seq`. -/
def EventLog.select (log : EventLog τ) (partition after upper : ℕ) : List (LogRow τ) :=
  (log.events.values.filter fun row =>
    row.partition = partition && after < row.seq && row.seq ≤ upper).mergeSort fun a b => a.seq ≤ b.seq

/-- The sequence numbers follow one another. -/
def follows : ℕ → List (Entry τ) → Bool
  | _, [] => true
  | previous, entry :: rest => entry.seq = previous + 1 && follows entry.seq rest

def EventLog.read (log : EventLog τ) (partition after limit : ℕ) (upto : Option ℕ) : Except Error (Page τ) := do
  require (partition < log.partitions) (.valueError "partition must be an integer in range")
  require (after ≤ maxPosition) (.valueError "after must be an integer in range")
  require (1 ≤ limit ∧ limit ≤ 200) (.valueError "limit must be an integer in [1,200]")
  let head := (log.heads[partition]?).getD 0
  require (after ≤ head) (.http 409 "cursor ahead of raw log")
  require (upto.all fun u => decide (u ≤ maxPosition)) (.valueError "until must be an integer in range")
  let upper := match upto with
    | some u => min u head
    | none => head
  let entries ← ((log.select partition after upper).take limit).mapM (parseSourceRow e clock)
  require (entries.length = min limit (upper - after) ∧ follows after entries = true)
    (.http 503 "persisted raw log offset gap")
  return ⟨log.lineage, partition, head, entries⟩

def isFingerprint (text : String) : Bool :=
  text.toList.length = 64 && text.toList.all fun c => c ∈ "0123456789abcdef".toList

/-- One entry of `prepare_batch`. -/
def prepareEntry (head : ℕ) (previous : Option ℕ) (source : Entry τ) : Except Error (Entry τ) := do
  require (1 ≤ source.seq ∧ source.seq ≤ maxPosition) (.valueError "seq must be an integer in range")
  require (source.seq ≤ head ∧ previous.all fun p => source.seq = p + 1)
    (.http 409 "source page offset gap or invalid head")
  require (clock.valid source.accepted = true) (.valueError "invalid acceptance time")
  let value ← normalizeEvent e source.event.toJson
  require (value.clickTimestamp ≤ clock.floor source.accepted + 30)
    (.http 409 "source event exceeds its acceptance time")
  require (isFingerprint source.hash = true ∧ digest value.toJson = source.hash) (.http 409 "raw log checksum mismatch")
  return { source with event := value }

def prepareEntries (head : ℕ) : Option ℕ → List (Entry τ) → Except Error (List (Entry τ))
  | _, [] => .ok []
  | previous, source :: rest => do
    let entry ← prepareEntry e clock head previous source
    let entries ← prepareEntries head (some source.seq) rest
    return entry :: entries

def prepareBatch (batch : Page τ) (partition : ℕ) : Except Error (Page τ) := do
  require (batch.partition = partition) (.http 409 "wrong partition")
  require (isText batch.lineage = true) (.valueError "lineage must contain 1..128 printable characters")
  require (batch.head ≤ maxPosition) (.valueError "head must be an integer in range")
  require (batch.entries.length ≤ 200) (.valueError "source page requires 0..200 entries")
  let entries ← prepareEntries e clock batch.head none batch.entries
  return { batch with entries := entries }

/-- The checks of `Remote.page` on an entry. -/
def remoteEntry (item : Entry τ) : Bool :=
  clock.valid item.accepted &&
    match event e item.event.toJson (clock.floor item.accepted + 30) with
    | .ok normalized => normalized = item.event && digest normalized.toJson = item.hash
    | .error _ => false

/-- `Remote.page`: a page up to `upto`, read and checked. -/
def EventLog.remotePage (log : EventLog τ) (partition after upto : ℕ) (lineage : String) : Except Error (Page τ) := do
  let page ← log.read e clock partition after 200 (some upto)
  require (page.lineage = lineage ∧ page.partition = partition ∧ upto ≤ page.head ∧
      page.entries.length ≤ 200 ∧ (after < upto → page.entries ≠ []) ∧
      follows after page.entries = true ∧ page.entries.all (fun item => decide (item.seq ≤ upto)) ∧
      page.entries.all (remoteEntry e clock) = true)
    (.http 409 "invalid or incomplete raw replay page")
  return page

end SystemDesign.AdClick
