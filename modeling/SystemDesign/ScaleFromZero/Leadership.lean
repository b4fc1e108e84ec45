import SystemDesign.ScaleFromZero.Replication

/-!
The write lease that stores share (`leadership.py`).

A writer holds the transaction of the fence while its profile transaction commits, and commits the fence after
it. A process that ends in between leaves a row that no published cursor covers. A store with such a row may
be as long as the published cursor later on without the history that was published (the labels of steps say
when that cannot happen).
-/

namespace SystemDesign.ScaleFromZero

/-- The row of `fence`; nobody holds it at first. -/
structure Fence where
  epoch : ℕ
  holder : Option ℕ
  cursor : ℤ
  expires : ℚ

/-- The clock some seconds later, as floats add. -/
structure LeaseClock where
  later : ℚ → ℕ → ℚ

variable (c : LeaseClock)

/-- Somebody else holds the lease. -/
def Fence.foreign (i : ℕ) (f : Fence) : Bool := f.holder ≠ none ∧ f.holder ≠ some i

/-- The lease is held and not over. -/
def Fence.held (i : ℕ) (now : ℚ) (f : Fence) : Bool := f.holder = some i ∧ now < f.expires

def Fence.heartbeat (i cursor lease : ℕ) (now : ℚ) (f : Fence) : Py Fence := do
  integer cursor 0 1000
  integer lease 1 60
  require (f.foreign i = false ∨ f.expires ≤ now) (.http 409 "another writer holds the lease")
  require (f.foreign i = false) (.http 409 "lease expired; promote the replica explicitly")
  require (f.cursor ≤ cursor) (.http 409 "published cursor is ahead of this database")
  return ⟨if f.holder = none then 1 else f.epoch, some i, cursor, c.later now lease⟩

def Fence.promote (i cursor lease : ℕ) (now : ℚ) (f : Fence) : Py Fence := do
  integer cursor 0 1000
  integer lease 1 60
  require (f.cursor ≤ cursor)
    (.http 409 "replica is behind the published cursor; recover missing changes before promotion")
  require (f.foreign i = false ∨ f.expires ≤ now) (.http 409 "primary lease is still valid")
  let epoch := if f.held i now then f.epoch else f.epoch + 1
  return ⟨if f.holder = none ∧ f.epoch = 0 then 1 else epoch, some i, cursor, c.later now lease⟩

/-- The start of `writing`. -/
def Fence.writing (i : ℕ) (now : ℚ) (f : Fence) : Py Fence := do
  require (f.held i now = true) (.http 403 "database lease is not held")
  return { f with expires := c.later now 2 }

/-- The `publish` that `writing` yields. -/
def Fence.publish (i cursor : ℕ) (now : ℚ) (f : Fence) : Py Fence := do
  integer cursor 0 1000
  require (f.held i now = true) (.http 403 "database lease is not held")
  require (f.cursor ≤ cursor) (.http 409 "published cursor is ahead of this database")
  return { f with cursor := cursor, expires := c.later now 2 }

/-- A call of `update` inside the transaction of the fence. -/
structure Writer where
  store : ℕ
  draft : Fence
  /-- What it will return, once its profile transaction has committed. -/
  result : Option Record

structure System where
  cluster : Cluster
  clock : ℚ
  fence : Fence
  /-- The transaction of the fence. -/
  writer : Option Writer
  /-- The rows of the updates that returned, for statements only. -/
  acked : List Row

def System.log (s : System) (i : ℕ) : List Row := s.cluster.logs i

/-- The row that an update wrote. -/
def rowOf (result : Record) (log : List Row) : Option Row := log.find? fun row => row.change.record = result

/-- A request that was made before publishes nothing. -/
def Fence.publishIf (i : ℕ) (published : Option ℕ) (now : ℚ) (f : Fence) : Py Fence :=
  published.elim (.ok f) fun cursor => f.publish c i cursor now

/-- Steps, labelled with what keeps the history one: who commits a row has a longest log, and a request that was
made before is answered only when its row is published. -/
inductive Leads (s : System) : Prop → System → Prop
  | tick (now : ℚ) (hnow : s.clock ≤ now) : Leads s True { s with clock := now }
  | changes (i after : ℕ) {feed : Feed} (h : (s.cluster.stores i).feed after = .ok feed) :
      Leads s True { s with cluster := { s.cluster with feeds := s.cluster.feeds ++ [(i, feed)] } }
  | applyFeed (j source : ℕ) (feed : Feed) (hfeed : (source, feed) ∈ s.cluster.feeds) {store : Store} {n : ℕ}
      (h : (s.cluster.stores j).applyFeed feed = .ok (store, n)) :
      Leads s True { s with cluster := { s.cluster with stores := Function.update s.cluster.stores j store } }
  /-- The cursor is the length that the log had when it was read. -/
  | heartbeat (i cursor lease : ℕ) (hfree : s.writer = none) (hcursor : cursor ≤ (s.log i).length) {fence : Fence}
      (h : s.fence.heartbeat c i cursor lease s.clock = .ok fence) : Leads s True { s with fence := fence }
  | promote (i cursor lease : ℕ) (hfree : s.writer = none) (hcursor : cursor ≤ (s.log i).length) {fence : Fence}
      (h : s.fence.promote c i cursor lease s.clock = .ok fence) : Leads s True { s with fence := fence }
  | writing (i : ℕ) (hfree : s.writer = none) {draft : Fence} (h : s.fence.writing c i s.clock = .ok draft) :
      Leads s True { s with writer := some ⟨i, draft, none⟩ }
  /-- The profile transaction publishes and commits. -/
  | commit (i : ℕ) (draft : Fence) (hwriter : s.writer = some ⟨i, draft, none⟩) (user : String) (body : UpdateBody)
      {store : Store} {result : Record} {published : Option ℕ}
      (h : (s.cluster.stores i).update user body = .ok (store, result, published)) {draft' : Fence}
      (hpublish : draft.publishIf c i published s.clock = .ok draft') :
      Leads s ((published ≠ none → ∀ j, (s.log j).length ≤ (s.log i).length) ∧
          (published = none → ∀ row ∈ rowOf result (s.log i), (row.change.seq : ℤ) ≤ s.fence.cursor))
        { s with
          cluster := { s.cluster with stores := Function.update s.cluster.stores i store }
          writer := some ⟨i, draft', some result⟩ }
  /-- The fence commits and the call returns. -/
  | close (i : ℕ) (draft : Fence) (result : Record) (hwriter : s.writer = some ⟨i, draft, some result⟩) :
      Leads s True { s with
        fence := draft
        writer := none
        acked := s.acked ++ (rowOf result (s.log i)).toList }
  /-- The call raises, or its process ends. -/
  | abort : Leads s True { s with writer := none }

def System.Fresh (s : System) : Prop := s.cluster.Fresh ∧ s.fence = ⟨0, none, -1, 0⟩ ∧ s.writer = none ∧ s.acked = []

def leadership : Transitions System where
  start := System.Fresh
  step s s' := ∃ tidy, Leads c s tidy s'

def tidyLeadership : Transitions System where
  start := System.Fresh
  step s s' := ∃ tidy, Leads c s tidy s' ∧ tidy

end SystemDesign.ScaleFromZero
