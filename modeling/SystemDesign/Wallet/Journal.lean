import SystemDesign.Wallet.Safety

/-!
The coordinator's journal (`journal.py`): a local log of rows, replicated to
three replicas, of which a prefix is committed once two have acknowledged it.

The writer takes a snapshot, runs one task for each replica and waits for all
three; a task, an acknowledgement or the whole process may fail at any point, and
a row once sent may reach its replica later or again. The coordinator's
operations run on top, and only they produce rows. Forgetting the replicas gives
a run of the wallet, so what holds of its log holds of the journal's.
-/

namespace SystemDesign.Wallet

open List hiding le_trans

def Decision.text : Decision → String
  | .commit => "COMMIT"
  | .cancel => "CANCEL"

def Outcome.text : Outcome → String
  | .pending => "PENDING"
  | .succeeded => "SUCCEEDED"
  | .canceled => "CANCELED"
  | .rejected => "REJECTED"

def Event.toJson : Event → Json
  | .accepted id body => .obj [("kind", .str "accepted"), ("transaction_id", .str id),
      ("intent", body.toJson)]
  | .decision id value => .obj [("kind", .str "decision"), ("transaction_id", .str id),
      ("decision", .str value.text)]
  | .completed id status => .obj [("kind", .str "completed"), ("transaction_id", .str id),
      ("status", .str status.text)]

/-! ### A replica -/

structure Replica where
  rows : List (Row Event)
  epoch : ℕ
  leader : String

/-- The sequence number and hash of the last row. -/
def Replica.tail (replica : Replica) : ℕ × String :=
  (replica.rows.getLast?.map fun row => (row.seq, row.hash)).getD (0, HashLog.origin)

/-- `Replica.append`; the replica afterwards and the receipt. -/
def Replica.append (replica : Replica) (row : Row Event) (epoch : ℕ) (leader : String) : Py (Replica × (ℕ × String)) :=
  if epoch ≠ replica.epoch ∨ leader ≠ replica.leader then
    .error (.http 409 "leader fenced; manual epoch recovery required")
  else if row.seq < 1 then .error (.valueError "invalid sequence")
  else if row.seq ≤ replica.tail.1 then
    if replica.rows.find? (fun old => old.seq = row.seq) ≠ some row then
      .error (.http 409 "log prefix conflict; operator recovery required")
    else .ok (replica, (row.seq, row.hash))
  else if row.seq ≠ replica.tail.1 + 1 ∨ row ≠ HashLog.entry Event.toJson row.seq replica.tail.2 row.event then
    .error (.http 409 "log gap or checksum conflict")
  else .ok ({ replica with rows := replica.rows ++ [row] }, (row.seq, row.hash))

/-- `Replica.status`. -/
def Replica.status (replica : Replica) (epoch : ℕ) (leader : String) : Py (ℕ × String) :=
  if epoch ≠ replica.epoch ∨ leader ≠ replica.leader then
    .error (.http 409 "leader fenced; manual epoch recovery required")
  else .ok replica.tail

/-! ### The writer -/

/-- How far `_replicate` got with one replica; `sending k` has the first `k` rows there. -/
inductive Task where
  | asking
  | sending (count : ℕ)
  | done (acknowledged : Bool)
deriving DecidableEq

/-- A running `_sync`: its snapshot and its three tasks. -/
structure Sync where
  rows : List (Row Event)
  tasks : Fin 3 → Task

/-- The hash that a replica with `count` of the rows must name. -/
def hashAt (rows : List (Row Event)) (count : ℕ) : String := HashLog.head (rows.take count)

/-- What `_replicate` makes of a status. -/
def accepts (rows : List (Row Event)) (remote : ℕ × String) : Bool :=
  remote.1 ≤ rows.length && remote.2 = hashAt rows remote.1

/-- How many tasks ended in an acknowledgement. -/
def acknowledgements (sync : Sync) : ℕ := (Finset.univ.filter fun i => sync.tasks i = .done true).card

structure Deployment where
  shards : ℕ → Shard
  sent : List Request
  phase : Phase
  rows : List (Row Event)
  committed : ℕ
  replicas : Fin 3 → Replica
  running : Option Sync
  inFlight : List (Fin 3 × Row Event)

namespace Deployment

/-- The wallet without its replicas. -/
def system (d : Deployment) : System := ⟨d.shards, d.rows.map Row.event, d.committed, d.sent, d.phase⟩

def init (config : Config) : Deployment where
  shards := Shard.init config
  sent := []
  phase := .idle
  rows := []
  committed := 0
  replicas := fun _ => ⟨[], config.epoch, config.leader⟩
  running := none
  inFlight := []

def setTask (d : Deployment) (sync : Sync) (i : Fin 3) (task : Task) : Deployment :=
  { d with running := some { sync with tasks := Function.update sync.tasks i task } }

inductive Step (config : Config) : Deployment → Deployment → Prop
  /-- A step of the coordinator or a shard that leaves the journal alone. -/
  | operate {d : Deployment} {w : System} (hstep : Wallet.Step config d.system w)
      (hlog : w.log = d.system.log) (hcommitted : w.committed = d.committed) :
      Step config d { d with shards := w.shards, sent := w.sent, phase := w.phase }
  /-- `Journal.append` after its first sync: the row is inserted, uncommitted. -/
  | insert {d : Deployment} {w : System} {event : Event} (hidle : d.running = none)
      (hstep : Wallet.Step config d.system w) (hlog : w.log = d.system.log ++ [event])
      (hsynced : d.committed = d.rows.length) (hcommitted : w.committed = d.committed) :
      Step config d { d with
        shards := w.shards
        sent := w.sent
        phase := w.phase
        rows := d.rows ++ [HashLog.next Event.toJson d.rows event] }
  | begin {d : Deployment} {head : String} (hidle : d.running = none)
      (hverify : HashLog.verify Event.toJson d.rows = .ok head) :
      Step config d { d with running := some ⟨d.rows, fun _ => .asking⟩ }
  | status {d : Deployment} {sync : Sync} {i : Fin 3} {remote : ℕ × String}
      (hrunning : d.running = some sync) (htask : sync.tasks i = .asking)
      (hstatus : (d.replicas i).status config.epoch config.leader = .ok remote) :
      Step config d (d.setTask sync i (if accepts sync.rows remote then .sending remote.1 else .done false))
  /-- A row is sent. -/
  | send {d : Deployment} {sync : Sync} {i : Fin 3} {count : ℕ} {row : Row Event}
      (hrunning : d.running = some sync) (htask : sync.tasks i = .sending count)
      (hrow : sync.rows[count]? = some row) :
      Step config d { d with inFlight := (i, row) :: d.inFlight }
  /-- The replica takes it and the acknowledgement arrives. -/
  | acknowledge {d : Deployment} {sync : Sync} {i : Fin 3} {count : ℕ} {row : Row Event}
      {replica : Replica} (hrunning : d.running = some sync)
      (htask : sync.tasks i = .sending count) (hrow : sync.rows[count]? = some row)
      (hsent : (i, row) ∈ d.inFlight)
      (happend : (d.replicas i).append row config.epoch config.leader = .ok (replica, (row.seq, row.hash))) :
      Step config d ({ d with replicas := Function.update d.replicas i replica }.setTask sync i (.sending (count + 1)))
  /-- A row that was sent is executed late or again, and nobody hears of it. -/
  | deliver {d : Deployment} {i : Fin 3} {row : Row Event} {replica : Replica}
      {receipt : ℕ × String} (hsent : (i, row) ∈ d.inFlight)
      (happend : (d.replicas i).append row config.epoch config.leader = .ok (replica, receipt)) :
      Step config d { d with replicas := Function.update d.replicas i replica }
  | finish {d : Deployment} {sync : Sync} {i : Fin 3} (hrunning : d.running = some sync)
      (htask : sync.tasks i = .sending sync.rows.length) :
      Step config d (d.setTask sync i (.done true))
  /-- A refusal, a lost reply or a timeout. -/
  | fail {d : Deployment} {sync : Sync} {i : Fin 3} (hrunning : d.running = some sync)
      (htask : sync.tasks i ≠ .done true) : Step config d (d.setTask sync i (.done false))
  /-- The end of `_sync` with a quorum. -/
  | commit {d : Deployment} {sync : Sync} (hrunning : d.running = some sync)
      (hdone : ∀ i, ∃ b, sync.tasks i = .done b) (hquorum : 2 ≤ acknowledgements sync) :
      Step config d { d with committed := max d.committed sync.rows.length, running := none }
  /-- The end of `_sync` without one. -/
  | refuse {d : Deployment} {sync : Sync} (hrunning : d.running = some sync) :
      Step config d { d with running := none }
  /-- The process stops and starts again. -/
  | crash {d : Deployment} : Step config d { d with running := none, phase := .idle }

end Deployment

def deployment (config : Config) : Transitions Deployment where
  start d := d = .init config
  step := Deployment.Step config

/-! ### The replicas -/

theorem tail_eq_length {rows : List (Row Event)} {head : String} {replica : Replica}
    (hverify : HashLog.verify Event.toJson rows = .ok head) (hp : replica.rows <+: rows) :
    replica.tail.1 = replica.rows.length := by
  unfold Replica.tail
  cases hlast : replica.rows.getLast? with
  | none => simp [getLast?_eq_none_iff.mp hlast]
  | some row =>
    rw [getLast?_eq_getElem?] at hlast
    have hlt := (List.getElem?_eq_some_iff.mp hlast).1
    obtain ⟨rest, rfl⟩ := hp
    have hget : (replica.rows ++ rest)[replica.rows.length - 1]? = some row := by
      rw [getElem?_append_left hlt]
      exact hlast
    have hseq := HashLog.verifyFrom_getElem Event.toJson hverify hget
    simp only [Option.map_some, Option.getD_some]
    omega

/-- A replica that takes one of the writer's rows stays a prefix, and then has that row. -/
theorem Replica.append_spec {rows : List (Row Event)} {head : String} {replica replica' : Replica} {row : Row Event}
    {k epoch : ℕ} {leader : String} {receipt : ℕ × String} (hverify : HashLog.verify Event.toJson rows = .ok head)
    (hp : replica.rows <+: rows) (hrow : rows[k]? = some row)
    (h : replica.append row epoch leader = .ok (replica', receipt)) :
    replica'.rows <+: rows ∧ replica.rows <+: replica'.rows ∧ k < replica'.rows.length := by
  have hseq := HashLog.verifyFrom_getElem Event.toJson hverify hrow
  have htail := tail_eq_length hverify hp
  unfold Replica.append at h
  split_ifs at h with hfence hpositive hold hfound hgap
  · obtain ⟨rfl, -⟩ := Prod.mk.inj (Except.ok.inj h)
    exact ⟨hp, prefix_rfl, by omega⟩
  · obtain ⟨rfl, -⟩ := Prod.mk.inj (Except.ok.inj h)
    obtain ⟨rest, rfl⟩ := hp
    have hk : k = replica.rows.length := by
      by_contra hne
      exact hgap (.inl (by omega))
    subst hk
    rw [getElem?_append_right le_rfl, Nat.sub_self] at hrow
    obtain ⟨rest, rfl⟩ : ∃ rest', rest = row :: rest' := by
      cases rest with
      | nil => cases hrow
      | cons first rest =>
        obtain rfl : first = row := by simpa using hrow
        exact ⟨rest, rfl⟩
    refine ⟨⟨rest, by simp⟩, prefix_append _ _, by simp⟩

/-- What a task has established of its replica. -/
def TaskOk (total held : ℕ) : Task → Prop
  | .asking => True
  | .sending count => count ≤ held
  | .done acknowledged => acknowledged = true → total ≤ held

theorem TaskOk.mono {total held held' : ℕ} {task : Task} (h : TaskOk total held task)
    (hle : held ≤ held') : TaskOk total held' task := by
  cases task with
  | asking => trivial
  | sending count => exact le_trans h hle
  | done b => exact fun hb => (h hb).trans hle

/-- The replicas that hold the first `count` rows. -/
def holders (replicas : Fin 3 → Replica) (count : ℕ) : Finset (Fin 3) :=
  Finset.univ.filter fun i => count ≤ (replicas i).rows.length

theorem holders_mono {replicas replicas' : Fin 3 → Replica} (h : ∀ i, (replicas i).rows <+: (replicas' i).rows)
    (count : ℕ) : holders replicas count ⊆ holders replicas' count := by
  intro i hi
  rw [holders, Finset.mem_filter] at hi ⊢
  exact ⟨hi.1, hi.2.trans (h i).length_le⟩

structure JournalOk (d : Deployment) : Prop where
  verified : ∃ head, HashLog.verify Event.toJson d.rows = .ok head
  prefixes : ∀ i, (d.replicas i).rows <+: d.rows
  flights : ∀ i row, (i, row) ∈ d.inFlight → row ∈ d.rows
  running : ∀ sync, d.running = some sync → sync.rows = d.rows ∧
    ∀ i, TaskOk d.rows.length (d.replicas i).rows.length (sync.tasks i)
  bound : d.committed ≤ d.rows.length
  quorum : 2 ≤ (holders d.replicas d.committed).card

section
variable {config : Config} {d d' : Deployment}

/-- One task moves on; nothing else does. -/
theorem JournalOk.setTask (h : JournalOk d) {sync : Sync} (hrunning : d.running = some sync)
    {i : Fin 3} {task : Task} (htask : TaskOk d.rows.length (d.replicas i).rows.length task) :
    JournalOk (d.setTask sync i task) := by
  refine ⟨h.verified, h.prefixes, h.flights, ?_, h.bound, h.quorum⟩
  intro next hnext
  obtain rfl := Option.some.inj hnext
  obtain ⟨hrows, htasks⟩ := h.running sync hrunning
  refine ⟨hrows, fun j => ?_⟩
  by_cases hj : j = i
  · subst hj
    simpa [Deployment.setTask] using htask
  · simpa [Deployment.setTask, hj] using htasks j

theorem JournalOk.append (h : JournalOk d) {i : Fin 3} {row : Row Event} {k epoch : ℕ}
    {leader : String} {replica : Replica} {receipt : ℕ × String} (hrow : d.rows[k]? = some row)
    (happend : (d.replicas i).append row epoch leader = .ok (replica, receipt)) :
    JournalOk { d with replicas := Function.update d.replicas i replica } ∧
      (∀ j, (d.replicas j).rows <+: (Function.update d.replicas i replica j).rows) ∧
      k < replica.rows.length := by
  obtain ⟨head, hverify⟩ := h.verified
  obtain ⟨hinitial, hgrows, hhas⟩ := Replica.append_spec hverify (h.prefixes i) hrow happend
  have hall : ∀ j, (d.replicas j).rows <+: (Function.update d.replicas i replica j).rows := by
    intro j
    by_cases hj : j = i
    · subst hj
      simpa using hgrows
    · simp [hj]
  refine ⟨⟨⟨head, hverify⟩, fun j => ?_, h.flights, fun sync hsync => ?_, h.bound, ?_⟩, hall, hhas⟩
  · by_cases hj : j = i
    · subst hj
      simpa using hinitial
    · simpa [hj] using h.prefixes j
  · obtain ⟨hrows, htasks⟩ := h.running sync hsync
    exact ⟨hrows, fun j => (htasks j).mono (hall j).length_le⟩
  · exact h.quorum.trans (Finset.card_le_card (holders_mono hall _))

/-- Two acknowledgements are two replicas that hold every row. -/
theorem JournalOk.commit (h : JournalOk d) {sync : Sync} (hrunning : d.running = some sync)
    (hquorum : 2 ≤ acknowledgements sync) :
    JournalOk { d with committed := max d.committed sync.rows.length, running := none } := by
  obtain ⟨hrows, htasks⟩ := h.running sync hrunning
  have hmax : max d.committed sync.rows.length = d.rows.length := by
    rw [hrows]
    exact max_eq_right h.bound
  rw [hmax]
  refine ⟨h.verified, h.prefixes, h.flights, (fun _ hs => nomatch hs), le_rfl, ?_⟩
  apply hquorum.trans
  apply Finset.card_le_card
  intro i hi
  have hdone := (Finset.mem_filter.mp hi).2
  have hheld := htasks i
  rw [hdone] at hheld
  exact Finset.mem_filter.mpr ⟨Finset.mem_univ i, hheld rfl⟩

theorem JournalOk.step (h : JournalOk d) (hstep : Deployment.Step config d d') : JournalOk d' := by
  cases hstep with
  | operate _ _ _ => exact ⟨h.verified, h.prefixes, h.flights, h.running, h.bound, h.quorum⟩
  | @insert w event hidle _ _ _ _ =>
    obtain ⟨head, hverify⟩ := h.verified
    refine ⟨HashLog.verify_append Event.toJson hverify event,
      fun i => (h.prefixes i).trans (prefix_append _ _),
      fun i row hmem => mem_append_left _ (h.flights i row hmem), ?_, ?_, h.quorum⟩
    · intro sync hsync
      rw [hidle] at hsync
      cases hsync
    · rw [length_append]
      exact h.bound.trans (Nat.le_add_right _ _)
  | begin _ _ =>
    refine ⟨h.verified, h.prefixes, h.flights, ?_, h.bound, h.quorum⟩
    intro sync hsync
    obtain rfl := Option.some.inj hsync
    exact ⟨rfl, fun _ => trivial⟩
  | @status sync i remote hrunning htask hstatus =>
    apply h.setTask hrunning
    split_ifs with haccepts
    · -- The count a replica reports is the number of its rows.
      obtain ⟨head, hverify⟩ := h.verified
      unfold Replica.status at hstatus
      split_ifs at hstatus
      obtain rfl := Except.ok.inj hstatus
      exact (tail_eq_length hverify (h.prefixes i)).le
    · exact (nomatch ·)
  | send hrunning _ hrow =>
    refine ⟨h.verified, h.prefixes, ?_, h.running, h.bound, h.quorum⟩
    intro j r hmem
    rcases mem_cons.mp hmem with heq | hmem
    · obtain ⟨-, rfl⟩ := Prod.mk.inj heq
      rw [← (h.running _ hrunning).1]
      exact mem_of_getElem? hrow
    · exact h.flights j r hmem
  | @acknowledge sync i count row replica hrunning _ hrow _ happend =>
    rw [(h.running sync hrunning).1] at hrow
    obtain ⟨hok, -, hhas⟩ := h.append hrow happend
    apply hok.setTask hrunning
    simp only [Function.update_self]
    exact hhas
  | deliver hsent happend =>
    obtain ⟨k, hk⟩ := getElem?_of_mem (h.flights _ _ hsent)
    exact (h.append hk happend).1
  | @finish sync i hrunning htask =>
    obtain ⟨hrows, htasks⟩ := h.running sync hrunning
    have hheld := htasks i
    rw [htask, hrows] at hheld
    exact h.setTask hrunning fun _ => hheld
  | fail hrunning _ => exact h.setTask hrunning (nomatch ·)
  | commit hrunning _ hquorum => exact h.commit hrunning hquorum
  | refuse _ => exact ⟨h.verified, h.prefixes, h.flights, (fun _ hs => nomatch hs), h.bound, h.quorum⟩
  | crash => exact ⟨h.verified, h.prefixes, h.flights, (fun _ hs => nomatch hs), h.bound, h.quorum⟩

theorem JournalOk.init (config : Config) : JournalOk (.init config) := by
  refine ⟨⟨_, rfl⟩, fun _ => prefix_rfl, (fun i row hmem => nomatch hmem), (fun _ hs => nomatch hs), le_rfl, ?_⟩
  simp [holders, Deployment.init]

theorem reachable_journal (h : (deployment config).Reachable d) : JournalOk d := by
  apply h.invariant
  · rintro s rfl
    exact .init config
  · intro s s' _ hok hstep
    exact hok.step hstep

/-! ### Growth -/

/-- What no step takes away. -/
structure Grows (d d' : Deployment) : Prop where
  rows : d.rows <+: d'.rows
  committed : d.committed ≤ d'.committed
  replicas : ∀ i, (d.replicas i).rows <+: (d'.replicas i).rows

theorem Grows.refl (d : Deployment) : Grows d d := ⟨prefix_rfl, le_rfl, fun _ => prefix_rfl⟩

theorem Grows.trans {d₁ d₂ d₃ : Deployment} (h : Grows d₁ d₂) (h' : Grows d₂ d₃) : Grows d₁ d₃ :=
  ⟨h.rows.trans h'.rows, h.committed.trans h'.committed, fun i => (h.replicas i).trans (h'.replicas i)⟩

theorem JournalOk.grows (h : JournalOk d) (hstep : Deployment.Step config d d') : Grows d d' := by
  cases hstep with
  | insert _ _ _ _ _ => exact ⟨prefix_append _ _, le_rfl, fun _ => prefix_rfl⟩
  | acknowledge hrunning _ hrow _ happend =>
    rw [(h.running _ hrunning).1] at hrow
    exact ⟨prefix_rfl, le_rfl, (h.append hrow happend).2.1⟩
  | deliver hsent happend =>
    obtain ⟨k, hk⟩ := getElem?_of_mem (h.flights _ _ hsent)
    exact ⟨prefix_rfl, le_rfl, (h.append hk happend).2.1⟩
  | commit _ _ _ => exact ⟨prefix_rfl, le_max_left _ _, fun _ => prefix_rfl⟩
  | _ => exact ⟨prefix_rfl, le_rfl, fun _ => prefix_rfl⟩

theorem JournalOk.grows_run (h : JournalOk d)
    (hrun : Relation.ReflTransGen (Deployment.Step config) d d') : JournalOk d' ∧ Grows d d' := by
  induction hrun with
  | refl => exact ⟨h, .refl d⟩
  | tail _ hstep ih =>
    obtain ⟨hok, hgrows⟩ := ih
    exact ⟨hok.step hstep, hgrows.trans (hok.grows hstep)⟩

/-! ### The wallet behind the journal -/

/-- A step of the deployment is a step of the wallet, or nothing to it. -/
theorem JournalOk.simulates (h : JournalOk d) (hstep : Deployment.Step config d d') :
    d'.system = d.system ∨ Step config d.system d'.system := by
  cases hstep with
  | @operate w hstep hlog hcommitted =>
    right
    have : Deployment.system { d with shards := w.shards, sent := w.sent, phase := w.phase } = w := by
      cases w
      simp_all [Deployment.system]
    rwa [this]
  | @insert w event _ hstep hlog _ hcommitted =>
    right
    have : Deployment.system { d with
        shards := w.shards
        sent := w.sent
        phase := w.phase
        rows := d.rows ++ [HashLog.next Event.toJson d.rows event] } = w := by
      cases w
      simp_all [Deployment.system, HashLog.next, HashLog.entry]
    rwa [this]
  | @commit sync hrunning _ _ =>
    right
    have hmax : max d.committed sync.rows.length = d.system.log.length := by
      rw [(h.running sync hrunning).1, Deployment.system, length_map]
      exact max_eq_right h.bound
    simp only [Deployment.system, hmax]
    exact .sync
  | crash => exact .inr .abort
  | _ => exact .inl rfl

theorem deployment_refines (h : (deployment config).Reachable d) : (wallet config).Reachable d.system := by
  induction h with
  | start hs =>
    obtain rfl : _ = Deployment.init config := hs
    exact .start rfl
  | step hreach hstep ih =>
    rcases (reachable_journal hreach).simulates hstep with heq | hstep
    · rwa [heq]
    · exact ih.step hstep

/-- The committed rows. -/
def Deployment.durable (d : Deployment) : List (Row Event) := d.rows.take d.committed

theorem Grows.durable (h : Grows d d') (hok : JournalOk d) : d.durable <+: d'.durable := by
  apply prefix_of_prefix_length_le ((List.take_prefix _ _).trans h.rows) (List.take_prefix d'.committed d'.rows)
  have hrows := h.rows.length_le
  have hcommitted := h.committed
  have hbound := hok.bound
  rw [length_take, length_take]
  omega

end

/-- The first transfer, inserted and not yet replicated. -/
def afterInsert : Deployment :=
  { Deployment.init twoAccounts with
    rows := [HashLog.next Event.toJson [] (.accepted "t1" firstTransfer)] }

end SystemDesign.Wallet
