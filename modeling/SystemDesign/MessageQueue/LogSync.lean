import SystemDesign.MessageQueue.LogSteps

/-!
Synchronizing a partition's log.

A log is `Sound` when it holds some layout; every run of the operations from a new log keeps this (`sound_run`). On a
sound log `synchronize` raises and changes nothing, or what can be read are the old records between the new base and the
committed offset and then the given values (`synchronize_spec`).
-/

namespace SystemDesign.MessageQueue.Partition

open Locked

variable {log : PartitionLog} {layout : Layout}

/-! ### Synchronizing -/

/-- A log that holds some layout. -/
def Sound (log : PartitionLog) : Prop := ∃ layout, Consistent layout log

theorem sound_new (segmentBytes : ℕ) : Sound (PartitionLog.new segmentBytes) :=
  ⟨[], { files := rfl, chained := trivial, entries := rfl, next := rfl, committed_lt := neg_one_lt_zero
         base_le := le_refl _, ordered := List.Pairwise.nil, named := fun _ h => absurd h List.not_mem_nil }⟩

/-- What `synchronize` comes to: an exception, announced or of the checks of a record, and no change, or the kept records
and then the added ones. -/
def Synced (log : PartitionLog) (epoch committed : ℤ) (committedHash : String) (base : ℤ) (baseHash : String)
    (values : List Json) (result : Except LogError Unit × PartitionLog) : Prop :=
  (∃ e : LogError, (e.Announced ∨ prepare values (committed + 1) committedHash = .error e) ∧ result = (.error e, log)) ∨
  ∃ records added log', result = (.ok (), log') ∧ Sound log' ∧ log'.manifest = ⟨base, baseHash, epoch, committed⟩ ∧
    Readable log records ∧ ((∀ value ∈ values, value.WF) → added.map Envelope.value = values.map Json.sortKeys) ∧
    Readable log' (records.filter (fun record => base ≤ record.offset ∧ record.offset ≤ committed) ++ added)

theorem Consistent.synchronize (h : Consistent layout log) (epoch committed : ℤ) (committedHash : String) (base : ℤ)
    (baseHash : String) (values : List Json) : Synced log epoch committed committedHash base baseHash values
      ((synchronize epoch committed committedHash base baseHash values).exec log) := by
  unfold Partition.synchronize
  have herror (e : LogError) (he : e.Announced) :
      Synced log epoch committed committedHash base baseHash values (.error e, log) := .inl ⟨e, .inl he, rfl⟩
  -- nothing is written before all of the input has been checked
  refine exec_checkAvailable_bind herror fun hfailed => ?_
  refine exec_check_bind herror trivial fun _ => exec_check_bind herror trivial fun hinteger => ?_
  refine exec_check_bind herror trivial fun _ => exec_check_bind herror trivial fun hhash => ?_
  refine exec_lift_bind (fun e he => .inl ⟨e, .inr he, rfl⟩) fun prepared hprepared => ?_
  obtain ⟨hchained, hvalues⟩ := prepare_spec hprepared
  rw [exec_bind_ok (exec_read _ _)]
  dsimp only [id]
  refine exec_check_bind herror trivial fun ⟨hbase, hcommitted⟩ => ?_
  refine exec_hashAt_bind hfailed herror (exec_check_bind herror trivial fun hknown => ?_)
  obtain ⟨k, hk, hoffset, hlast⟩ := h.of_hashAt hknown
  have hk' : (base - log.manifest.base).toNat = k := by omega
  obtain ⟨e, he, hrun⟩ | ⟨layout₁, log₁, hrun, h₁, hmanifest₁, hfailed₁, hnext₁, hvalues₁, hlast₁⟩ :=
    h.align epoch committed committedHash
  · rw [exec_bind_error hrun]
    exact herror e he
  have hbase₁ : log₁.manifest.base = log.manifest.base := by rw [hmanifest₁]
  have hbaseHash₁ : log₁.manifest.baseHash = log.manifest.baseHash := by rw [hmanifest₁]
  have hcommitted₁ : log₁.manifest.committed = committed := by rw [hmanifest₁]
  have hsplit : ((liveValues log.manifest.base layout).take (committed + 1 - log.manifest.base).toNat).take k
      = (liveValues log.manifest.base layout).take k := by
    rw [List.take_take, min_eq_left (by omega)]
  have hcount := congrArg List.length hvalues₁
  have hnext := h₁.next
  rw [List.length_take] at hcount
  rw [hbase₁] at hnext
  have hknown₁ := h₁.hashAt_eq (k := k) (by rw [hbase₁]; omega)
  rw [hbase₁, hbaseHash₁, hvalues₁, hsplit, ← hlast, ← hoffset] at hknown₁
  obtain ⟨layout₂, log₂, hrun₂, h₂, hmanifest₂, hfailed₂, hnext₂, hvalues₂⟩ := h₁.advanceBase hfailed₁ hinteger hhash
    (by rw [hbase₁]; exact hbase) (by rw [hcommitted₁]; exact hcommitted) hknown₁
  rw [exec_bind_ok hrun, exec_bind_ok hrun₂, exec_effect]
  rw [hbase₁, hk', hvalues₁] at hvalues₂
  have hbase₂ : log₂.manifest.base = base := by rw [hmanifest₂]
  have hbaseHash₂ : log₂.manifest.baseHash = baseHash := by rw [hmanifest₂]
  -- the hash chain goes on over the checkpoint
  have hlast₂ : lastHash baseHash (liveValues base layout₂) = committedHash := by
    rw [hvalues₂, hlast, ← hsplit, ← lastHash_append, List.take_append_drop, ← hvalues₁, hlast₁]
  have hchained₂ : Chained log₂.nextOffset (lastHash log₂.manifest.baseHash (liveValues log₂.manifest.base layout₂))
      (prepared.map Stored.value) := by
    rw [hnext₂, hnext₁, hbase₂, hbaseHash₂, hlast₂]
    exact hchained
  obtain ⟨layout₃, h₃, hmanifest₃, hfailed₃, hvalues₃⟩ := h₂.appended hchained₂
  refine .inr ⟨liveValues log.manifest.base layout, prepared.map Stored.value, _, rfl, ⟨layout₃, h₃⟩, ?_,
    h.readable hfailed, ?_, ?_⟩
  · rw [hmanifest₃, hmanifest₂, hmanifest₁]
  · rw [List.map_map]
    exact hvalues
  · have hreadable := h₃.readable (hfailed₃.trans hfailed₂)
    rw [hmanifest₃, hvalues₃, hbase₂, hvalues₂, ← hk', ← h.chained.filter_between hbase] at hreadable
    exact hreadable

/-! ### Runs -/

inductive Command where
  | append (values : List Json)
  | read (offset limit : ℤ)
  | align (epoch committed : ℤ) (committedHash : String)
  | retain (base : ℤ) (baseHash : String)
  | synchronize (epoch committed : ℤ) (committedHash : String) (base : ℤ) (baseHash : String) (values : List Json)

/-- The log after a command, whether it raised or not. -/
def Command.step (log : PartitionLog) : Command → PartitionLog
  | .append values => ((Partition.append values).exec log).2
  | .read offset limit => ((Partition.read offset limit).exec log).2
  | .align epoch committed committedHash => ((Partition.align epoch committed committedHash).exec log).2
  | .retain base baseHash => ((Partition.retain base baseHash).exec log).2
  | .synchronize epoch committed committedHash base baseHash values =>
    ((Partition.synchronize epoch committed committedHash base baseHash values).exec log).2

/-- A sound log is left. -/
def LeavesSound {α : Type} (result : Except LogError α × PartitionLog) : Prop := Sound result.2

theorem Sound.append (h : Sound log) (values : List Json) : LeavesSound ((Partition.append values).exec log) := by
  have herror (e : LogError) (_ : e.Announced) : LeavesSound ((.error e, log) : Except LogError Unit × PartitionLog) := h
  obtain ⟨layout, h⟩ := h
  unfold Partition.append
  refine exec_checkAvailable_bind herror fun hfailed => ?_
  rw [exec_bind_ok (exec_read _ _)]
  refine exec_hashAt_bind hfailed herror (exec_lift_bind (fun _ _ => ⟨layout, h⟩) fun prepared hprepared => ?_)
  have hknown := h.hashAt_eq (le_refl (liveValues log.manifest.base layout).length)
  rw [← h.next, List.take_length] at hknown
  dsimp only [id] at hprepared
  rw [hknown, Option.getD_some] at hprepared
  obtain ⟨layout', h', -⟩ := h.appended (prepare_spec hprepared).1
  exact ⟨layout', h'⟩

theorem Sound.failed (h : Sound log) : Sound { log with failed := true } := by
  obtain ⟨layout, h⟩ := h
  exact ⟨layout, { files := h.files, chained := h.chained, entries := h.entries, next := h.next
                   committed_lt := h.committed_lt, base_le := h.base_le, ordered := h.ordered, named := h.named }⟩

theorem Sound.read (h : Sound log) (offset limit : ℤ) : LeavesSound ((Partition.read offset limit).exec log) := by
  unfold Partition.read
  have herror (e : LogError) (_ : e.Announced) : LeavesSound ((.error e, log) : Except LogError (List Envelope) × PartitionLog) := h
  refine exec_checkAvailable_bind herror fun _ => exec_check_bind herror trivial fun _ => ?_
  refine exec_check_bind herror trivial fun _ => ?_
  rw [exec_bind_ok (exec_read _ _)]
  refine exec_check_bind herror trivial fun _ => ?_
  cases hread : (id log).readNumbers (numbers offset (min (id log).nextOffset (offset + limit))) 0 with
  | ok values => exact h
  | error e =>
    cases e with
    | corruption message => exact h.failed
    | _ => exact h

theorem Sound.align (h : Sound log) (epoch committed : ℤ) (committedHash : String) :
    LeavesSound ((Partition.align epoch committed committedHash).exec log) := by
  obtain ⟨layout, h⟩ := h
  obtain ⟨e, -, hrun⟩ | ⟨layout', log', hrun, h', -⟩ := h.align epoch committed committedHash
  · rw [hrun]
    exact ⟨layout, h⟩
  · rw [hrun]
    exact ⟨layout', h'⟩

theorem Sound.retain (h : Sound log) (base : ℤ) (baseHash : String) :
    LeavesSound ((Partition.retain base baseHash).exec log) := by
  obtain ⟨layout, h⟩ := h
  obtain ⟨e, hrun⟩ | ⟨hfailed, hinteger, hhash, ⟨hbase, hnext⟩, hknown⟩ := retaining log base baseHash
  · rw [hrun]
    exact ⟨layout, h⟩
  · obtain ⟨layout', log', hrun, h', -⟩ := h.retain hfailed hinteger hhash hbase hnext hknown
    rw [hrun]
    exact ⟨layout', h'⟩

theorem Sound.synchronize (h : Sound log) (epoch committed : ℤ) (committedHash : String) (base : ℤ)
    (baseHash : String) (values : List Json) :
    LeavesSound ((Partition.synchronize epoch committed committedHash base baseHash values).exec log) := by
  obtain ⟨layout, hlayout⟩ := h
  obtain ⟨e, -, hrun⟩ | ⟨_, _, log', hrun, h', -⟩ :=
    hlayout.synchronize epoch committed committedHash base baseHash values
  · rw [hrun]
    exact ⟨layout, hlayout⟩
  · rw [hrun]
    exact h'

theorem Sound.step (h : Sound log) (command : Command) : Sound (command.step log) := by
  cases command with
  | append values => exact h.append values
  | read offset limit => exact h.read offset limit
  | align epoch committed committedHash => exact h.align epoch committed committedHash
  | retain base baseHash => exact h.retain base baseHash
  | synchronize epoch committed committedHash base baseHash values =>
    exact h.synchronize epoch committed committedHash base baseHash values

/-- Every run from a new log keeps the log sound. -/
theorem sound_run (segmentBytes : ℕ) (commands : List Command) :
    Sound (commands.foldl Command.step (PartitionLog.new segmentBytes)) := by
  induction commands using List.reverseRecOn with
  | nil => exact sound_new segmentBytes
  | append_singleton commands command ih =>
    rw [List.foldl_append]
    exact ih.step command

/-! ### What synchronizing comes to -/

theorem synchronize_spec (h : Sound log) (epoch committed : ℤ) (committedHash : String) (base : ℤ)
    (baseHash : String) (values : List Json) : Synced log epoch committed committedHash base baseHash values
      ((synchronize epoch committed committedHash base baseHash values).exec log) := by
  obtain ⟨layout, h⟩ := h
  exact h.synchronize epoch committed committedHash base baseHash values

/-- One record on a new log. -/
theorem synchronize_record : ∃ (records added : List Envelope) (log' : PartitionLog),
    (synchronize 0 (-1) zero 0 zero [envelope (.obj [("offset", .int 0), ("timestamp", .int 0)]) zero]).exec
      (PartitionLog.new 256) = (.ok (), log') ∧ log'.manifest = ⟨0, zero, 0, -1⟩ ∧
      added.map Envelope.value = [(envelope (.obj [("offset", .int 0), ("timestamp", .int 0)]) zero).sortKeys] ∧
      Readable log' (records.filter (fun record => 0 ≤ record.offset ∧ record.offset ≤ -1) ++ added) := by
  obtain ⟨e, -, h⟩ | ⟨records, added, log', hrun, -, hmanifest, -, hadded, hreadable⟩ :=
    synchronize_spec (sound_new 256) 0 (-1) zero 0 zero
      [envelope (.obj [("offset", .int 0), ("timestamp", .int 0)]) zero]
  · have hok : ((synchronize 0 (-1) zero 0 zero
        [envelope (.obj [("offset", .int 0), ("timestamp", .int 0)]) zero]).exec (PartitionLog.new 256)).1.isOk = true := by
      decide +kernel
    rw [h] at hok
    cases hok
  · refine ⟨records, added, log', hrun, hmanifest, hadded fun value hvalue => ?_, hreadable⟩
    rw [List.mem_singleton.mp hvalue]
    simp [envelope, Json.WF, Json.FieldsWF]

/-- A record without an offset. -/
theorem synchronize_malformed :
    Sound (PartitionLog.new 256) ∧
      ((synchronize 0 (-1) zero 0 zero [.obj [("record", .obj []), ("previous", .str ""), ("hash", .str "")]]).exec
        (PartitionLog.new 256)).1 = .error (.keyError "offset") :=
  ⟨sound_new 256, by decide +kernel⟩

end SystemDesign.MessageQueue.Partition
