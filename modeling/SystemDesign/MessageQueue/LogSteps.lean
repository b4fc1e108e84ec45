import SystemDesign.MessageQueue.LogChanges

/-!
The operations on a partition's log that holds a layout.

`Readable` says what can be read: from every offset a first part of the records that stand there, and something wherever
there is a record. `align` keeps the records up to the committed offset, `retain` those from the base on; both raise
before they change anything.
-/

namespace SystemDesign.MessageQueue.Partition

open List hiding not_lt
open Locked

variable {log : PartitionLog} {layout : Layout}

/-! ### Running programs -/

section

variable {α β : Type}
variable {P : Except LogError β × PartitionLog → Prop}

theorem exec_lift_bind {x : Except LogError α} {f : α → Locked LogError PartitionLog β}
    (herror : ∀ e, x = .error e → P (.error e, log)) (hok : ∀ a, x = .ok a → P ((f a).exec log)) :
    P ((lift x >>= f).exec log) := by
  cases x with
  | error e =>
    rw [exec_bind_error (exec_lift _ _)]
    exact herror e rfl
  | ok a =>
    rw [exec_bind_ok (exec_lift _ _)]
    exact hok a rfl

/-- What else than the checks of a record raises. -/
def LogError.Announced : LogError → Prop
  | .keyError _ | .overflowError => False
  | _ => True

/-- A check raises and changes nothing, or the rest runs. -/
theorem exec_check_bind {c : Prop} [Decidable c] {e : LogError} {f : Unit → Locked LogError PartitionLog β}
    (herror : ∀ e : LogError, e.Announced → P (.error e, log)) (hannounced : e.Announced)
    (hok : c → P ((f ()).exec log)) : P ((lift (require c e) >>= f).exec log) := by
  by_cases h : c
  · rw [exec_bind_ok (exec_require h _ _)]
    exact hok h
  · rw [require, if_neg h, exec_bind_error (exec_lift _ _)]
    exact herror e hannounced

theorem exec_checkAvailable (h : log.failed = false) : checkAvailable.exec log = (.ok (), log) := by
  unfold checkAvailable
  rw [exec_bind_ok (exec_read _ _), exec_require h]

theorem exec_checkAvailable_bind {f : Unit → Locked LogError PartitionLog β}
    (herror : ∀ e : LogError, e.Announced → P (.error e, log)) (hok : log.failed = false → P ((f ()).exec log)) :
    P ((checkAvailable >>= f).exec log) := by
  cases hfailed : log.failed with
  | false =>
    rw [exec_bind_ok (exec_checkAvailable hfailed)]
    exact hok hfailed
  | true =>
    have hraise : checkAvailable.exec log
        = (.error (.corruption "partition requires reopening after a failed disk update"), log) := by
      unfold checkAvailable
      rw [exec_bind_ok (exec_read _ _), hfailed]
      rfl
    rw [exec_bind_error hraise]
    exact herror _ trivial

theorem exec_hashAt (hfailed : log.failed = false) {offset : ℤ} (h : -1 ≤ offset ∧ offset ≤ 2 ^ 53 - 1) :
    (hashAt offset).exec log = (.ok (log.hashAt offset), log) := by
  unfold hashAt
  rw [exec_bind_ok (exec_checkAvailable hfailed), integer, exec_bind_ok (exec_require h _ _), exec_read]

theorem exec_hashAt_bind (hfailed : log.failed = false) {offset : ℤ}
    {f : Option String → Locked LogError PartitionLog β} (herror : ∀ e : LogError, e.Announced → P (.error e, log))
    (hok : P ((f (log.hashAt offset)).exec log)) : P ((hashAt offset >>= f).exec log) := by
  by_cases h : -1 ≤ offset ∧ offset ≤ 2 ^ 53 - 1
  · rw [exec_bind_ok (exec_hashAt hfailed h)]
    exact hok
  · have hraise : (hashAt offset).exec log = (.error (.valueError "invalid integer"), log) := by
      unfold hashAt
      rw [exec_bind_ok (exec_checkAvailable hfailed), integer, require, if_neg h, exec_bind_error (exec_lift _ _)]
    rw [exec_bind_error hraise]
    exact herror _ trivial

theorem exec_failing {program : Locked LogError PartitionLog α} {log' : PartitionLog} {a : α}
    (h : program.exec log = (.ok a, log')) : (failing program).exec log = (.ok a, log') := by
  have hrun : ∀ f : PartitionLog → Except LogError α × PartitionLog,
      Locked.exec (ExceptT.mk f : Locked LogError PartitionLog α) log = f log := fun f => rfl
  rw [failing, hrun, h]

end

/-! ### Prepared values -/

/-- What is parsed is the JSON value of the payload. -/
theorem valueOf_value {payload : Bytes} {value : Envelope} (h : valueOf payload = .ok value) :
    (ofUtf8Bytes payload).bind Json.loads = some value.value := by
  unfold valueOf at h
  split at h
  · cases h
  · rename_i json hjson
    obtain ⟨_, -, h⟩ := of_bind h
    obtain ⟨_, -, h⟩ := of_bind h
    obtain ⟨_, -, h⟩ := of_bind h
    obtain ⟨_, -, h⟩ := of_bind h
    obtain ⟨_, -, h⟩ := of_bind h
    obtain ⟨_, -, h⟩ := of_bind h
    obtain ⟨_, -, h⟩ := of_bind h
    obtain ⟨_, -, h⟩ := of_bind h
    obtain ⟨_, -, h⟩ := of_bind h
    cases h
    exact hjson

variable {previous : String}

/-- Prepared values are linked from the given hash on, and they are the given ones, keys sorted. -/
theorem prepareFrom_spec {values : List Json} {base : ℤ} {total : ℕ} {prepared : List Stored}
    (h : prepareFrom values base previous total = .ok prepared) :
    Chained base previous (prepared.map Stored.value) ∧
      ((∀ value ∈ values, value.WF) → prepared.map (fun stored => stored.value.value) = values.map Json.sortKeys) := by
  induction values generalizing base previous total prepared with
  | nil =>
    cases h
    exact ⟨trivial, fun _ => rfl⟩
  | cons source values ih =>
    rw [prepareFrom] at h
    split at h
    · split at h
      · cases h
      · rename_i value hparsed
        obtain ⟨_, hlinked, h⟩ := of_bind h
        obtain ⟨rest, hrest, h⟩ := of_bind h
        cases h
        obtain ⟨hoffset, hprevious⟩ := require_eq_ok.mp hlinked
        obtain ⟨hchained, hvalues⟩ := ih hrest
        refine ⟨⟨hoffset, hprevious, hchained⟩, fun hwf => ?_⟩
        have hsource := valueOf_value hparsed
        rw [ofUtf8Bytes_utf8Bytes, Option.bind_some, Json.loads_encode (hwf source mem_cons_self)] at hsource
        rw [map_cons, map_cons, hvalues fun other hother => hwf other (mem_cons_of_mem _ hother)]
        rw [Option.some.inj hsource]
    · cases h

theorem prepare_spec {values : List Json} {base : ℤ} {prepared : List Stored}
    (h : prepare values base previous = .ok prepared) :
    Chained base previous (prepared.map Stored.value) ∧
      ((∀ value ∈ values, value.WF) → prepared.map (fun stored => stored.value.value) = values.map Json.sortKeys) := by
  unfold prepare at h
  split at h
  · cases h
  · exact prepareFrom_spec h

/-! ### Reading -/

theorem Consistent.readEntry_eq (h : Consistent layout log) {row : Row} (hrow : row ∈ rowsOf layout) :
    log.readEntry (Row.entry row) = .ok row.2.2.value := by
  obtain ⟨init, path, front, back, tail, hlayout, heq⟩ := mem_rowsOf hrow
  have hpath : (Row.entry row).path = path := by rw [heq]; rfl
  have hposition : (Row.entry row).position = (fileOf front).length := by rw [heq]; rfl
  have hnodup : ((filesOf layout).map Prod.fst).Nodup := by
    rw [filesOf, map_map]
    exact h.ordered.imp fun hlt => ne_of_lt hlt
  have hfile : (filesOf layout).lookup path = some (fileOf (front ++ row.2.2 :: back)) := by
    refine (Assoc.lookup_eq_some_iff hnodup).mpr ?_
    exact mem_map.mpr ⟨(path, front ++ row.2.2 :: back), hlayout ▸ mem_append_right _ mem_cons_self, rfl⟩
  have hdata : log.dataAt (Row.entry row) = frame row.2.2.payload ++ fileOf back := by
    rw [PartitionLog.dataAt, h.files, hpath, hposition, hfile, Option.getD_some, fileOf_append, drop_left]
    rfl
  have hsize : ¬ (headerSize + row.2.2.payload.length ≠ (Row.entry row).size) := fun hne => hne rfl
  have hhash : ¬ (row.2.2.value.hash ≠ (Row.entry row).hash) := fun hne => hne rfl
  rw [PartitionLog.readEntry, hdata, readFrame_frame]
  dsimp only
  rw [if_neg hsize, row.2.2.parsed]
  dsimp only
  rw [if_neg hhash]

/-- Reading so many numbers gives a part of the records from there on, and something unless the frame limit is met. -/
theorem Consistent.readNumbers_eq (h : Consistent layout log) (k count total : ℕ)
    (hle : k + count ≤ (liveValues log.manifest.base layout).length) :
    ∃ answer, log.readNumbers (numbersFrom (log.manifest.base + k) count) total = .ok answer ∧
      answer <+: ((liveValues log.manifest.base layout).drop k).take count ∧
      (total = 0 → 0 < count → answer ≠ []) := by
  induction count generalizing k total with
  | zero => exact ⟨[], rfl, nil_prefix, fun _ hpos => absurd hpos (Nat.lt_irrefl 0)⟩
  | succ count ih =>
    have hlength : (liveValues log.manifest.base layout).length = (live log.manifest.base (rowsOf layout)).length :=
      length_map ..
    have hk : k < (live log.manifest.base (rowsOf layout)).length := by omega
    have hk' : k < (liveValues log.manifest.base layout).length := by omega
    have hentry := h.get?_entries hk
    have hread := h.readEntry_eq (mem_filter.mp (getElem_mem hk)).1
    have hvalue : (live log.manifest.base (rowsOf layout))[k].2.2.value = (liveValues log.manifest.base layout)[k] := by
      simp [liveValues, valuesOf]
    have hsmall := (live log.manifest.base (rowsOf layout))[k].2.2.bounded.2
    have hsize : (Row.entry (live log.manifest.base (rowsOf layout))[k]).size
        = headerSize + (live log.manifest.base (rowsOf layout))[k].2.2.payload.length := rfl
    rw [numbersFrom, PartitionLog.readNumbers, hentry]
    dsimp only
    split
    · rename_i hgt
      refine ⟨[], rfl, nil_prefix, fun hzero _ => ?_⟩
      rw [hzero, hsize, headerSize] at hgt
      rw [maxFrameBytes] at hsmall
      rw [maxBatchBytes] at hgt
      omega
    · obtain ⟨answer, hanswer, hprefixed, -⟩ := ih (k + 1)
        (total + (Row.entry (live log.manifest.base (rowsOf layout))[k]).size) (by omega)
      have hshift : log.manifest.base + (k : ℤ) + 1 = log.manifest.base + ((k + 1 : ℕ) : ℤ) := by
        push_cast
        ring
      rw [hread, hshift]
      refine ⟨(liveValues log.manifest.base layout)[k] :: answer, ?_, ?_, fun _ _ => cons_ne_nil _ _⟩
      · show (log.readNumbers _ _ >>= fun values => _) = _
        rw [hanswer, ← hvalue]
        rfl
      · rw [drop_eq_getElem_cons hk', take_succ_cons]
        exact (prefix_cons_inj _).mpr hprefixed

/-- What can be read of a log. -/
def Readable (log : PartitionLog) (records : List Envelope) : Prop :=
  log.nextOffset = log.manifest.base + records.length ∧
    Chained log.manifest.base log.manifest.baseHash records ∧
    ∀ offset limit : ℤ, log.manifest.base ≤ offset → 0 ≤ offset → offset ≤ 2 ^ 53 - 1 → 1 ≤ limit →
      limit ≤ maxBatchRecords → ∃ answer, (read offset limit).exec log = (.ok answer, log) ∧
        answer <+: (records.drop (offset - log.manifest.base).toNat).take limit.toNat ∧
        (offset < log.nextOffset → answer ≠ [])

theorem Consistent.readable (h : Consistent layout log) (hfailed : log.failed = false) :
    Readable log (liveValues log.manifest.base layout) := by
  refine ⟨h.next, h.chained, fun offset limit hbase hzero hmax hone hlimit => ?_⟩
  have hnext := h.next
  have hexec (answer : List Envelope)
      (hanswer : log.readNumbers (numbers offset (min log.nextOffset (offset + limit))) 0 = .ok answer) :
      (read offset limit).exec log = (.ok answer, log) := by
    unfold Partition.read
    rw [exec_bind_ok (exec_checkAvailable hfailed), integer, exec_bind_ok (exec_require ⟨hzero, hmax⟩ _ _),
      exec_bind_ok (exec_require ⟨hone, hlimit⟩ _ _), exec_bind_ok (exec_read _ _)]
    dsimp only [id]
    rw [exec_bind_ok (exec_require hbase _ _), hanswer]
    exact exec_failing (exec_lift _ _)
  by_cases hpast : log.nextOffset ≤ offset
  · -- nothing stands at the offset
    have hnone : numbers offset (min log.nextOffset (offset + limit)) = [] := by
      rw [numbers, show (min log.nextOffset (offset + limit) - offset).toNat = 0 by omega]
      rfl
    exact ⟨[], hexec [] (by rw [hnone]; rfl), nil_prefix, fun hlt => absurd hlt (not_lt.mpr hpast)⟩
  · obtain ⟨k, rfl⟩ : ∃ k : ℕ, offset = log.manifest.base + k := ⟨(offset - log.manifest.base).toNat, by omega⟩
    obtain ⟨answer, hanswer, hprefixed, hnonempty⟩ := h.readNumbers_eq k
      (min log.nextOffset (log.manifest.base + k + limit) - (log.manifest.base + k)).toNat 0 (by omega)
    refine ⟨answer, hexec answer hanswer, hprefixed.trans ?_, fun _ => hnonempty rfl (by omega)⟩
    rw [show (log.manifest.base + (k : ℤ) - log.manifest.base).toNat = k by omega]
    exact take_prefix_take_left (by omega)

/-! ### Aligning -/

/-- What `align` comes to: an announced exception and no change, or the records up to the committed offset. -/
def Aligned (layout : Layout) (log : PartitionLog) (epoch committed : ℤ) (committedHash : String)
    (result : Except LogError Unit × PartitionLog) : Prop :=
  (∃ e : LogError, e.Announced ∧ result = (.error e, log)) ∨ ∃ layout' log', result = (.ok (), log') ∧ Consistent layout' log' ∧
    log'.manifest = { log.manifest with epoch, committed } ∧ log'.failed = false ∧ log'.nextOffset = committed + 1 ∧
    liveValues log.manifest.base layout'
      = (liveValues log.manifest.base layout).take (committed + 1 - log.manifest.base).toNat ∧
    lastHash log.manifest.baseHash (liveValues log.manifest.base layout') = committedHash

theorem Consistent.align (h : Consistent layout log) (epoch committed : ℤ) (committedHash : String) :
    Aligned layout log epoch committed committedHash ((align epoch committed committedHash).exec log) := by
  unfold Partition.align
  have herror (e : LogError) (he : e.Announced) : Aligned layout log epoch committed committedHash (.error e, log) :=
    .inl ⟨e, he, rfl⟩
  refine exec_checkAvailable_bind herror fun hfailed => ?_
  refine exec_check_bind herror trivial fun _ => exec_check_bind herror trivial fun _ => ?_
  refine exec_check_bind herror trivial fun _ => ?_
  rw [exec_bind_ok (exec_read _ _)]
  dsimp only [id]
  refine exec_check_bind herror trivial fun _ => exec_check_bind herror trivial fun hforward => ?_
  refine exec_hashAt_bind hfailed herror (exec_check_bind herror trivial fun hknown => ?_)
  obtain ⟨k, hk, hcommitted, hhash⟩ := h.of_hashAt hknown
  have hnext := h.next
  have hk' : (committed + 1 - log.manifest.base).toNat = k := by omega
  rw [exec_bind_ok (exec_effect _ _)]
  -- the files after the truncation
  obtain ⟨layout', htruncate, hvalues, hordered, hnamed⟩ : ∃ layout',
      (truncateSuffix (committed + 1)).exec { log with manifest := { log.manifest with epoch, committed } }
        = (.ok (), { log with manifest := { log.manifest with epoch, committed }, segments := filesOf layout' }) ∧
      liveValues log.manifest.base layout' = (liveValues log.manifest.base layout).take k ∧
      (layout'.map Prod.fst).Pairwise (· < ·) ∧
      ∀ file ∈ layout', file.1 ≤ committed + 1 ∧ ∀ stored ∈ file.2, file.1 ≤ stored.value.offset := by
    unfold truncateSuffix
    rw [exec_bind_ok (exec_read _ _)]
    dsimp only [id]
    by_cases hcut : committed + 1 < log.nextOffset
    · obtain ⟨entry, layout', hentry, hfiles, hvalues, hordered, hnamed⟩ := h.truncated
        (show log.manifest.base ≤ committed + 1 by omega) hcut
      refine ⟨layout', ?_, hk' ▸ hvalues, hordered, hnamed⟩
      rw [if_pos hcut, hentry]
      dsimp only
      rw [exec_effect, hfiles]
    · refine ⟨layout, ?_, ?_, h.ordered, fun file hfile => ⟨?_, (h.named file hfile).2⟩⟩
      · rw [if_neg hcut, exec_lift, ← h.files]
      · rw [take_of_length_le (by omega)]
      · have := (h.named file hfile).1
        omega
  have hsplit : Chained log.manifest.base log.manifest.baseHash
      ((liveValues log.manifest.base layout).take k ++ (liveValues log.manifest.base layout).drop k) := by
    rw [take_append_drop]
    exact h.chained
  have hchained : Chained log.manifest.base log.manifest.baseHash (liveValues log.manifest.base layout') := by
    rw [hvalues]
    exact (chained_append.mp hsplit).1
  have hcount : (liveValues log.manifest.base layout').length = k := by rw [hvalues, length_take_of_le hk]
  have hscan := scan_exec
    { log with manifest := { log.manifest with epoch, committed }, segments := filesOf layout' } rfl hchained
    (by show committed < log.manifest.base + (liveValues log.manifest.base layout').length; omega)
  have hrun := exec_failing (show (do truncateSuffix (committed + 1); scan : Locked LogError PartitionLog Unit).exec _
    = _ from (exec_bind_ok htruncate).trans hscan)
  rw [hrun]
  refine .inr ⟨layout', _, rfl, ?_, rfl, hfailed, ?_, by rw [hvalues, hk'], by rw [hvalues, hhash]⟩
  · exact
      { files := rfl
        chained := hchained
        entries := rfl
        next := rfl
        committed_lt := by
          show committed < log.manifest.base + (liveValues log.manifest.base layout').length
          omega
        base_le := by
          show log.manifest.base ≤ committed + 1
          omega
        ordered := hordered
        named := fun file hfile => ⟨by
          have := (hnamed file hfile).1
          show file.1 ≤ log.manifest.base + (liveValues log.manifest.base layout').length
          omega, (hnamed file hfile).2⟩ }
  · show log.manifest.base + ((liveValues log.manifest.base layout').length : ℤ) = committed + 1
    omega

/-- Contiguous offsets up to a number are those of a first part. -/
theorem Chained.filter_eq_take {offset : ℤ} {values : List Envelope} (h : Chained offset previous values) (last : ℤ) :
    values.filter (fun value => value.offset ≤ last) = values.take (last + 1 - offset).toNat := by
  induction values generalizing offset previous with
  | nil => simp
  | cons value values ih =>
    obtain ⟨hoffset, -, hrest⟩ := h
    by_cases hlast : value.offset ≤ last
    · obtain ⟨n, hn⟩ : ∃ n, (last + 1 - offset).toNat = n + 1 := ⟨(last - offset).toNat, by omega⟩
      rw [filter_cons_of_pos (by rw [decide_eq_true_eq]; exact hlast), hn, take_succ_cons, ih hrest]
      congr 2
      omega
    · rw [show (last + 1 - offset).toNat = 0 by omega, take_zero, filter_eq_nil_iff]
      intro other hother
      have hge : offset ≤ other.offset := by
        rcases mem_cons.mp hother with rfl | hother
        · exact hoffset.ge
        · have := (hrest.offset_ge hother).1
          omega
      rw [decide_eq_true_iff]
      omega

theorem Chained.filter_between {offset : ℤ} {values : List Envelope} (h : Chained offset previous values) {base : ℤ}
    (hle : offset ≤ base) (last : ℤ) :
    values.filter (fun value => base ≤ value.offset ∧ value.offset ≤ last)
      = (values.take (last + 1 - offset).toNat).drop (base - offset).toNat := by
  have hchained : Chained offset previous (values.take (last + 1 - offset).toNat) := by
    rw [← take_append_drop (last + 1 - offset).toNat values] at h
    exact (chained_append.mp h).1
  rw [← hchained.filter_eq_drop hle, ← h.filter_eq_take last, filter_filter]
  simp only [Bool.decide_and]

/-! ### Retaining -/

/-- `retain` raises and changes nothing, or its checks pass. -/
def Retaining (log : PartitionLog) (base : ℤ) (baseHash : String) (result : Except LogError Unit × PartitionLog) :
    Prop :=
  (∃ e, result = (.error e, log)) ∨ log.failed = false ∧ (0 ≤ base ∧ base ≤ 2 ^ 53 - 1) ∧ isHash baseHash ∧
    (log.manifest.base ≤ base ∧ base ≤ log.nextOffset) ∧ log.hashAt (base - 1) = some baseHash

theorem retaining (log : PartitionLog) (base : ℤ) (baseHash : String) :
    Retaining log base baseHash ((Partition.retain base baseHash).exec log) := by
  unfold Partition.retain
  have herror (e : LogError) (_ : e.Announced) : Retaining log base baseHash (.error e, log) := .inl ⟨e, rfl⟩
  refine exec_checkAvailable_bind herror fun hfailed => ?_
  refine exec_check_bind herror trivial fun hinteger => exec_check_bind herror trivial fun hhash => ?_
  rw [exec_bind_ok (exec_read _ _)]
  refine exec_hashAt_bind hfailed herror (exec_check_bind herror trivial fun ⟨hbounds, hknown⟩ => ?_)
  exact .inr ⟨hfailed, hinteger, hhash, hbounds, hknown⟩

/-- From a known checkpoint on the log is retained. -/
theorem Consistent.retain (h : Consistent layout log) (hfailed : log.failed = false) {base : ℤ} {baseHash : String}
    (hinteger : 0 ≤ base ∧ base ≤ 2 ^ 53 - 1) (hhash : isHash baseHash)
    (hbase : log.manifest.base ≤ base) (hnext : base ≤ log.nextOffset)
    (hknown : log.hashAt (base - 1) = some baseHash) :
    ∃ layout' log', (Partition.retain base baseHash).exec log = (.ok (), log') ∧ Consistent layout' log' ∧
      log'.manifest = ⟨base, baseHash, log.manifest.epoch, max log.manifest.committed (base - 1)⟩ ∧
      log'.failed = false ∧ log'.nextOffset = log.nextOffset ∧
      liveValues base layout' = (liveValues log.manifest.base layout).drop (base - log.manifest.base).toNat := by
  obtain ⟨layout', hfiles, hvalues, hsub⟩ := h.retained hbase
  obtain ⟨k, hk, hoffset, hlast⟩ := h.of_hashAt hknown
  have heq := h.next
  have hk' : (base - log.manifest.base).toNat = k := by omega
  have hcount : (liveValues base layout').length = (liveValues log.manifest.base layout).length - k := by
    rw [hvalues, length_drop, hk']
  have hchained : Chained base baseHash (liveValues base layout') := by
    have hsplit : Chained log.manifest.base log.manifest.baseHash
        ((liveValues log.manifest.base layout).take k ++ (liveValues log.manifest.base layout).drop k) := by
      rw [take_append_drop]
      exact h.chained
    have hback := (chained_append.mp hsplit).2
    rw [length_take_of_le hk, ← hlast, show log.manifest.base + (k : ℤ) = base by omega] at hback
    rw [hvalues, hk']
    exact hback
  have hcommitted := h.committed_lt
  have hbound : max log.manifest.committed (base - 1) < base + ((liveValues base layout').length : ℤ) := by omega
  have hminus : -1 ≤ base - 1 ∧ base - 1 ≤ 2 ^ 53 - 1 := by omega
  have hscan := scan_exec
    { log with
      manifest := { log.manifest with base, baseHash, committed := max log.manifest.committed (base - 1) }
      segments := filesOf layout' } rfl hchained hbound
  have hrun : (Partition.retain base baseHash).exec log = (.ok (), { log with
      manifest := { log.manifest with base, baseHash, committed := max log.manifest.committed (base - 1) }
      segments := filesOf layout'
      entries := noted (live base (rowsOf layout'))
      nextOffset := base + (liveValues base layout').length }) := by
    unfold Partition.retain
    rw [exec_bind_ok (exec_checkAvailable hfailed), integer, exec_bind_ok (exec_require hinteger _ _), checkHash,
      exec_bind_ok (exec_require hhash _ _), exec_bind_ok (exec_read _ _)]
    dsimp only [id]
    rw [exec_bind_ok (exec_hashAt hfailed hminus), exec_bind_ok (exec_require ⟨⟨hbase, hnext⟩, hknown⟩ _ _),
      exec_bind_ok (exec_effect _ _)]
    refine exec_failing ?_
    rw [exec_bind_ok (exec_effect _ _)]
    dsimp only
    rw [hfiles]
    exact hscan
  refine ⟨layout', _, hrun, ?_, rfl, hfailed, ?_, by rw [hvalues]⟩
  · exact
      { files := rfl
        chained := hchained
        entries := rfl
        next := rfl
        committed_lt := hbound
        base_le := by
          show base ≤ max log.manifest.committed (base - 1) + 1
          omega
        ordered := h.ordered.sublist (hsub.map Prod.fst)
        named := fun file hfile => by
          have hnamed := h.named file (hsub.subset hfile)
          refine ⟨?_, hnamed.2⟩
          show file.1 ≤ base + ((liveValues base layout').length : ℤ)
          omega }
  · show base + ((liveValues base layout').length : ℤ) = log.nextOffset
    omega

/-- The base is advanced to a known checkpoint, or it stands there. -/
theorem Consistent.advanceBase (h : Consistent layout log) (hfailed : log.failed = false) {base : ℤ}
    {baseHash : String} (hinteger : 0 ≤ base ∧ base ≤ 2 ^ 53 - 1) (hhash : isHash baseHash)
    (hbase : log.manifest.base ≤ base) (hcommitted : base ≤ log.manifest.committed + 1)
    (hknown : log.hashAt (base - 1) = some baseHash) :
    ∃ layout' log', (Partition.advanceBase base baseHash).exec log = (.ok (), log') ∧ Consistent layout' log' ∧
      log'.manifest = ⟨base, baseHash, log.manifest.epoch, log.manifest.committed⟩ ∧ log'.failed = false ∧
      log'.nextOffset = log.nextOffset ∧
      liveValues base layout' = (liveValues log.manifest.base layout).drop (base - log.manifest.base).toNat := by
  have hlt := h.committed_lt
  unfold Partition.advanceBase
  rw [exec_bind_ok (exec_read _ _)]
  dsimp only [id]
  by_cases hadvance : log.manifest.base < base
  · obtain ⟨layout', log', hrun, h', hmanifest, hfailed', hnext, hvalues⟩ := h.retain hfailed hinteger hhash hbase
      (by omega) hknown
    refine ⟨layout', log', by rw [if_pos hadvance, hrun], h', ?_, hfailed', hnext, hvalues⟩
    rw [hmanifest, max_eq_left (by omega)]
  · obtain rfl : base = log.manifest.base := by omega
    rw [PartitionLog.hashAt, if_pos rfl] at hknown
    refine ⟨layout, log, by rw [if_neg hadvance, exec_lift], h, ?_, hfailed, rfl, ?_⟩
    · rw [← Option.some.inj hknown]
    · rw [show (log.manifest.base - log.manifest.base).toNat = 0 by omega, drop_zero]

end SystemDesign.MessageQueue.Partition
