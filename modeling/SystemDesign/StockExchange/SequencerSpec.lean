import SystemDesign.StockExchange.Sequencer

/-!
Every database that calls of a sequencer leave behind holds a journal that
replays: the rows are the chain of the opening and of valid commands the reducer
accepts one after the other, and the deduplication index lists exactly these.
-/

namespace SystemDesign.StockExchange

open List

/-! ### Computations on the database -/

namespace Tx

variable {α β : Type}

@[simp] theorem lift_eq (x : Py α) (db : Db) : (liftM x : Tx α) db = (x, db) := rfl

variable {db db' : Db} {x : Tx α} {f : α → Tx β}

variable {a : α}

theorem bind_of_ok (h : x db = (.ok a, db')) : (x >>= f) db = f a db' := by
  simp [bind, h]

variable {e : PyError}

theorem bind_of_error (h : x db = (.error e, db')) : (x >>= f) db = (.error e, db') := by
  simp [bind, h]

theorem lift_bind_ok {x : Py α} (h : x = .ok a) :
    ((liftM x : Tx α) >>= f) db = f a db := bind_of_ok (by rw [lift_eq, h])

theorem lift_bind_error {x : Py α} (h : x = .error e) :
    ((liftM x : Tx α) >>= f) db = (.error e, db) := bind_of_error (by rw [lift_eq, h])

/-- A returned result went through the first step. -/
theorem lift_bind_eq_ok {x : Py α} {b : β} (h : ((liftM x : Tx α) >>= f) db = (.ok b, db')) :
    ∃ a, x = .ok a ∧ f a db = (.ok b, db') := by
  cases hx : x with
  | error e =>
    rw [lift_bind_error hx] at h
    cases h
  | ok a => exact ⟨a, rfl, by rwa [lift_bind_ok hx] at h⟩

/-- A returned result did not take the raising branch. -/
theorem guard_eq_ok {c : Prop} [Decidable c] (h : (if c then lift (.error e) else x) db = (.ok a, db')) :
    x db = (.ok a, db') := by
  by_cases hc : c
  · rw [if_pos hc] at h
    cases h
  · rwa [if_neg hc] at h

theorem database_bind (f : Db → Tx β) (db : Db) : (database >>= f) db = f db db := rfl

theorem transaction_ok (h : x db = (.ok a, db')) : transaction x db = (.ok a, db') := by
  simp [transaction, h]

theorem transaction_error (h : x db = (.error e, db')) : transaction x db = (.error e, db) := by
  simp [transaction, h]

end Tx

/-! ### The chain of rows -/

/-- The rows of a journal that starts after `seq` rows with the given hash. -/
def journalFrom : ℤ → String → List Json → List (ℤ × Json)
  | _, _, [] => []
  | seq, previous, event :: events =>
      (seq + 1, entry (seq + 1) previous event) :: journalFrom (seq + 1) (entryHash (seq + 1) previous event) events

/-- The hash a journal ends with. -/
def headFrom : ℤ → String → List Json → String
  | _, previous, [] => previous
  | seq, previous, event :: events =>
      headFrom (seq + 1) (entryHash (seq + 1) previous event) events

theorem journalFrom_append (seq : ℤ) (previous : String) (events : List Json) (event : Json) :
    journalFrom seq previous (events ++ [event]) = journalFrom seq previous events ++
      [(seq + events.length + 1, entry (seq + events.length + 1) (headFrom seq previous events) event)] := by
  induction events generalizing seq previous with
  | nil => simp [journalFrom, headFrom]
  | cons e events ih =>
    simp only [cons_append, journalFrom, headFrom, ih, length_cons]
    have : seq + 1 + (events.length : ℤ) + 1 = seq + ((events.length + 1 : ℕ) : ℤ) + 1 := by
      push_cast
      ring
    rw [this]

theorem journalFrom_keys (seq : ℤ) (previous : String) (events : List Json) :
    (journalFrom seq previous events).map Prod.fst = (List.range events.length).map fun i : ℕ => seq + 1 + i := by
  induction events generalizing seq previous with
  | nil => rfl
  | cons e events ih =>
    rw [journalFrom, map_cons, ih, length_cons, range_succ_eq_map, map_cons, map_map]
    congr 1
    · simp
    · refine map_congr_left fun i _ => ?_
      simp only [Function.comp_apply]
      push_cast
      ring

variable {event : Json}

theorem entry_wf {seq : ℤ} {previous : String} (h : event.WF) : (entry seq previous event).WF :=
  ⟨by simp, trivial, trivial, h, trivial, trivial⟩

/-- The text of a row sees its event up to key order. -/
theorem entry_encode_congr {event' : Json} (h : event.sortKeys = event'.sortKeys) (seq : ℤ) (previous : String) :
    (entry seq previous event).encode = (entry seq previous event').encode := by
  have hhash : entryHash seq previous event = entryHash seq previous event' := by
    simp only [entryHash, checksum, Json.encode, entryBase, Json.sortKeys, Json.sortFields, h]
  simp only [entry, Json.encode, Json.sortKeys, Json.sortFields, h, hhash]

theorem readRow_entry {seq : ℤ} {previous : String} (h : event.WF) :
    readRow (entry seq previous event).encode = .ok (entry seq previous event).sortKeys := by
  rw [readRow, Json.loads_encode (entry_wf h)]

section
variable (seq : ℤ) (previous : String) (event : Json)

theorem entry_nodup : ([("seq", Json.int seq), ("previous", .str previous), ("event", event),
    ("hash", .str (entryHash seq previous event))].map Prod.fst).Nodup := by simp

theorem item_entry_event : item (entry seq previous event).sortKeys "event" = .ok event.sortKeys :=
  item_sortKeys (entry_nodup seq previous event) rfl

theorem intItem_entry_seq : intItem (entry seq previous event).sortKeys "seq" = .ok seq := by
  have h := item_sortKeys (k := "seq") (entry_nodup seq previous event) rfl
  rw [intItem, entry, h]
  rfl

theorem strItem_entry_hash : strItem (entry seq previous event).sortKeys "hash"
    = .ok (entryHash seq previous event) := by
  have h := item_sortKeys (k := "hash") (entry_nodup seq previous event) rfl
  rw [strItem, entry, h]
  rfl

end

/-! ### The invariant -/

namespace OrderCommand

def requestKey (c : OrderCommand) : String × String := (c.owner, c.body.requestId)

/-- The receipt of a submitted command. -/
def receipt (c : OrderCommand) : Receipt := ⟨Sequencer.fingerprint (.str c.body.kind) c.body.toJson, c.seq⟩

theorem toJson_wf (c : OrderCommand) : c.toJson.WF :=
  ⟨by simp, trivial, trivial, trivial, trivial, c.body.toJson_wf, trivial⟩

end OrderCommand

/-- The events of a journal: the opening and the commands after it. -/
def eventsOf (opening : Json) (commands : List OrderCommand) : List Json := opening :: commands.map OrderCommand.toJson

/-- An opening event for the settings. -/
structure IsOpening (st : Settings) (opening : Json) : Prop where
  wf : opening.WF
  kind : item opening.sortKeys "kind" = .ok (.str "genesis")
  owner : opening.sortKeys.get? "owner" = none
  opens : reduceCommand none opening = .ok (genesis st)

/-- The commands carry the numbers after `n`. -/
def Numbered : ℤ → List OrderCommand → Prop
  | _, [] => True
  | n, c :: commands => c.seq = n + 1 ∧ Numbered (n + 1) commands

variable {commands : List OrderCommand}

variable {c : OrderCommand}

theorem Numbered.append {n : ℤ} (h : Numbered n commands) (hc : c.seq = n + commands.length + 1) :
    Numbered n (commands ++ [c]) := by
  induction commands generalizing n with
  | nil => exact ⟨by simpa using hc, trivial⟩
  | cons d commands ih =>
    refine ⟨h.1, ih h.2 ?_⟩
    rw [hc, length_cons]
    push_cast
    ring

/-- The database holds a journal that replays to `s`. -/
structure Journaled (st : Settings) (opening : Json) (commands : List OrderCommand) (s : State)
    (db : Db) : Prop where
  opens : IsOpening st opening
  valid : ∀ c ∈ commands, c.Valid
  owners : ∀ c ∈ commands, st.accounts.contains c.owner = true
  replayed : applyAll (genesis st) commands = .ok s
  inv : StateInv s
  settings : s.settings = st
  numbered : s.lastSeq = commands.length + 1
  numbers : Numbered 1 commands
  rows : db.events.entries = (journalFrom 0 zeroHash (eventsOf opening commands)).map fun p => (p.1, p.2.encode)
  distinct : (commands.map OrderCommand.requestKey).Nodup
  receipts : ∀ k r, db.requests.get? k = some r ↔ ∃ c ∈ commands, c.requestKey = k ∧ c.receipt = r
  control : ∃ c, db.control = some c ∧ s.lastTimestamp ≤ c.timestamp ∧ 1 ≤ c.timestamp ∧ c.timestamp ≤ maxTimestamp

/-- A computation that raises and leaves the database alone, or keeps `P`. -/
def Tx.Sound {α : Type} (P : Db → Prop) (x : Tx α) : Prop :=
  ∀ db, P db → (∃ e, x db = (.error e, db)) ∨ ∃ a db', x db = (.ok a, db') ∧ P db'

namespace Tx.Sound

variable {α β : Type} {P : Db → Prop}

theorem lift_bind (x : Py α) {f : α → Tx β} (h : ∀ a, x = .ok a → Sound P (f a)) :
    Sound P ((liftM x : Tx α) >>= f) := by
  intro db hdb
  cases hx : x with
  | error e => exact .inl ⟨e, Tx.lift_bind_error rfl⟩
  | ok a =>
    rw [Tx.lift_bind_ok rfl]
    exact h a hx db hdb

theorem guard {c : Prop} [Decidable c] (e : PyError) {x : Tx α} (h : Sound P x) :
    Sound P (if c then Tx.lift (.error e) else x) := by
  by_cases hc : c
  · rw [if_pos hc]
    exact fun _ _ => .inl ⟨e, rfl⟩
  · rwa [if_neg hc]

theorem transaction {x : Tx α} (h : ∀ db, P db → ∀ a db', x db = (.ok a, db') → P db') :
    Sound P (Tx.transaction x) := by
  intro db hdb
  cases hx : x db with
  | mk r db' =>
    cases r with
    | error e => exact .inl ⟨e, Tx.transaction_error hx⟩
    | ok a => exact .inr ⟨a, db', Tx.transaction_ok hx, h db hdb a db' hx⟩

theorem then_read {x : Tx α} {y : Tx β} (hx : Sound P x)
    (hy : ∀ db, P db → ∃ b, y db = (.ok b, db)) : Sound P (x >>= fun _ => y) := by
  intro db hdb
  rcases hx db hdb with ⟨e, he⟩ | ⟨a, db', ha, hdb'⟩
  · exact .inl ⟨e, Tx.bind_of_error he⟩
  · obtain ⟨b, hb⟩ := hy db' hdb'
    exact .inr ⟨b, db', by rw [Tx.bind_of_ok ha, hb], hdb'⟩

end Tx.Sound

section
variable {st : Settings} {opening : Json} {commands : List OrderCommand} {s : State} {db : Db}

theorem eventsOf_wf (h : IsOpening st opening) {event : Json} (he : event ∈ eventsOf opening commands) : event.WF := by
  rcases mem_cons.mp he with rfl | he
  · exact h.wf
  · obtain ⟨c, -, rfl⟩ := mem_map.mp he
    exact c.toJson_wf

theorem Journaled.keys (h : Journaled st opening commands s db) :
    db.events.keys = (List.range (commands.length + 1)).map fun i : ℕ => (1 + i : ℤ) := by
  have hk := journalFrom_keys 0 zeroHash (eventsOf opening commands)
  have hlen : (eventsOf opening commands).length = commands.length + 1 := by simp [eventsOf]
  rw [hlen] at hk
  rw [SortedMap.keys, h.rows, map_map]
  simpa [Function.comp_def] using hk

theorem Journaled.key_le (h : Journaled st opening commands s db) {n : ℤ}
    (hn : n ∈ db.events.keys) : n ≤ s.lastSeq := by
  rw [h.keys] at hn
  obtain ⟨i, hi, rfl⟩ := mem_map.mp hn
  have := mem_range.mp hi
  have := h.numbered
  omega

/-- The last row is that of the last event. -/
theorem Journaled.tail (h : Journaled st opening commands s db) :
    db.tail = .ok (s.lastSeq, headFrom 0 zeroHash (eventsOf opening commands)) := by
  obtain ⟨events, event, hev⟩ : ∃ events event, eventsOf opening commands = events ++ [event] := by
    rcases eq_nil_or_concat (eventsOf opening commands) with hnil | ⟨l, e, hl⟩
    · simp [eventsOf] at hnil
    · exact ⟨l, e, by rw [hl, concat_eq_append]⟩
  have hmem : event ∈ eventsOf opening commands := by rw [hev]; simp
  have hwf : event.WF := eventsOf_wf h.opens hmem
  have hlen : (events.length : ℤ) + 1 = s.lastSeq := by
    have := congrArg List.length hev
    simp [eventsOf] at this
    have := h.numbered
    omega
  have hlast : db.events.values.getLast? = some (entry (0 + events.length + 1)
      (headFrom 0 zeroHash events) event).encode := by
    rw [SortedMap.values, h.rows, hev, journalFrom_append]
    simp
  have hhead : ∀ seq previous events, headFrom seq previous (events ++ [event])
      = entryHash (seq + events.length + 1) (headFrom seq previous events) event := by
    intro seq previous events
    induction events generalizing seq previous with
    | nil => simp [headFrom]
    | cons e events ih =>
      simp only [cons_append, headFrom, ih, length_cons]
      congr 1
      push_cast
      ring
  rw [Db.tail, hlast]
  simp only [readRow_entry hwf, Py.bind_ok, intItem_entry_seq, strItem_entry_hash, Py.pure_eq]
  rw [hev, hhead, zero_add, hlen]

theorem Journaled.control_read (h : Journaled st opening commands s db) : ∃ a, Sequencer.control db = (.ok a, db) := by
  obtain ⟨c, hc, -⟩ := h.control
  have hrow : db.controlRow = .ok c := by simp [Db.controlRow, hc]
  refine ⟨.control c.epoch c.active c.timestamp s.lastSeq (headFrom 0 zeroHash (eventsOf opening commands)), ?_⟩
  simp only [Sequencer.control, hrow, h.tail, Py.bind_ok, Py.pure_eq]

/-- Only the clock of the control row matters to the journal. -/
theorem Journaled.setControl (h : Journaled st opening commands s db) {c c' : Control} (hc : db.control = some c)
    (hle : c.timestamp ≤ c'.timestamp) (hmax : c'.timestamp ≤ maxTimestamp) :
    Journaled st opening commands s { db with control := some c' } := by
  obtain ⟨c0, hc0, hlast, hpos, -⟩ := h.control
  obtain rfl : c0 = c := Option.some.inj (hc0.symm.trans hc)
  exact { h with control := ⟨c', rfl, by omega, by omega, hmax⟩ }

/-- A valid command of a known owner is executed by the replayed state. -/
theorem Journaled.executes (h : Journaled st opening commands s db) (hv : c.Valid) (hseq : c.seq = s.lastSeq + 1)
    (hclock : s.lastTimestamp ≤ c.timestamp) (howner : st.accounts.contains c.owner = true) :
    ∃ s', c.apply s = .ok s' ∧ StateInv s' ∧ s'.settings = st ∧ s'.lastSeq = c.seq ∧
      s'.lastTimestamp = c.timestamp := by
  obtain ⟨o, ho⟩ := SortedMap.contains_iff.mp howner
  obtain ⟨a, ha, -⟩ := h.inv.inv.funds.opened c.owner o (by rw [h.settings]; exact ho)
  have hacc : Command.Accepted s ⟨c.seq, c.timestamp, c.owner, .str c.body.kind, c.body.toJson⟩
      c.body := ⟨hv.seq, hv.timestamp, hv.owner, hseq, hclock, ⟨a, ha⟩, validate_toJson hv.body⟩
  obtain ⟨s1, s', hrun, hinv, -, -, -, -, hset, hlast, hstamp⟩ := runBody_returns h.inv hacc
  refine ⟨s', ?_, hinv, hset.trans h.settings, hlast, hstamp⟩
  have hcontains : s.accounts.contains c.owner = true := SortedMap.contains_iff.mpr ⟨a, ha⟩
  rw [OrderCommand.apply, if_neg (by omega), if_neg (by simp [hcontains])]
  exact hrun

theorem Journaled.append (h : Journaled st opening commands s db) {s' : State} (hv : c.Valid)
    (howner : st.accounts.contains c.owner = true) (hseq : c.seq = s.lastSeq + 1)
    (hnew : db.requests.get? c.requestKey = none) (hrun : c.apply s = .ok s') (hinv : StateInv s')
    (hset : s'.settings = st) (hlast : s'.lastSeq = c.seq) {row : Control} (hrow : db.control = some row)
    (hstamp : s'.lastTimestamp = row.timestamp) : Journaled st opening (commands ++ [c]) s'
      ⟨db.events.insert c.seq (entry c.seq (headFrom 0 zeroHash (eventsOf opening commands))
        c.toJson).encode, db.requests.set c.requestKey c.receipt, db.control⟩ := by
  have hcount := h.numbered
  have hbeyond : ∀ n ∈ db.events.keys, n < c.seq := fun n hn => by
    have := h.key_le hn
    omega
  have hfresh : ∀ d ∈ commands, d.requestKey ≠ c.requestKey := fun d hd he => by
    have := (h.receipts c.requestKey d.receipt).mpr ⟨d, hd, he, rfl⟩
    rw [hnew] at this
    cases this
  refine ⟨h.opens, ?_, ?_, ?_, hinv, hset, ?_, ?_, ?_, ?_, ?_, ?_⟩
  · intro d hd
    rcases mem_append.mp hd with hd | hd
    · exact h.valid d hd
    · rw [mem_singleton.mp hd]
      exact hv
  · intro d hd
    rcases mem_append.mp hd with hd | hd
    · exact h.owners d hd
    · rw [mem_singleton.mp hd]
      exact howner
  · rw [applyAll, foldlM_append]
    show (applyAll (genesis st) commands >>= _) = _
    rw [h.replayed, Py.bind_ok, foldlM_cons, hrun]
    rfl
  · rw [hlast, hseq, hcount]
    simp
  · exact h.numbers.append (by omega)
  · show (db.events.insert _ _).entries = _
    have hev : eventsOf opening (commands ++ [c]) = eventsOf opening commands ++ [c.toJson] := by
      simp [eventsOf]
    have hlen : (0 : ℤ) + (eventsOf opening commands).length + 1 = c.seq := by
      simp only [eventsOf, length_cons, length_map]
      push_cast
      omega
    rw [SortedMap.insert_entries_of_gt hbeyond, h.rows, hev, journalFrom_append, hlen]
    simp
  · rw [map_append, nodup_append]
    refine ⟨h.distinct, by simp, ?_⟩
    intro a ha b hb hab
    obtain ⟨d, hd, rfl⟩ := mem_map.mp ha
    simp only [map_cons, map_nil, mem_singleton] at hb
    exact hfresh d hd (hab.trans hb)
  · intro k r
    show (db.requests.set c.requestKey c.receipt).get? k = some r ↔ _
    rw [Dict.get?_set]
    by_cases hk : k = c.requestKey
    · rw [if_pos hk, Option.some.injEq]
      constructor
      · rintro rfl
        exact ⟨c, by simp, hk.symm, rfl⟩
      · rintro ⟨d, hd, hdk, rfl⟩
        rcases mem_append.mp hd with hd | hd
        · exact absurd (hdk.trans hk) (hfresh d hd)
        · rw [mem_singleton.mp hd]
    · rw [if_neg hk, h.receipts]
      constructor
      · rintro ⟨d, hd, hdk, hr⟩
        exact ⟨d, by simp [hd], hdk, hr⟩
      · rintro ⟨d, hd, hdk, hr⟩
        rcases mem_append.mp hd with hd | hd
        · exact ⟨d, hd, hdk, hr⟩
        · rw [mem_singleton.mp hd] at hdk
          exact absurd hdk.symm hk
  · obtain ⟨c0, hc0, -, hpos, hmax⟩ := h.control
    obtain rfl : c0 = row := Option.some.inj (hc0.symm.trans hrow)
    exact ⟨c0, hc0, hstamp.le, hpos, hmax⟩

/-! ### The calls keep the invariant -/

theorem Journaled.append_keeps (h : Journaled st opening commands s db) {b : Body} (hb : b.Valid) {owner : String}
    (howner : st.accounts.contains owner = true) {kind body : Json} (hkind : kind = .str b.kind)
    (hbody : body.sortKeys = b.toJson.sortKeys) (hnew : db.requests.get? (owner, b.requestId) = none) {a : Answer}
    {db' : Db} (hok : Sequencer.append owner b.requestId kind body db = (.ok a, db')) :
    ∃ commands' s', Journaled st opening commands' s' db' := by
  obtain ⟨row, hrow, hle, hpos, hmax⟩ := h.control
  have hread : db.controlRow = .ok row := by simp [Db.controlRow, hrow]
  rw [Sequencer.append, Tx.database_bind, Tx.lift_bind_ok h.tail] at hok
  dsimp only at hok
  by_cases hfull : 1001 ≤ s.lastSeq
  · rw [if_pos hfull] at hok
    cases hok
  rw [if_neg hfull, Tx.lift_bind_ok hread] at hok
  -- the command as the reducer will read it
  let c : OrderCommand := ⟨s.lastSeq + 1, row.timestamp, owner, b⟩
  have hseq := h.inv.lastSeq
  obtain ⟨o, ho⟩ := SortedMap.contains_iff.mp howner
  have hset := h.settings
  have hid : isIdentifier owner = true := (h.inv.inv.settings.account owner o (by rw [hset]; exact ho)).1
  have hv : c.Valid := ⟨⟨by show 2 ≤ s.lastSeq + 1; omega, by show s.lastSeq + 1 ≤ 1001; omega⟩,
    ⟨hpos, hmax⟩, hid, hb⟩
  obtain ⟨s', hrun, hinv, hset', hlast', hstamp'⟩ := h.executes hv rfl hle howner
  have hjson : (Sequencer.commandJson (s.lastSeq + 1) row.timestamp owner kind body).sortKeys = c.toJson.sortKeys := by
    simp only [Sequencer.commandJson, OrderCommand.toJson, Json.sortKeys, Json.sortFields, hkind, hbody, c]
  have hprint : Sequencer.fingerprint kind body = Sequencer.fingerprint (.str b.kind) b.toJson := by
    simp only [Sequencer.fingerprint, checksum, Json.encode, Json.sortKeys, Json.sortItems, hkind, hbody]
  have hevent : db.events.contains (s.lastSeq + 1) = false := by
    by_contra hc
    have hmem := SortedMap.mem_keys.mpr (SortedMap.contains_iff.mp (by simpa using hc))
    have := h.key_le hmem
    omega
  have hreq : db.requests.contains (owner, b.requestId) = false := Dict.contains_eq_false_iff.mpr hnew
  rw [Tx.bind_of_ok (a := ()) (by rw [Tx.insertEvent, hevent]; rfl),
    Tx.bind_of_ok (a := ()) (by rw [Tx.insertRequest, hreq]; rfl), entry_encode_congr hjson,
    hprint] at hok
  obtain ⟨-, rfl⟩ := Prod.mk.inj hok
  exact ⟨commands ++ [c], s', h.append hv howner rfl hnew hrun hinv hset' hlast' hrow hstamp'⟩

end

/-- The database is that of a sequencer opened with `opening`. -/
def Good (q : Sequencer) (opening : Json) (db : Db) : Prop := ∃ commands s, Journaled q.settings opening commands s db

theorem knownOwner_eq_ok {q : Sequencer} {owner : Json} {name : String} :
    q.knownOwner owner = .ok name ↔ owner = .str name ∧ q.settings.accounts.contains name = true := by
  cases owner with
  | str n =>
    simp only [Sequencer.knownOwner, Json.str.injEq]
    by_cases hc : q.settings.accounts.contains n = true
    · rw [if_pos hc, Except.ok.injEq]
      constructor
      · rintro rfl
        exact ⟨rfl, hc⟩
      · rintro ⟨rfl, -⟩
        rfl
    · rw [if_neg hc]
      constructor
      · intro h
        cases h
      · rintro ⟨rfl, hc'⟩
        exact absurd hc' hc
  | _ => simp [Sequencer.knownOwner, unhashable]

theorem submit_sound (q : Sequencer) (opening : Json) (owner kind : Json) {body : Json}
    (hwf : body.WF) : Tx.Sound (Good q opening) (q.submit owner kind body) := by
  refine .lift_bind _ fun b hb => .lift_bind _ fun frozen hfrozen => .lift_bind _ fun name hname => .transaction ?_
  rintro db ⟨commands, s, h⟩ a db' hok
  obtain ⟨-, howner⟩ := knownOwner_eq_ok.mp hname
  obtain ⟨hbody, hkind⟩ := validate_frozen hwf hb
  have hsorted : frozen.sortKeys = b.toJson.sortKeys := by
    rw [freeze_of_wf hwf] at hfrozen
    obtain rfl := Except.ok.inj hfrozen
    rw [Json.sortKeys_sortKeys, hbody]
  rw [Tx.database_bind] at hok
  cases hreq : db.requests.get? (name, b.requestId) with
  | some old =>
    simp only [hreq] at hok
    split_ifs at hok
    · cases hok
    · obtain ⟨-, rfl⟩ := Prod.mk.inj hok
      exact ⟨commands, s, h⟩
  | none =>
    simp only [hreq] at hok
    exact h.append_keeps (validate_valid hb) howner hkind hsorted hreq hok

theorem clock_sound (q : Sequencer) (opening timestamp : Json) :
    Tx.Sound (Good q opening) (Sequencer.clock timestamp) := by
  refine .lift_bind _ fun stamp hstamp => .then_read (.transaction ?_) ?_
  · rintro db ⟨commands, s, h⟩ a db' hok
    obtain ⟨row, hrow, -⟩ := h.control
    have hread : db.controlRow = .ok row := by simp [Db.controlRow, hrow]
    rw [Tx.database_bind, Tx.lift_bind_ok hread] at hok
    split_ifs at hok with hback
    · cases hok
    · obtain ⟨-, rfl⟩ := Prod.mk.inj hok
      exact ⟨commands, s, h.setControl hrow (by simpa using hback) (integer_eq_ok.mp hstamp).2.2⟩
  · rintro db ⟨commands, s, h⟩
    exact h.control_read

theorem promote_sound (q : Sequencer) (opening node replica : Json) :
    Tx.Sound (Good q opening) (Sequencer.promote node replica) := by
  refine .lift_bind _ fun frozen _ => .guard _ <| .lift_bind _ fun _ _ => .lift_bind _ fun _ _ =>
    .lift_bind _ fun _ _ => .lift_bind _ fun hash _ => .lift_bind _ fun candidate _ => .guard _ <|
    .then_read (.transaction ?_) ?_
  · rintro db ⟨commands, s, h⟩ a db' hok
    obtain ⟨row, hrow, -, -, hmax⟩ := h.control
    have hread : db.controlRow = .ok row := by simp [Db.controlRow, hrow]
    rw [Tx.database_bind] at hok
    obtain ⟨rows, -, hok⟩ := Tx.lift_bind_eq_ok hok
    obtain ⟨complete, -, hok⟩ := Tx.lift_bind_eq_ok hok
    obtain ⟨expected, -, hok⟩ := Tx.lift_bind_eq_ok (Tx.guard_eq_ok hok)
    have hok := Tx.guard_eq_ok hok
    rw [Tx.lift_bind_ok hread] at hok
    by_cases hactive : isText node row.active = true
    · rw [if_neg (not_not.mpr hactive)] at hok
      obtain ⟨-, rfl⟩ := Prod.mk.inj hok
      exact ⟨commands, s, h⟩
    · rw [if_pos hactive] at hok
      obtain ⟨-, rfl⟩ := Prod.mk.inj hok
      exact ⟨commands, s, h.setControl hrow le_rfl hmax⟩
  · rintro db ⟨commands, s, h⟩
    exact h.control_read

/-- Every call raises and changes nothing, or keeps the journal replayable. -/
theorem call_sound (q : Sequencer) (opening : Json) (c : Sequencer.Call) : Tx.Sound (Good q opening) (q.call c) := by
  cases c with
  | submit owner kind body => exact submit_sound q opening owner.1 kind.1 body.2
  | clock timestamp => exact clock_sound q opening timestamp.1
  | promote node replica => exact promote_sound q opening node.1 replica.1

variable {db : Db} {opening : Json}

theorem run_good {q : Sequencer} (h : Good q opening db) (calls : List Sequencer.Call) :
    Good q opening (q.run db calls) := by
  induction calls generalizing db with
  | nil => exact h
  | cons c calls ih =>
    refine ih ?_
    show Good q opening (q.call c db).2
    rcases call_sound q opening c db h with ⟨e, he⟩ | ⟨a, db', ha, hdb'⟩
    · rw [he]
      exact h
    · rw [ha]
      exact hdb'

/-! ### Opening -/

variable {st : Settings}

variable {settings : Json}

theorem openingJson_isOpening (hwf : settings.WF) (h : StockExchange.settings settings = .ok st) :
    IsOpening st (Sequencer.openingJson settings.sortKeys) := by
  have hn : ([("kind", Json.str "genesis"), ("settings", settings.sortKeys)].map Prod.fst).Nodup := by
    simp
  refine ⟨⟨hn, trivial, Json.sortKeys_wf _ hwf, trivial⟩,
    item_sortKeys (v := .str "genesis") hn rfl, Json.get?_sortKeys hn "owner", ?_⟩
  have hfields : ∃ r, fields (Sequencer.openingJson settings.sortKeys) ["kind", "settings"] = .ok r :=
    ⟨_, by simp [Sequencer.openingJson, fields]; rfl⟩
  obtain ⟨r, hr⟩ := hfields
  have hitem : item (Sequencer.openingJson settings.sortKeys) "settings" = .ok settings.sortKeys := rfl
  have hkind : ((Sequencer.openingJson settings.sortKeys).get? "kind").any (isText · "genesis") = true := rfl
  rw [Sequencer.openingJson, reduceCommand, ← Sequencer.openingJson, if_pos hkind, hr, Py.bind_ok, hitem]
  simp only [Option.isSome_none, Bool.false_eq_true, if_false, Py.bind_ok, settings_sortKeys, h, Py.pure_eq]

/-- The database right after opening. -/
def openedDb (opening : Json) (timestamp : ℤ) : Db :=
  ⟨.ofList [(1, (entry 1 zeroHash opening).encode)], .empty, some ⟨1, "primary", timestamp⟩⟩

theorem openedDb_good (h : IsOpening st opening) {timestamp : ℤ} (ht : 1 ≤ timestamp ∧ timestamp ≤ maxTimestamp)
    (hst : st.Valid) : Journaled st opening [] (genesis st) (openedDb opening timestamp) := by
  refine ⟨h, by simp, by simp, rfl, genesis_inv hst, rfl, rfl, trivial, rfl, by simp, ?_, ?_⟩
  · intro k r
    simp [openedDb]
  · exact ⟨_, rfl, by simp [genesis]; omega, ht⟩

/-- The rows of a journal as they are read back. -/
theorem Journaled.rows_eq {s : State} (h : Journaled st opening commands s db) :
    db.rows = .ok ((journalFrom 0 zeroHash (eventsOf opening commands)).map fun p => p.2.sortKeys) := by
  have hread : ∀ (events : List Json) (seq : ℤ) (previous : String), (∀ e ∈ events, e.WF) →
      ((journalFrom seq previous events).map fun p => p.2.encode).mapM readRow
        = .ok ((journalFrom seq previous events).map fun p => p.2.sortKeys) := by
    intro events
    induction events with
    | nil => intro seq previous _; rfl
    | cons e events ih =>
      intro seq previous hwf
      simp only [journalFrom, map_cons, mapM_cons, readRow_entry (hwf e (by simp)),
        Py.bind_ok, ih _ _ fun e he => hwf e (by simp [he]), Py.pure_eq]
  have hvalues : db.events.values = (journalFrom 0 zeroHash (eventsOf opening commands)).map fun p => p.2.encode := by
    rw [SortedMap.values, h.rows, map_map]
    rfl
  rw [Db.rows, hvalues, hread _ _ _ fun e he => eventsOf_wf h.opens he]

theorem replay_rows {s : State} (h : Journaled st opening commands s db) :
    replay ((journalFrom 0 zeroHash (eventsOf opening commands)).map fun p => p.2.sortKeys) = .ok (some s) := by
  have hfold : ∀ (commands : List OrderCommand) (seq : ℤ) (previous : String) (s0 s : State),
      (∀ c ∈ commands, c.Valid) → applyAll s0 commands = .ok s →
      ((journalFrom seq previous (commands.map OrderCommand.toJson)).map fun p =>
        p.2.sortKeys).foldlM (fun state row => do
          let event ← item row "event"
          return some (← reduceCommand state event)) (some s0) = (.ok (some s) : Py _) := by
    intro commands
    induction commands with
    | nil =>
      intro seq previous s0 s _ hs
      obtain rfl := Except.ok.inj hs
      rfl
    | cons c commands ih =>
      intro seq previous s0 s hv hs
      obtain ⟨s1, h1, h2⟩ := of_bind ((foldlM_cons ..).symm.trans hs)
      have hstep : reduceCommand (some s0) c.toJson.sortKeys = .ok s1 := by
        rw [reduceCommand_sortKeys _ c.toJson_wf, reduceCommand_toJson (hv c (by simp)), h1]
      simp only [map_cons, journalFrom, foldlM_cons, item_entry_event, Py.bind_ok, hstep, Py.pure_eq]
      exact ih _ _ s1 s (fun d hd => hv d (by simp [hd])) h2
  have hopen : reduceCommand none opening.sortKeys = .ok (genesis st) := by
    rw [reduceCommand_sortKeys _ h.opens.wf, h.opens.opens]
  rw [replay, eventsOf]
  simp only [journalFrom, map_cons, foldlM_cons, item_entry_event, Py.bind_ok, hopen, Py.pure_eq]
  exact hfold commands _ _ _ _ h.valid h.replayed

theorem expectedRequest_opening (h : IsOpening st opening) (seq : ℤ) (previous : String) :
    Sequencer.expectedRequest (entry seq previous opening).sortKeys = .ok none := by
  simp [Sequencer.expectedRequest, item_entry_event, h.kind, isText]

theorem openJournal_empty (opening : Json) : Sequencer.openJournal opening .empty
    = (.ok (), ⟨.ofList [(1, (entry 1 zeroHash opening).encode)], .empty, none⟩) := rfl

theorem init_empty {timestamp : Json} (hwf : settings.WF) {stamp : ℤ}
    (hst : StockExchange.settings settings = .ok st) (ht : integer timestamp 1 maxTimestamp = .ok stamp) :
    Sequencer.init settings timestamp .empty
      = (.ok ⟨st⟩, openedDb (Sequencer.openingJson settings.sortKeys) stamp) := by
  have hopening := openingJson_isOpening hwf hst
  have hgood := openedDb_good hopening (integer_eq_ok.mp ht).2 (settings_valid hst)
  have hempty : Db.rows .empty = .ok [] := rfl
  have hverify : verify [] = .ok zeroHash := rfl
  have hcheck : Sequencer.checkHistory (openedDb (Sequencer.openingJson settings.sortKeys) stamp) = .ok () := by
    have hexpected : Sequencer.expectedRequest
        (entry 1 zeroHash (Sequencer.openingJson settings.sortKeys)).sortKeys = .ok none :=
      expectedRequest_opening hopening 1 zeroHash
    have hcontrol : (openedDb (Sequencer.openingJson settings.sortKeys) stamp).controlRow
        = .ok ⟨1, "primary", stamp⟩ := rfl
    have hstamp : ¬ (stamp < (genesis st).lastTimestamp ∨ "primary" ∉ ["primary", "backup"]) := by
      have := (integer_eq_ok.mp ht).2.1
      simp [genesis]
      omega
    simp only [Sequencer.checkHistory, hgood.rows_eq, replay_rows hgood, Py.bind_ok, hcontrol, hstamp, if_false]
    simp [eventsOf, journalFrom, hexpected, openedDb, Dict.empty, integer]
  rw [Sequencer.init, Tx.lift_bind_ok hst, Tx.lift_bind_ok (freeze_of_wf hwf), Tx.database_bind,
    Tx.lift_bind_ok hempty, Tx.lift_bind_ok hverify]
  refine (Tx.bind_of_ok (a := ()) (Tx.transaction_ok ?_)).trans rfl
  rw [Tx.bind_of_ok (openJournal_empty _), Tx.lift_bind_ok ht,
    Tx.bind_of_ok (a := ()) (show Tx.openControl _ _ = (_, openedDb _ stamp) from rfl),
    Tx.database_bind]
  exact congrArg (·, openedDb (Sequencer.openingJson settings.sortKeys) stamp) hcheck

/-- A sequencer opened on an empty database. -/
theorem init_good {timestamp : Json} (hwf : settings.WF) {q : Sequencer}
    (h : Sequencer.init settings timestamp .empty = (.ok q, db)) : ∃ opening, Good q opening db := by
  cases hst : StockExchange.settings settings with
  | error e =>
    rw [Sequencer.init, Tx.lift_bind_error hst] at h
    cases h
  | ok st =>
    cases ht : integer timestamp 1 maxTimestamp with
    | error e =>
      rw [Sequencer.init, Tx.lift_bind_ok hst, Tx.lift_bind_ok (freeze_of_wf hwf),
        Tx.database_bind, Tx.lift_bind_ok (show Db.rows .empty = .ok [] from rfl),
        Tx.lift_bind_ok (show verify [] = .ok zeroHash from rfl),
        Tx.bind_of_error (Tx.transaction_error
          ((Tx.bind_of_ok (openJournal_empty _)).trans (Tx.lift_bind_error ht)))] at h
      cases h
    | ok stamp =>
      rw [init_empty hwf hst ht] at h
      obtain ⟨hq, rfl⟩ := Prod.mk.inj h
      obtain rfl := Except.ok.inj hq
      exact ⟨_, [], _, openedDb_good (openingJson_isOpening hwf hst) (integer_eq_ok.mp ht).2 (settings_valid hst)⟩

/-! ### Reading the journal -/

theorem OrderCommand.item_sortKeys_toJson (c : OrderCommand) : item c.toJson.sortKeys "owner" = .ok (.str c.owner) ∧
      item c.toJson.sortKeys "kind" = .ok (.str c.body.kind) ∧
      item c.toJson.sortKeys "body" = .ok c.body.toJson.sortKeys := by
  have hn : ([("seq", Json.int c.seq), ("timestamp", .int c.timestamp), ("owner", .str c.owner),
      ("kind", .str c.body.kind), ("body", c.body.toJson)].map Prod.fst).Nodup := by simp
  exact ⟨item_sortKeys (v := .str c.owner) hn rfl, item_sortKeys (v := .str c.body.kind) hn rfl, item_sortKeys hn rfl⟩

theorem Body.requestId_sortKeys (b : Body) : strItem b.toJson.sortKeys "request_id" = .ok b.requestId := by
  have hitem : item b.toJson.sortKeys "request_id" = .ok (.str b.requestId) := by
    cases b with
    | new o => exact item_sortKeys (v := .str o.requestId) o.keys_nodup rfl
    | cancel requestId orderId => exact item_sortKeys (v := .str requestId) (by simp) rfl
  rw [strItem, hitem]
  rfl

theorem fingerprint_sortKeys (kind body : Json) :
    Sequencer.fingerprint kind body.sortKeys = Sequencer.fingerprint kind body := by
  simp only [Sequencer.fingerprint, checksum, Json.encode, Json.sortKeys, Json.sortItems, Json.sortKeys_sortKeys]

theorem expectedRequest_command (c : OrderCommand) (previous : String) :
    Sequencer.expectedRequest (entry c.seq previous c.toJson).sortKeys = .ok (some (c.requestKey, c.receipt)) := by
  obtain ⟨howner, hkind, hbody⟩ := c.item_sortKeys_toJson
  have hname : strItem c.toJson.sortKeys "owner" = .ok c.owner := by
    rw [strItem, howner]
    rfl
  have hother : isText (.str c.body.kind) "genesis" = false := by
    cases c.body <;> rfl
  simp only [Sequencer.expectedRequest, item_entry_event, hkind, hbody, hname, hother, Py.bind_ok,
    Bool.false_eq_true, if_false, Body.requestId_sortKeys, intItem_entry_seq, fingerprint_sortKeys,
    Py.pure_eq]
  rfl

/-- The rows after the opening are those of the commands, in their order. -/
theorem journalFrom_commands {n : ℤ} (h : Numbered n commands) (previous : String) :
    List.Forall₂ (fun p c => ∃ previous, p.2 = entry c.seq previous c.toJson)
      (journalFrom n previous (commands.map OrderCommand.toJson)) commands := by
  induction commands generalizing n previous with
  | nil => exact .nil
  | cons c commands ih =>
    refine .cons ⟨previous, ?_⟩ (ih h.2 _)
    rw [h.1]

/-- A submission repeats the event of a row: same owner, same kind, same body. -/
def Repeats (row owner kind body : Json) : Prop :=
  ∃ event, item row "event" = .ok event ∧ item event "owner" = .ok owner ∧
    item event "kind" = .ok kind ∧ item event "body" = freeze body

section
variable {q : Sequencer} {opening : Json} {commands : List OrderCommand} {s : State} {db : Db}

theorem Journaled.expected (h : Journaled q.settings opening commands s db) {rows : List Json}
    (hrows : db.rows = .ok rows) : rows.mapM Sequencer.expectedRequest
      = .ok (none :: commands.map fun c => some (c.requestKey, c.receipt)) := by
  obtain rfl := Except.ok.inj (hrows.symm.trans h.rows_eq)
  have hrest : ∀ {ps : List (ℤ × Json)} {cs : List OrderCommand},
      List.Forall₂ (fun p c => ∃ previous, p.2 = entry c.seq previous c.toJson) ps cs →
      (ps.map fun p => p.2.sortKeys).mapM Sequencer.expectedRequest
        = .ok (cs.map fun c => some (c.requestKey, c.receipt)) := by
    intro ps cs hall
    induction hall with
    | nil => rfl
    | cons hp _ ih =>
      obtain ⟨previous, hp⟩ := hp
      simp only [map_cons, mapM_cons, hp, expectedRequest_command, Py.bind_ok, ih, Py.pure_eq]
  simp only [eventsOf, journalFrom, map_cons, mapM_cons, expectedRequest_opening h.opens, Py.bind_ok, zero_add,
    hrest (journalFrom_commands h.numbers _), Py.pure_eq]

/-- A retry is answered with the number of the event it repeats. -/
theorem Journaled.retry (h : Journaled q.settings opening commands s db) {rows : List Json}
    (hrows : db.rows = .ok rows) {row : Json} (hrow : row ∈ rows) {owner kind body : Json}
    (hrep : Repeats row owner kind body) : ∃ seq id, intItem row "seq" = .ok seq ∧
      q.submit owner kind body db = (.ok (.accepted seq id true), db) := by
  obtain rfl := Except.ok.inj (hrows.symm.trans h.rows_eq)
  obtain ⟨event, hevent, howner, hkind, hbody⟩ := hrep
  obtain ⟨p, hp, rfl⟩ := mem_map.mp hrow
  simp only [eventsOf, journalFrom, mem_cons] at hp
  rcases hp with rfl | hp
  · -- the genesis event has no owner
    rw [item_entry_event] at hevent
    obtain rfl := Except.ok.inj hevent
    rw [item_eq_ok, h.opens.owner] at howner
    cases howner
  · obtain ⟨c, hc, previous, hentry⟩ : ∃ c ∈ commands, ∃ previous, p.2 = entry c.seq previous c.toJson := by
      rw [zero_add] at hp
      exact forall₂_right (journalFrom_commands h.numbers _).flip hp
    rw [hentry] at hevent ⊢
    rw [item_entry_event] at hevent
    obtain rfl := Except.ok.inj hevent
    obtain ⟨h1, h2, h3⟩ := c.item_sortKeys_toJson
    obtain rfl := Except.ok.inj (h1.symm.trans howner)
    obtain rfl := Except.ok.inj (h2.symm.trans hkind)
    have hfreeze : freeze body = freeze c.body.toJson := by
      rw [← hbody, h3, freeze_of_wf c.body.toJson_wf]
    have hvalidate : validate body (.str c.body.kind) = .ok c.body := by
      rw [validate, hfreeze, ← validate, validate_toJson (h.valid c hc).body]
    refine ⟨c.seq, c.body.requestId, intItem_entry_seq _ _ _, ?_⟩
    have hknown : q.knownOwner (.str c.owner) = .ok c.owner := knownOwner_eq_ok.mpr ⟨rfl, h.owners c hc⟩
    have hreceipt : db.requests.get? (c.owner, c.body.requestId) = some c.receipt :=
      (h.receipts _ _).mpr ⟨c, hc, rfl, rfl⟩
    rw [Sequencer.submit, Tx.lift_bind_ok hvalidate, Tx.lift_bind_ok (hbody.symm.trans h3), Tx.lift_bind_ok hknown]
    refine Tx.transaction_ok ?_
    rw [Tx.database_bind]
    simp only [hreceipt, fingerprint_sortKeys]
    rw [if_neg (by simp [OrderCommand.receipt])]
    rfl

end

/-- Whatever calls a sequencer takes, its journal replays, no owner uses a request id in two events,
a retry gets the number of its event and appends nothing, and a failed call changes nothing. -/
theorem sequencer_log_replayable (settings timestamp : PyValue) {q : Sequencer} {db0 : Db}
    (hopen : Sequencer.init settings.1 timestamp.1 .empty = (.ok q, db0))
    (calls : List Sequencer.Call) :
    ∃ rows s requests, (q.run db0 calls).rows = .ok rows ∧ replay rows = .ok (some s) ∧
      rows.mapM Sequencer.expectedRequest = .ok requests ∧
      (requests.reduceOption.map Prod.fst).Nodup ∧
      (∀ row ∈ rows, ∀ owner kind body : PyValue, Repeats row owner.1 kind.1 body.1 →
        ∃ seq id, intItem row "seq" = .ok seq ∧
          q.call (.submit owner kind body) (q.run db0 calls) = (.ok (.accepted seq id true), q.run db0 calls)) ∧
      ∀ c e db', q.call c (q.run db0 calls) = (.error e, db') → db' = q.run db0 calls := by
  obtain ⟨opening, hgood⟩ := init_good settings.2 hopen
  obtain ⟨commands, s, h⟩ := run_good hgood calls
  refine ⟨_, s, _, h.rows_eq, replay_rows h, h.expected h.rows_eq, ?_, ?_, ?_⟩
  · have hkeys : (commands.map fun c => some (c.requestKey, c.receipt)).reduceOption
        = commands.map fun c => (c.requestKey, c.receipt) := by
      simp [List.reduceOption, filterMap_map]
    rw [reduceOption_cons_of_none, hkeys, map_map]
    exact h.distinct
  · intro row hrow owner kind body hrep
    exact h.retry h.rows_eq hrow hrep
  · intro c e db' hc
    rcases call_sound q opening c _ ⟨commands, s, h⟩ with ⟨e', he⟩ | ⟨a, db'', ha, -⟩
    · exact (Prod.mk.inj (hc.symm.trans he)).2
    · cases hc.symm.trans ha

/-- An order submitted twice. -/
def sampleCalls : List Sequencer.Call :=
  let body : Body := .new ⟨"r1", "b1", "ACME", .BUY, 100, 5⟩
  let submit : Sequencer.Call := .submit ⟨.str "alice", trivial⟩ ⟨.str "new", trivial⟩ ⟨body.toJson, body.toJson_wf⟩
  [submit, submit]

theorem sequencer_log_replayable_sample : ∃ q db0 rows s,
    Sequencer.init (settingsCodec.write sampleSettings) (.int 100000) .empty = (.ok q, db0) ∧
    (q.run db0 sampleCalls).rows = .ok rows ∧ replay rows = .ok (some s) := by
  have hopen := init_empty (settingsCodec.wf sampleSettings) (settings_write sampleSettings_valid)
    (show integer (.int 100000) 1 maxTimestamp = .ok 100000 from rfl)
  obtain ⟨rows, s, -, hrows, hreplay, -⟩ := sequencer_log_replayable
    ⟨_, settingsCodec.wf sampleSettings⟩ ⟨.int 100000, trivial⟩ hopen sampleCalls
  exact ⟨_, _, rows, s, hopen, hrows, hreplay⟩

end SystemDesign.StockExchange
