import SystemDesign.Lib.Transaction
import SystemDesign.StockExchange.Runs
import SystemDesign.StockExchange.Wire

/-!
Commands in their typed form.

A valid body or settings value, written as JSON, is accepted by the checks of
`contracts.py` and read back as itself, so a run of the reducer on written
commands is a run on typed ones (`reduceCommand_genesisJson`,
`reduceCommand_toJson`).
-/

namespace SystemDesign.StockExchange

open List

/-! ### Reading a frozen object -/

variable {v : Json}

theorem freeze_of_wf (h : v.WF) : freeze v = .ok v.sortKeys := by
  rw [freeze_eq_ok, Json.loads_encode h]

theorem freeze_sortKeys (v : Json) : freeze v.sortKeys = freeze v := by
  rw [freeze, freeze, Json.encode_sortKeys]

theorem isText_sortKeys (v : Json) (text : String) : isText v.sortKeys text = isText v text := by
  cases v <;> rfl

theorem unhashable_sortKeys (v : Json) : unhashable v.sortKeys = unhashable v := by
  cases v <;> rfl

theorem integer_sortKeys (v : Json) (lo hi : ℤ) : integer v.sortKeys lo hi = integer v lo hi := by
  cases v <;> rfl

theorem identifier_sortKeys (v : Json) : identifier v.sortKeys = identifier v := by
  cases v <;> rfl

theorem validate_sortKeys (body kind : Json) : validate body.sortKeys kind.sortKeys = validate body kind := by
  simp only [validate, freeze_sortKeys, isText_sortKeys, unhashable_sortKeys]

theorem settings_sortKeys (value : Json) : settings value.sortKeys = settings value := by
  rw [settings, settings, freeze_sortKeys]

variable {fs : List (String × Json)}

theorem item_sortKeys {k : String} (hn : (fs.map Prod.fst).Nodup) (h : fs.lookup k = some v) :
    item (Json.obj fs).sortKeys k = .ok v.sortKeys := by
  rw [item_eq_ok, Json.get?_sortKeys hn, h]
  rfl

/-- A frozen object has the keys it was written with. -/
theorem fields_sortKeys (fs : List (String × Json)) (expected : List String) (h : (fs.map Prod.fst).Perm expected) :
    ∃ r, fields (Json.obj fs).sortKeys expected = .ok r := by
  have hkeys : ((Json.sortByKey (Json.sortFields fs)).map Prod.fst).Perm expected := by
    refine ((Json.sortByKey_perm _).map Prod.fst).trans ?_
    rw [Json.sortFields_eq_map, map_map]
    exact h
  refine ⟨Json.sortByKey (Json.sortFields fs), ?_⟩
  simp only [Json.sortKeys, fields]
  rw [if_pos]
  refine ⟨fun p hp => hkeys.mem_iff.mp (mem_map_of_mem hp), fun k hk => hkeys.mem_iff.mpr hk⟩

/-- The exact-field check looks at the keys only. -/
theorem fields_bind_sortKeys {α : Type} (fs : List (String × Json)) (expected : List String) (x : Py α) :
    (fields (Json.obj fs).sortKeys expected >>= fun _ => x) = (fields (Json.obj fs) expected >>= fun _ => x) := by
  have hkeys : ((Json.sortByKey (Json.sortFields fs)).map Prod.fst).Perm (fs.map Prod.fst) := by
    refine ((Json.sortByKey_perm _).map Prod.fst).trans ?_
    rw [Json.sortFields_eq_map, map_map]
    exact Perm.refl _
  have hiff : (∀ p ∈ Json.sortByKey (Json.sortFields fs), p.1 ∈ expected) ↔ ∀ p ∈ fs, p.1 ∈ expected := by
    have hall : ∀ l : List (String × Json),
        (∀ p ∈ l, p.1 ∈ expected) ↔ ∀ k ∈ l.map Prod.fst, k ∈ expected := fun l => by simp
    rw [hall, hall]
    exact ⟨fun h k hk => h k (hkeys.mem_iff.mpr hk), fun h k hk => h k (hkeys.mem_iff.mp hk)⟩
  simp only [Json.sortKeys, fields, hiff, hkeys.mem_iff]
  split_ifs <;> rfl

theorem identifier_str {s : String} (h : isIdentifier s = true) : identifier (.str s) = .ok s :=
  identifier_eq_ok.mpr ⟨rfl, h⟩

theorem integer_int {n lo hi : ℤ} (h : lo ≤ n ∧ n ≤ hi) : integer (.int n) lo hi = .ok n := integer_eq_ok.mpr ⟨rfl, h⟩

theorem side_text (sd : Side) : side (.str sd.text) = .ok sd := by
  cases sd <;> rfl

/-! ### Bodies -/

/-- The `kind` a body is submitted under. -/
def Body.kind : Body → String
  | .new _ => "new"
  | .cancel _ _ => "cancel"

def NewOrder.jsonFields (o : NewOrder) : List (String × Json) :=
  [("request_id", .str o.requestId), ("order_id", .str o.orderId), ("symbol", .str o.symbol),
    ("side", .str o.side.text), ("price", .int o.price), ("quantity", .int o.quantity)]

def Body.toJson : Body → Json
  | .new o => .obj o.jsonFields
  | .cancel requestId orderId =>
      .obj [("request_id", .str requestId), ("order_id", .str orderId)]

theorem NewOrder.keys_nodup (o : NewOrder) : (o.jsonFields.map Prod.fst).Nodup := by
  simp [jsonFields]

theorem Body.toJson_wf (b : Body) : b.toJson.WF := by
  cases b with
  | new o => exact ⟨o.keys_nodup, by simp [NewOrder.jsonFields, Json.FieldsWF, Json.WF]⟩
  | cancel requestId orderId => exact ⟨by simp, by simp [Json.FieldsWF, Json.WF]⟩

/-- A valid body is accepted and read back. -/
theorem validate_toJson {b : Body} (h : b.Valid) : validate b.toJson (.str b.kind) = .ok b := by
  rw [validate, freeze_of_wf b.toJson_wf, Py.bind_ok]
  cases b with
  | new o =>
    have hn := o.keys_nodup
    obtain ⟨r, hr⟩ := fields_sortKeys o.jsonFields ["request_id", "order_id", "symbol", "side", "price", "quantity"]
      (Perm.refl _)
    simp only [Body.kind, isText, decide_true, if_true, Body.toJson, hr, Py.bind_ok]
    rw [item_sortKeys hn rfl, item_sortKeys hn rfl, item_sortKeys hn rfl, item_sortKeys hn rfl,
      item_sortKeys hn rfl, item_sortKeys hn rfl]
    simp only [Py.bind_ok, Json.sortKeys, identifier_str h.requestId, identifier_str h.orderId,
      identifier_str h.symbol, integer_int h.price, integer_int h.quantity, side_text, Py.pure_eq]
  | cancel requestId orderId =>
    have hn : (([("request_id", .str requestId), ("order_id", .str orderId)] :
        List (String × Json)).map Prod.fst).Nodup := by simp
    obtain ⟨r, hr⟩ := fields_sortKeys [("request_id", .str requestId), ("order_id", .str orderId)]
      ["request_id", "order_id"] (Perm.refl _)
    simp only [Body.kind, isText, Body.toJson, hr, Py.bind_ok, decide_true, if_true,
      String.reduceEq, decide_false, Bool.false_eq_true, if_false]
    rw [item_sortKeys hn rfl, item_sortKeys hn rfl]
    simp only [Py.bind_ok, Json.sortKeys, identifier_str h.1, identifier_str h.2, Py.pure_eq]

/-- Objects with the same keys and, under each, the same frozen value are frozen to one value. -/
theorem sortKeys_obj_congr {gs : List (String × Json)} (hf : (fs.map Prod.fst).Nodup) (hg : (gs.map Prod.fst).Nodup)
    (h : ∀ k, (fs.lookup k).map Json.sortKeys = (gs.lookup k).map Json.sortKeys) :
    (Json.obj fs).sortKeys = (Json.obj gs).sortKeys := by
  have hkeys : ∀ fs : List (String × Json), (fs.map Prod.fst).Nodup →
      ((Json.sortFields fs).map Prod.fst).Nodup := fun fs hn => by
    rwa [Json.sortFields_eq_map, map_map]
  have hlookup : ∀ (fs : List (String × Json)) (k : String), (fs.map Prod.fst).Nodup →
      (Json.sortFields fs).lookup k = (fs.lookup k).map Json.sortKeys := fun fs k hn => by
    rw [← Json.get?_sortKeys hn]
    exact Assoc.lookup_perm (hkeys fs hn) (Json.sortByKey_perm _).symm k
  simp only [Json.sortKeys]
  refine congrArg Json.obj (Json.sortByKey_perm_eq (hkeys fs hf) ?_)
  refine Assoc.perm_of_lookup_eq (hkeys fs hf) (hkeys gs hg) fun k => ?_
  rw [hlookup fs k hf, hlookup gs k hg, h k]

/-- An object that has exactly the fields of another is frozen to the same value. -/
theorem frozen_eq_of_fields {gs r : List (String × Json)} (hf : (fs.map Prod.fst).Nodup)
    (hg : (gs.map Prod.fst).Nodup) (hr : fields (Json.obj fs).sortKeys (gs.map Prod.fst) = .ok r)
    (h : ∀ p ∈ gs, (Json.obj fs).sortKeys.get? p.1 = some p.2.sortKeys) :
    (Json.obj fs).sortKeys = (Json.obj gs).sortKeys := by
  refine sortKeys_obj_congr hf hg fun k => ?_
  rw [← Json.get?_sortKeys hf]
  by_cases hk : k ∈ gs.map Prod.fst
  · obtain ⟨⟨k, v⟩, hp, rfl⟩ := mem_map.mp hk
    rw [h _ hp, (Assoc.lookup_eq_some_iff hg).mpr hp]
    rfl
  · rw [Assoc.lookup_eq_none_iff.mpr hk, Option.map_none]
    refine Assoc.lookup_eq_none_iff.mpr fun hmem => hk ?_
    simp only [Json.sortKeys, fields] at hr
    split_ifs at hr with hc
    obtain ⟨p, hp, rfl⟩ := mem_map.mp hmem
    exact hc.1 p hp

theorem side_eq_ok {sd : Side} (h : side v = .ok sd) : v = .str sd.text := by
  unfold side at h
  split_ifs at h with h1 h2
  · obtain rfl := Except.ok.inj h
    exact isText_eq_true.mp h1
  · obtain rfl := Except.ok.inj h
    exact isText_eq_true.mp h2

/-- The frozen form of an accepted body is that of the typed one. -/
theorem validate_frozen {kind : Json} {b : Body} (hwf : v.WF) (h : validate v kind = .ok b) :
    v.sortKeys = b.toJson.sortKeys ∧ kind = .str b.kind := by
  rw [validate, freeze_of_wf hwf, Py.bind_ok] at h
  have hobj : ∀ {expected r}, fields v.sortKeys expected = .ok r → ∃ fs, v = .obj fs := by
    intro expected r hr
    cases v <;> simp [Json.sortKeys, fields] at hr ⊢
  split_ifs at h with hnew hcancel
  · simp only [Py.bind_eq_ok, identifier_eq_ok, integer_eq_ok, item_eq_ok, Py.pure_eq, Except.ok.injEq] at h
    obtain ⟨r, hr, _, g1, requestId, ⟨rfl, -⟩, _, g2, orderId, ⟨rfl, -⟩, _, g3, symbol, ⟨rfl, -⟩,
      _, g4, price, ⟨rfl, -⟩, _, g5, quantity, ⟨rfl, -⟩, w, g6, sd, hsd, rfl⟩ := h
    obtain rfl := side_eq_ok hsd
    obtain ⟨fs, rfl⟩ := hobj hr
    refine ⟨frozen_eq_of_fields hwf.1 (NewOrder.keys_nodup _) hr ?_, isText_eq_true.mp hnew⟩
    simp only [NewOrder.jsonFields, forall_mem_cons]
    exact ⟨g1, g2, g3, g6, g4, g5, by simp⟩
  · simp only [Py.bind_eq_ok, identifier_eq_ok, item_eq_ok, Py.pure_eq, Except.ok.injEq] at h
    obtain ⟨r, hr, _, g1, requestId, ⟨rfl, -⟩, _, g2, orderId, ⟨rfl, -⟩, rfl⟩ := h
    obtain ⟨fs, rfl⟩ := hobj hr
    refine ⟨frozen_eq_of_fields hwf.1 (by simp) hr ?_, isText_eq_true.mp hcancel⟩
    simp only [forall_mem_cons]
    exact ⟨g1, g2, by simp⟩

/-! ### Settings -/

theorem mapM_written {α β : Type} {f : β → Py α} {g : α → β} {l : List α}
    (h : ∀ a ∈ l, f (g a) = .ok a) : (l.map g).mapM f = .ok l := by
  rw [mapM_map, mapM_ok (f := f ∘ g) (g := fun a => a) h, map_id']

variable {st : Settings}

theorem readSymbols_write (h : st.Valid) : readSymbols (Codec.str.list.write st.symbols).sortKeys = .ok st.symbols := by
  have hread : (st.symbols.map Json.str).mapM identifier = .ok st.symbols :=
    mapM_written fun symbol hs => identifier_str (h.symbols.2 symbol hs)
  have hitems : (Codec.str.list.write st.symbols).sortKeys = .arr (st.symbols.map Json.str) := by
    simp only [Codec.list, Json.sortKeys, Json.sortItems_eq_map, map_map]
    rfl
  simp only [hitems, readSymbols, length_map, h.symbolCount, and_self, not_true, if_false,
    hread, Py.bind_ok, Py.pure_eq, h.symbols.1]

theorem readPositions_write {symbols : List String} {o : Opening} (h : o.Valid symbols) :
    readPositions symbols (Codec.int.map.write o.positions).sortKeys = .ok o.positions := by
  have hmem : ∀ p ∈ o.positions.entries, p.1 ∈ symbols ∧ 0 ≤ p.2 ∧ p.2 ≤ 10 ^ 12 := fun p hp =>
    h.position p.1 p.2 (SortedMap.mem_entries.mp hp)
  have hread : (o.positions.entries.map fun p => (p.1, (Codec.int.write p.2).sortKeys)).mapM
      (fun p : String × Json => do return (p.1, ← cents p.2)) = (.ok o.positions.entries : Py _) :=
    mapM_written fun p hp => by
      rw [show cents (Codec.int.write p.2).sortKeys = .ok p.2 from integer_int (hmem p hp).2]
      rfl
  have hsub : ∀ p ∈ o.positions.entries.map fun p => (p.1, (Codec.int.write p.2).sortKeys), p.1 ∈ symbols := by
    intro p hp
    obtain ⟨q, hq, rfl⟩ := mem_map.mp hp
    exact (hmem q hq).1
  simp only [Codec.map_sortKeys, readPositions]
  rw [if_neg (not_not.mpr hsub), hread, Py.bind_ok, SortedMap.ofList_entries]
  rfl

theorem readOpening_write {symbols : List String} {owner : String} {o : Opening} (howner : isIdentifier owner = true)
    (h : o.Valid symbols) : readOpening symbols (owner, (openingCodec.write o).sortKeys) = .ok (owner, o) := by
  have hn : ([("cash", Json.int o.cash), ("positions", Codec.int.map.write o.positions)].map Prod.fst).Nodup := by simp
  obtain ⟨r, hr⟩ := fields_sortKeys
    [("cash", .int o.cash), ("positions", Codec.int.map.write o.positions)] ["cash", "positions"]
    (Perm.refl _)
  have hw : openingCodec.write o = .obj [("cash", .int o.cash), ("positions", Codec.int.map.write o.positions)] := rfl
  simp only [readOpening, identifier_str howner, hw, hr, Py.bind_ok]
  rw [item_sortKeys hn rfl, item_sortKeys hn rfl]
  simp only [Py.bind_ok, readPositions_write h, Py.pure_eq]
  rw [show cents (Json.int o.cash).sortKeys = .ok o.cash from integer_int h.cash]
  rfl

theorem readAccounts_write (h : st.Valid) :
    readAccounts st.symbols (openingCodec.map.write st.accounts).sortKeys = .ok st.accounts := by
  have hread : (st.accounts.entries.map fun p => (p.1, (openingCodec.write p.2).sortKeys)).mapM
      (readOpening st.symbols) = .ok st.accounts.entries :=
    mapM_written fun p hp => by
      obtain ⟨ho, hv⟩ := h.account p.1 p.2 (SortedMap.mem_entries.mp hp)
      exact readOpening_write ho hv
  rw [Codec.map_sortKeys, readAccounts]
  simp only [length_map, h.accountCount, and_self, not_true, if_false, hread, Py.bind_ok,
    Py.pure_eq, SortedMap.ofList_entries]

theorem readWeekdays_write {s : Session} (h : s.Valid) :
    readWeekdays (Codec.int.list.write s.weekdays).sortKeys = .ok s.weekdays := by
  have hread : (s.weekdays.map Json.int).mapM (fun day => integer day 0 6) = .ok s.weekdays :=
    mapM_written fun d hd => integer_int (h.weekdays.2.2 d hd)
  have hitems : (Codec.int.list.write s.weekdays).sortKeys = .arr (s.weekdays.map Json.int) := by
    simp only [Codec.list, Json.sortKeys, Json.sortItems_eq_map, map_map]
    rfl
  simp only [hitems, readWeekdays, isEmpty_map, List.isEmpty_iff, h.weekdays.1, if_false,
    hread, Py.bind_ok, h.weekdays.2.1, not_true, Py.pure_eq]

/-- Valid settings are accepted and read back. -/
theorem settings_write (h : st.Valid) : settings (settingsCodec.write st) = .ok st := by
  let fs : List (String × Json) := [("symbols", Codec.str.list.write st.symbols),
    ("accounts", openingCodec.map.write st.accounts), ("session", sessionCodec.write st.session),
    ("daily_limit", .int st.dailyLimit)]
  let ss : List (String × Json) := [("weekdays", Codec.int.list.write st.session.weekdays),
    ("start_minute", .int st.session.startMinute), ("end_minute", .int st.session.endMinute)]
  have hfs : (fs.map Prod.fst).Nodup := by simp [fs]
  have hss : (ss.map Prod.fst).Nodup := by simp [ss]
  obtain ⟨r, hr⟩ := fields_sortKeys fs ["symbols", "accounts", "session", "daily_limit"] (Perm.refl _)
  obtain ⟨q, hq⟩ := fields_sortKeys ss ["weekdays", "start_minute", "end_minute"] (Perm.refl _)
  rw [settings, freeze_of_wf (settingsCodec.wf st), Py.bind_ok]
  rw [show settingsCodec.write st = .obj fs from rfl, hr, Py.bind_ok]
  rw [item_sortKeys hfs rfl, item_sortKeys hfs rfl, item_sortKeys hfs rfl, item_sortKeys hfs rfl]
  simp only [Py.bind_ok, readSymbols_write h, readAccounts_write h]
  rw [show sessionCodec.write st.session = .obj ss from rfl, hq, Py.bind_ok]
  rw [item_sortKeys hss rfl, item_sortKeys hss rfl, item_sortKeys hss rfl]
  simp only [Py.bind_ok, Json.sortKeys, integer_int h.session.start, integer_int h.session.stop,
    readWeekdays_write h.session, integer_int h.dailyLimit, Py.pure_eq]

/-! ### Commands -/

theorem item_obj_sortKeys (hn : (fs.map Prod.fst).Nodup) (key : String) :
    item (Json.obj fs).sortKeys key = (item (.obj fs) key).map Json.sortKeys := by
  rw [item, item, Json.get?_sortKeys hn]
  simp only [Json.get?]
  cases fs.lookup key <;> rfl

/-- The envelope with its dictionaries sorted. -/
def Command.sortKeys (c : Command) : Command := { c with kind := c.kind.sortKeys, body := c.body.sortKeys }

theorem readCommand_sortKeys (hn : (fs.map Prod.fst).Nodup) :
    readCommand (Json.obj fs).sortKeys = (readCommand (.obj fs)).map Command.sortKeys := by
  simp only [readCommand, item_obj_sortKeys hn]
  cases item (.obj fs) "seq" with
  | error e => rfl
  | ok seq =>
    simp only [Except.map, Py.bind_ok, integer_sortKeys]
    cases integer seq 2 1001 with
    | error e => rfl
    | ok seq =>
      cases item (.obj fs) "timestamp" with
      | error e => rfl
      | ok stamp =>
        simp only [Py.bind_ok, integer_sortKeys]
        cases integer stamp 1 maxTimestamp with
        | error e => rfl
        | ok stamp =>
          cases item (.obj fs) "owner" with
          | error e => rfl
          | ok owner =>
            simp only [Py.bind_ok, identifier_sortKeys]
            cases identifier owner with
            | error e => rfl
            | ok owner =>
              cases item (.obj fs) "kind" with
              | error e => rfl
              | ok kind =>
                cases item (.obj fs) "body" with
                | error e => rfl
                | ok body => rfl

theorem applyCommand_sortKeys (s : State) (c : Command) : applyCommand s c.sortKeys = applyCommand s c := by
  simp only [applyCommand, Command.sortKeys, validate_sortKeys]

/-- The reducer does not see the order of a command's keys. -/
theorem reduceCommand_sortKeys (state : Option State) {command : Json} (h : command.WF) :
    reduceCommand state command.sortKeys = reduceCommand state command := by
  cases command with
  | obj fs =>
    have hn : (fs.map Prod.fst).Nodup := h.1
    have hkind : ((Json.obj fs).sortKeys.get? "kind").any (isText · "genesis")
        = ((Json.obj fs).get? "kind").any (isText · "genesis") := by
      rw [Json.get?_sortKeys hn]
      simp only [Json.get?]
      cases fs.lookup "kind" with
      | none => rfl
      | some v => exact isText_sortKeys v _
    have hobj : (Json.obj fs).sortKeys = .obj (Json.sortByKey (Json.sortFields fs)) := rfl
    rw [hobj]
    simp only [reduceCommand]
    rw [← hobj, hkind]
    by_cases hg : ((Json.obj fs).get? "kind").any (isText · "genesis") = true
    · rw [if_pos hg, if_pos hg, fields_bind_sortKeys, item_obj_sortKeys hn]
      cases item (.obj fs) "settings" with
      | error e => rfl
      | ok v => simp only [Except.map, Py.bind_ok, settings_sortKeys]
    · rw [if_neg hg, if_neg hg, fields_bind_sortKeys, readCommand_sortKeys hn]
      cases state with
      | none => rfl
      | some s =>
        cases readCommand (.obj fs) with
        | error e => rfl
        | ok c => simp only [Except.map, Py.bind_ok, applyCommand_sortKeys]
  | _ => rfl

def genesisJson (st : Settings) : Json := .obj [("kind", .str "genesis"), ("settings", settingsCodec.write st)]

theorem reduceCommand_genesisJson (h : st.Valid) : reduceCommand none (genesisJson st) = .ok (genesis st) := by
  have hfields : fields (genesisJson st) ["kind", "settings"]
      = .ok [("kind", .str "genesis"), ("settings", settingsCodec.write st)] := by
    simp [genesisJson, fields]
  have hitem : item (genesisJson st) "settings" = .ok (settingsCodec.write st) := rfl
  have hkind : ((genesisJson st).get? "kind").any (isText · "genesis") = true := rfl
  rw [genesisJson, reduceCommand, ← genesisJson, if_pos hkind, hfields, Py.bind_ok, hitem]
  simp only [Option.isSome_none, Bool.false_eq_true, if_false, Py.bind_ok, settings_write h, Py.pure_eq]

/-- A command after genesis with its validated body. -/
structure OrderCommand where
  seq : ℤ
  timestamp : ℤ
  owner : String
  body : Body

namespace OrderCommand

def toJson (c : OrderCommand) : Json :=
  .obj [("seq", .int c.seq), ("timestamp", .int c.timestamp), ("owner", .str c.owner),
    ("kind", .str c.body.kind), ("body", c.body.toJson)]

structure Valid (c : OrderCommand) : Prop where
  seq : 2 ≤ c.seq ∧ c.seq ≤ 1001
  timestamp : 1 ≤ c.timestamp ∧ c.timestamp ≤ maxTimestamp
  owner : isIdentifier c.owner = true
  body : c.body.Valid

/-- What the reducer does with a command once it is read. -/
def apply (s : State) (c : OrderCommand) : Py State := do
  if c.seq ≠ s.lastSeq + 1 ∨ c.timestamp < s.lastTimestamp then
    throw (.valueError "command sequence or timestamp regressed/gapped")
  if ¬ s.accounts.contains c.owner then throw (.valueError "unknown command owner")
  runBody { s with lastSeq := c.seq, lastTimestamp := c.timestamp } c.owner c.seq c.timestamp c.body

end OrderCommand

/-- A written command is reduced as the typed one. -/
theorem reduceCommand_toJson {c : OrderCommand} (h : c.Valid) (s : State) :
    reduceCommand (some s) c.toJson = c.apply s := by
  obtain ⟨seq, timestamp, owner, body⟩ := c
  have hkind : ((OrderCommand.mk seq timestamp owner body).toJson.get? "kind").any (isText · "genesis") = false := by
    cases body <;> rfl
  have hread : readCommand (OrderCommand.mk seq timestamp owner body).toJson
      = .ok ⟨seq, timestamp, owner, .str body.kind, body.toJson⟩ := by
    simp only [readCommand, OrderCommand.toJson, item, Json.get?]
    simp only [List.lookup, String.reduceBEq, beq_self_eq_true, Py.bind_ok, integer_int h.seq,
      integer_int h.timestamp, identifier_str h.owner, Py.pure_eq]
  have hfields : ∃ r, fields (OrderCommand.mk seq timestamp owner body).toJson
      ["seq", "timestamp", "owner", "kind", "body"] = .ok r := by
    simp [OrderCommand.toJson, fields]
  obtain ⟨r, hr⟩ := hfields
  rw [OrderCommand.toJson, reduceCommand, ← OrderCommand.toJson, hkind, hr]
  simp only [Bool.false_eq_true, if_false, Py.bind_ok, hread, applyCommand, validate_toJson h.body, OrderCommand.apply]

/-- Fold typed commands over a state. -/
def applyAll (s : State) (commands : List OrderCommand) : Py State := commands.foldlM OrderCommand.apply s

theorem runCommands_toJson {commands : List OrderCommand} (h : ∀ c ∈ commands, c.Valid)
    (s : State) : runCommands s (commands.map OrderCommand.toJson) = applyAll s commands := by
  induction commands generalizing s with
  | nil => rfl
  | cons c commands ih =>
    have hc := reduceCommand_toJson (h c (by simp)) s
    simp only [runCommands, applyAll, map_cons, foldlM_cons, hc]
    cases c.apply s with
    | error e => rfl
    | ok s' => exact ih (fun c hc => h c (by simp [hc])) s'

/-! ### A sample exchange -/

/-- One symbol, a buyer with cash and a seller with shares. -/
def sampleSettings : Settings where
  symbols := ["ACME"]
  accounts := .ofList [("alice", ⟨1000000, .empty⟩), ("bob", ⟨0, .ofList [("ACME", 100)]⟩)]
  session := ⟨[0, 1, 2, 3, 4, 5, 6], 0, 1440⟩
  dailyLimit := 1000

theorem sampleSettings_valid : sampleSettings.Valid := by
  refine ⟨by decide, by decide, ?_, by decide, ⟨by decide, by decide, by decide⟩, by decide⟩
  intro owner opening h
  have hall : ∀ e ∈ sampleSettings.accounts.entries, isIdentifier e.1 = true ∧
      (0 ≤ e.2.cash ∧ e.2.cash ≤ 10 ^ 12) ∧ ∀ p ∈ e.2.positions.entries,
        p.1 ∈ sampleSettings.symbols ∧ 0 ≤ p.2 ∧ p.2 ≤ 10 ^ 12 := by decide
  obtain ⟨howner, hcash, hpos⟩ := hall _ (SortedMap.mem_entries.mpr h)
  exact ⟨howner, hcash, fun symbol n hn => hpos _ (SortedMap.mem_entries.mpr hn)⟩

/-- An order on the sample symbol. -/
def sampleOrder (seq timestamp : ℤ) (owner id : String) (sd : Side) (price quantity : ℤ) :
    OrderCommand :=
  ⟨seq, timestamp, owner, .new ⟨id, id, "ACME", sd, price, quantity⟩⟩

/-- The checks a sample order has to pass, as one test. -/
def sampleOrderOk (c : OrderCommand) : Bool :=
  match c.body with
  | .new o => 2 ≤ c.seq && c.seq ≤ 1001 && 1 ≤ c.timestamp && c.timestamp ≤ maxTimestamp &&
      isIdentifier c.owner && isIdentifier o.requestId && isIdentifier o.orderId &&
      isIdentifier o.symbol && 1 ≤ o.price && o.price ≤ 100000000 && 1 ≤ o.quantity &&
      o.quantity ≤ 1000000
  | .cancel _ _ => false

theorem valid_of_sampleOrderOk {c : OrderCommand} (h : sampleOrderOk c = true) : c.Valid := by
  obtain ⟨seq, timestamp, owner, body⟩ := c
  cases body with
  | new o =>
    simp only [sampleOrderOk, Bool.and_eq_true, decide_eq_true_eq] at h
    obtain ⟨⟨⟨⟨⟨⟨⟨⟨⟨⟨⟨h1, h2⟩, h3⟩, h4⟩, h5⟩, h6⟩, h7⟩, h8⟩, h9⟩, h10⟩, h11⟩, h12⟩ := h
    exact ⟨⟨h1, h2⟩, ⟨h3, h4⟩, h5, h6, h7, h8, ⟨h9, h10⟩, ⟨h11, h12⟩⟩
  | cancel requestId orderId => simp [sampleOrderOk] at h

/-- A typed run on the sample exchange is a run of the reducer on JSON. -/
theorem sample_run {commands : List OrderCommand} {s : State} (hok : commands.all sampleOrderOk = true)
    (hrun : applyAll (genesis sampleSettings) commands = .ok s) :
    reduceCommand none (genesisJson sampleSettings) = .ok (genesis sampleSettings) ∧
      runCommands (genesis sampleSettings) (commands.map OrderCommand.toJson) = .ok s :=
  ⟨reduceCommand_genesisJson sampleSettings_valid, (runCommands_toJson (fun c hc =>
    valid_of_sampleOrderOk (all_eq_true.mp hok c hc)) _).trans hrun⟩

end SystemDesign.StockExchange
