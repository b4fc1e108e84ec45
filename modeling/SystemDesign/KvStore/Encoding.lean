import SystemDesign.Lib.Codec
import SystemDesign.Lib.JsonSpaced
import SystemDesign.KvStore.Records

/-!
Writing records (`encode` in `replication/records.py`).

Rows are sorted by their text with default separators, and the record is then
written compactly. `decode_encode_iff` says what `decode` makes of such a
record: it checks the limits and hands back the versions in row order, each
with its clock's nodes sorted (`Version.frozen`). `encode_eq_of_perm` is why
the order of siblings never shows in the bytes.
-/

namespace SystemDesign.KvStore

open List hiding le_antisymm le_total le_trans

/-! ### Base 64 -/

def base64Char (n : ℕ) : Char := base64Alphabet.getD n 'A'

/-- `base64.b64encode(value).decode()`. -/
def b64encode : List UInt8 → List Char
  | [] => []
  | [a] => [base64Char (a.toNat / 4), base64Char (a.toNat % 4 * 16), '=', '=']
  | [a, b] => [base64Char (a.toNat / 4), base64Char (a.toNat % 4 * 16 + b.toNat / 16),
      base64Char (b.toNat % 16 * 4), '=']
  | a :: b :: c :: rest => base64Char (a.toNat / 4) ::
      base64Char (a.toNat % 4 * 16 + b.toNat / 16) ::
      base64Char (b.toNat % 16 * 4 + c.toNat / 64) :: base64Char (c.toNat % 64) :: b64encode rest

theorem base64Digit_char : ∀ n < 64, base64Digit (base64Char n) = some n := by decide +kernel

theorem base64Char_ne_pad : ∀ n < 64, base64Char n ≠ '=' := by decide +kernel

theorem uint8_ofNat_eq {n : ℕ} {a : UInt8} (h : n = a.toNat) : UInt8.ofNat n = a := by
  rw [h]
  exact UInt8.ofNat_toNat

theorem b64decode_b64encode : ∀ bytes : List UInt8, b64decode (b64encode bytes) = some bytes
  | [] => rfl
  | [a] => by
    have ha := a.toNat_lt
    simp only [b64encode, b64decode, base64Digit_char _ (show a.toNat / 4 < 64 by omega),
      base64Digit_char _ (show a.toNat % 4 * 16 < 64 by omega), Option.bind_eq_bind,
      Option.bind_some, Option.pure_def, Option.some.injEq, List.cons.injEq, and_true]
    exact uint8_ofNat_eq (by omega)
  | [a, b] => by
    have ha := a.toNat_lt
    have hb := b.toNat_lt
    have hpad := base64Char_ne_pad _ (show b.toNat % 16 * 4 < 64 by omega)
    rw [b64encode, b64decode]
    · simp only [base64Digit_char _ (show a.toNat / 4 < 64 by omega),
        base64Digit_char _ (show a.toNat % 4 * 16 + b.toNat / 16 < 64 by omega),
        base64Digit_char _ (show b.toNat % 16 * 4 < 64 by omega), Option.bind_eq_bind,
        Option.bind_some, Option.pure_def, Option.some.injEq, List.cons.injEq, and_true]
      exact ⟨uint8_ofNat_eq (by omega), uint8_ofNat_eq (by omega)⟩
    · exact hpad
  | a :: b :: c :: rest => by
    have ha := a.toNat_lt
    have hb := b.toNat_lt
    have hc := c.toNat_lt
    have hpad := base64Char_ne_pad _ (show c.toNat % 64 < 64 by omega)
    rw [b64encode, b64decode]
    · simp only [base64Digit_char _ (show a.toNat / 4 < 64 by omega),
        base64Digit_char _ (show a.toNat % 4 * 16 + b.toNat / 16 < 64 by omega),
        base64Digit_char _ (show b.toNat % 16 * 4 + c.toNat / 64 < 64 by omega),
        base64Digit_char _ (show c.toNat % 64 < 64 by omega), Option.bind_eq_bind,
        Option.bind_some, Option.pure_def, b64decode_b64encode rest, Option.some.injEq,
        List.cons.injEq, and_true]
      exact ⟨uint8_ofNat_eq (by omega), uint8_ofNat_eq (by omega), uint8_ofNat_eq (by omega)⟩
    · intro _ h
      exact absurd h hpad
    · intro h
      exact absurd h hpad

/-! ### Rows -/

/-- A float is written as `repr` prints it. -/
def Number.toJson (floats : Floats) : Number → Json
  | .int n => .int n
  | .float x => .float (floats.repr x)

def writeValue : Option (List UInt8) → Json
  | none => .null
  | some bytes => .str (String.ofList (b64encode bytes))

/-- `clock.to_dict()` as JSON. -/
def VectorClock.toJson (c : VectorClock) : Json := .obj (c.entries.entries.map fun e => (e.1, .int e.2))

def Version.fields (floats : Floats) (v : Version) : List (String × Json) :=
  [("value", writeValue v.value), ("clock", v.clock.toJson), ("timestamp", v.timestamp.toJson floats)]

def Version.row (floats : Floats) (v : Version) : Json := .obj (v.fields floats)

/-- `rows.sort(key=lambda row: json.dumps(row, sort_keys=True))`. -/
def sortRows (rows : List Json) : List Json := rows.insertionSort fun a b => a.dumps ≤ b.dumps

def recordJson (rows : List Json) : Json := .obj [("format", .int 1), ("versions", .arr rows)]

def encode (floats : Floats) (versions : List Version) : String :=
  (recordJson (sortRows (versions.map (Version.row floats)))).encode

/-! ### Reading a row back -/

theorem VectorClock.toJson_wf (c : VectorClock) : c.toJson.WF := by
  refine ⟨?_, Json.fieldsWF_iff.mpr fun p hp => ?_⟩
  · rw [map_map]
    exact c.entries.nodup
  · obtain ⟨e, -, rfl⟩ := mem_map.mp hp
    trivial

theorem Version.fields_nodup (floats : Floats) (v : Version) : ((v.fields floats).map Prod.fst).Nodup := by
  simp [fields]

theorem Version.row_wf (floats : Floats) (v : Version) : (v.row floats).WF := by
  refine ⟨v.fields_nodup floats, Json.fieldsWF_iff.mpr fun p hp => ?_⟩
  simp only [fields, mem_cons, not_mem_nil, or_false] at hp
  rcases hp with rfl | rfl | rfl
  · cases v.value <;> trivial
  · exact v.clock.toJson_wf
  · cases v.timestamp <;> trivial

/-- The clock as it is read back: its nodes sorted. -/
def VectorClock.frozen (c : VectorClock) : VectorClock := { entries := c.entries.sorted }

def Number.frozen (floats : Floats) : Number → Number
  | .int n => .int n
  | .float x => .float (floats.repr x)

/-- What `decode(encode([version]))` holds. -/
def Version.frozen (floats : Floats) (v : Version) : Version := ⟨v.value, v.clock.frozen, v.timestamp.frozen floats⟩

theorem VectorClock.toJson_sortKeys (c : VectorClock) : c.toJson.sortKeys = c.frozen.toJson := by
  have hfields : ∀ l : List (String × ℕ), Json.sortFields (l.map fun e => (e.1, Json.int e.2)) =
      l.map fun e => (e.1, Json.int e.2) := by
    intro l
    induction l with
    | nil => rfl
    | cons e l ih => simp [Json.sortFields, Json.sortKeys, ih]
  rw [toJson, Json.sortKeys, hfields, Json.sortByKey, frozen, toJson, Dict.sorted]
  apply congrArg Json.obj
  symm
  apply map_insertionSort
  exact fun _ _ _ _ => Iff.rfl

/-! ### What a reader checks -/

/-- The checks on a clock. -/
def VectorClock.Valid (c : VectorClock) : Prop :=
  c.entries.entries.length ≤ 256 ∧ ∀ e ∈ c.entries.entries, e.1 ≠ "" ∧ e.1.utf8ByteSize ≤ 256 ∧ (e.2 : ℤ) ≤ maxCounter

def Number.Valid (floats : Floats) : Number → Prop
  | .int n => 0 ≤ n ∧ n ≤ 10 ^ 12
  | .float x => ∃ t, floats.value x = some t ∧ 0 ≤ t ∧ t ≤ 10 ^ 12

structure Version.Valid (floats : Floats) (v : Version) : Prop where
  clock : v.clock.Valid
  timestamp : v.timestamp.Valid floats
  value : ∀ bytes, v.value = some bytes → bytes.length ≤ 10 * 1024

theorem mapM_readCounter (l : List (String × ℕ)) : (l.map fun e => (e.1, Json.int e.2)).mapM readCounter =
      if ∀ e ∈ l, e.1 ≠ "" ∧ e.1.utf8ByteSize ≤ 256 ∧ (e.2 : ℤ) ≤ maxCounter then some l
      else none := by
  induction l with
  | nil => rfl
  | cons e l ih =>
    rw [map_cons, mapM_cons, ih]
    by_cases he : e.1 ≠ "" ∧ e.1.utf8ByteSize ≤ 256 ∧ (e.2 : ℤ) ≤ maxCounter
    · have hread : readCounter (e.1, Json.int e.2) = some e := by
        simp only [readCounter]
        rw [if_pos ⟨he.1, he.2.1, Int.natCast_nonneg _, he.2.2⟩, Int.toNat_natCast]
      rw [hread]
      simp only [forall_mem_cons, he, not_false_eq_true, ne_eq, true_and, and_self]
      split_ifs <;> rfl
    · have hread : readCounter (e.1, Json.int e.2) = none := by
        simp only [readCounter]
        exact if_neg fun h => he ⟨h.1, h.2.1, h.2.2.2⟩
      have hnot : ¬ ∀ x ∈ e :: l, x.1 ≠ "" ∧ x.1.utf8ByteSize ≤ 256 ∧ (x.2 : ℤ) ≤ maxCounter :=
        fun h => he (h e mem_cons_self)
      rw [hread, if_neg hnot]
      rfl

theorem readClock_toJson {c d : VectorClock} : readClock c.toJson = .ok d ↔ c.Valid ∧ d = { entries := c.entries } := by
  have hkeys : (c.entries.entries.map Prod.fst).Nodup := c.entries.nodup
  simp only [VectorClock.toJson, readClock, length_map, VectorClock.Valid]
  by_cases hlen : c.entries.entries.length ≤ 256
  · rw [if_pos hlen, mapM_readCounter]
    by_cases hall : ∀ e ∈ c.entries.entries, e.1 ≠ "" ∧ e.1.utf8ByteSize ≤ 256 ∧ (e.2 : ℤ) ≤ maxCounter
    · rw [if_pos hall]
      simp only [hkeys, dif_pos, Except.ok.injEq, hlen, true_and]
      exact ⟨fun h => ⟨hall, h.symm⟩, fun h => h.2.symm⟩
    · rw [if_neg hall]
      exact ⟨fun h => by simp at h, fun h => absurd h.1.2 hall⟩
  · rw [if_neg hlen]
    exact ⟨fun h => by simp at h, fun h => absurd h.1.1 hlen⟩

theorem VectorClock.frozen_valid {c : VectorClock} : c.frozen.Valid ↔ c.Valid := by
  have hperm : c.frozen.entries.entries.Perm c.entries.entries := c.entries.sorted_equiv.entries_perm
  simp only [Valid, hperm.length_eq, hperm.mem_iff]

variable {floats : Floats}

theorem readTimestamp_toJson {t u : Number} :
    readTimestamp floats (t.toJson floats) = .ok u ↔ t.Valid floats ∧ u = t.frozen floats := by
  cases t with
  | int n =>
    simp only [Number.toJson, readTimestamp, Number.Valid, Number.frozen]
    split_ifs with h
    · simp only [Except.ok.injEq, h, and_self, true_and, eq_comm]
    · simp only [h, false_and]
  | float x =>
    simp only [Number.toJson, readTimestamp, Number.Valid, Number.frozen, floats.value_repr, floats.repr_repr]
    cases hx : floats.value x with
    | none => simp
    | some t =>
      simp only [Option.some.injEq, exists_eq_left']
      split_ifs with h
      · simp only [Except.ok.injEq, h, and_self, true_and, eq_comm]
      · simp only [h, false_and]

theorem readValue_writeValue {value : Option (List UInt8)} {w : Option (List UInt8)} :
    readValue (writeValue value) = .ok w ↔ (∀ bytes, value = some bytes → bytes.length ≤ 10 * 1024) ∧ w = value := by
  cases value with
  | none => simp [writeValue, readValue, eq_comm]
  | some bytes =>
    simp only [writeValue, readValue, String.toList_ofList, b64decode_b64encode]
    split_ifs with h
    · simp [h, eq_comm]
    · simp [h]

/-- Reading a row back: the checks, and the version with its clock sorted. -/
theorem readVersion_row {v w : Version} :
    readVersion floats (v.row floats).sortKeys = .ok w ↔ v.Valid floats ∧ w = v.frozen floats := by
  have hget : ∀ k, (v.row floats).sortKeys.get? k = ((v.fields floats).lookup k).map Json.sortKeys :=
    Json.get?_sortKeys (v.fields_nodup floats)
  have hfields : hasFields (v.row floats).sortKeys ["clock", "timestamp", "value"] = true := by
    have hmem : ∀ p, p ∈ Json.sortByKey (Json.sortFields (v.fields floats)) ↔ p ∈ Json.sortFields (v.fields floats) :=
      fun p => (Json.sortByKey_perm _).mem_iff
    simp only [hasFields, Version.row, Json.sortKeys, Bool.and_eq_true, all_eq_true,
      decide_eq_true_eq, hmem, ((Json.sortByKey_perm _).map Prod.fst).mem_iff]
    simp [Version.fields, Json.sortFields]
  have hclock : (v.row floats).sortKeys.get? "clock" = some v.clock.frozen.toJson := by
    rw [hget, ← VectorClock.toJson_sortKeys]
    rfl
  have htimestamp : (v.row floats).sortKeys.get? "timestamp" = some (v.timestamp.toJson floats) := by
    rw [hget]
    cases h : v.timestamp <;> simp [Version.fields, h, Number.toJson, Json.sortKeys, List.lookup]
  have hvalue : (v.row floats).sortKeys.get? "value" = some (writeValue v.value) := by
    rw [hget]
    cases h : v.value <;> simp [Version.fields, h, writeValue, Json.sortKeys]
  simp only [readVersion, hfields, if_true, hclock, htimestamp, hvalue, Option.getD_some,
    Py.bind_eq_ok, readClock_toJson, readTimestamp_toJson, readValue_writeValue,
    VectorClock.frozen_valid, Py.pure_eq, Except.ok.injEq]
  constructor
  · rintro ⟨c, ⟨hc, rfl⟩, t, ⟨ht, rfl⟩, b, ⟨hb, rfl⟩, rfl⟩
    exact ⟨⟨hc, ht, hb⟩, rfl⟩
  · rintro ⟨⟨hc, ht, hb⟩, rfl⟩
    exact ⟨_, ⟨hc, rfl⟩, _, ⟨ht, rfl⟩, _, ⟨hb, rfl⟩, rfl⟩

/-! ### Reading a record back -/

/-- The versions in the order of their rows. -/
def sortVersions (floats : Floats) (versions : List Version) : List Version :=
  versions.insertionSort fun a b => (a.row floats).dumps ≤ (b.row floats).dumps

theorem sortVersions_perm (floats : Floats) (versions : List Version) : (sortVersions floats versions).Perm versions :=
  perm_insertionSort _ _

theorem sortRows_map_row (floats : Floats) (versions : List Version) :
    sortRows (versions.map (Version.row floats)) = (sortVersions floats versions).map (Version.row floats) := by
  symm
  apply map_insertionSort
  exact fun _ _ _ _ => Iff.rfl

theorem recordJson_wf {rows : List Json} (h : ∀ r ∈ rows, r.WF) : (recordJson rows).WF :=
  ⟨by simp, trivial, Json.itemsWF_iff.mpr h, trivial⟩

variable {versions ws : List Version}

theorem mapM_readVersion : (versions.map fun v => (v.row floats).sortKeys).mapM (readVersion floats) = .ok ws ↔
      (∀ v ∈ versions, v.Valid floats) ∧ ws = versions.map (Version.frozen floats) := by
  induction versions generalizing ws with
  | nil => simp [eq_comm]
  | cons v versions ih =>
    rw [map_cons, mapM_cons]
    simp only [Py.bind_eq_ok, readVersion_row, ih, Py.pure_eq, Except.ok.injEq, forall_mem_cons, map_cons]
    constructor
    · rintro ⟨w, ⟨hv, rfl⟩, ws, ⟨hvs, rfl⟩, rfl⟩
      exact ⟨⟨hv, hvs⟩, rfl⟩
    · rintro ⟨⟨hv, hvs⟩, rfl⟩
      exact ⟨_, ⟨hv, rfl⟩, _, ⟨hvs, rfl⟩, rfl⟩

/-- The limits a reader puts on a record. -/
structure Readable (floats : Floats) (versions : List Version) : Prop where
  size : (encode floats versions).utf8ByteSize ≤ 1024 * 1024
  siblings : versions.length ≤ 256
  valid : ∀ v ∈ versions, v.Valid floats

theorem decode_encode_iff : decode floats (encode floats versions) = .ok ws ↔
      Readable floats versions ∧ ws = (sortVersions floats versions).map (Version.frozen floats) := by
  have hwf : (recordJson ((sortVersions floats versions).map (Version.row floats))).WF := by
    refine recordJson_wf fun r hr => ?_
    obtain ⟨v, -, rfl⟩ := mem_map.mp hr
    exact v.row_wf floats
  have hloads : Json.loads (encode floats versions) =
      some (recordJson ((sortVersions floats versions).map fun v => (v.row floats).sortKeys)) := by
    rw [encode, sortRows_map_row floats, Json.loads_encode hwf]
    simp [recordJson, Json.sortKeys, Json.sortFields, Json.sortItems_eq_map, Json.sortByKey, Function.comp_def]
  have hlen : ((sortVersions floats versions).map fun v => (v.row floats).sortKeys).length = versions.length := by
    rw [length_map, (sortVersions_perm floats versions).length_eq]
  have hfields : ∀ rows, hasFields (recordJson rows) ["format", "versions"] = true := fun _ => by
    simp [hasFields, recordJson]
  have hformat : ∀ rows, (recordJson rows).get? "format" = some (.int 1) := fun _ => rfl
  have hversions : ∀ rows, (recordJson rows).get? "versions" = some (.arr rows) := fun _ => rfl
  by_cases hsize : (encode floats versions).utf8ByteSize ≤ 1024 * 1024
  · rw [decode, if_neg (by omega), hloads]
    simp only [hfields, if_true, hformat, hversions, hlen]
    split_ifs with h256
    · rw [mapM_readVersion]
      simp only [(sortVersions_perm floats versions).mem_iff]
      exact ⟨fun h => ⟨⟨hsize, h256, h.1⟩, h.2⟩, fun h => ⟨h.1.valid, h.2⟩⟩
    · exact ⟨fun h => by simp at h, fun h => absurd h.1.siblings h256⟩
  · rw [decode, if_pos (by omega)]
    exact ⟨fun h => by simp at h, fun h => absurd h.1.size hsize⟩

/-! ### The bytes do not depend on the order -/

theorem dumps_sortKeys (j : Json) : j.sortKeys.dumps = j.dumps := by
  rw [Json.dumps, Json.dumps, Json.sortKeys_sortKeys]

theorem sortRows_sorted (rows : List Json) : (sortRows rows).Pairwise fun a b => a.dumps ≤ b.dumps := by
  have : IsTrans Json fun a b => a.dumps ≤ b.dumps := ⟨fun _ _ _ h h' => le_trans h h'⟩
  have : Std.Total fun a b : Json => a.dumps ≤ b.dumps := ⟨fun a b => le_total a.dumps b.dumps⟩
  exact pairwise_insertionSort _ rows

theorem sortRows_perm (rows : List Json) : (sortRows rows).Perm rows := perm_insertionSort _ _

/-- Rows with sorted keys sort to one list, whatever order they come in. -/
theorem sortRows_eq_of_perm {rows rows' : List Json} (h : rows.Perm rows')
    (hwf : ∀ r ∈ rows, r.WF ∧ r.sortKeys = r) : sortRows rows = sortRows rows' := by
  have hperm : (sortRows rows).Perm (sortRows rows') := (sortRows_perm rows).trans (h.trans (sortRows_perm rows').symm)
  refine hperm.eq_of_pairwise ?_ (sortRows_sorted rows) (sortRows_sorted rows')
  intro a b ha hb hab hba
  have ha' := hwf a ((sortRows_perm rows).mem_iff.mp ha)
  have hb' := hwf b ((sortRows_perm rows).mem_iff.mp (hperm.mem_iff.mpr hb))
  rw [← ha'.2, ← hb'.2]
  exact Json.sortKeys_eq_of_dumps ha'.1 hb'.1 (le_antisymm hab hba)

theorem sortRows_map_sortKeys (rows : List Json) :
    (sortRows rows).map Json.sortKeys = sortRows (rows.map Json.sortKeys) := by
  apply map_insertionSort
  intro a _ b _
  rw [dumps_sortKeys, dumps_sortKeys]

theorem encode_recordJson (rows : List Json) :
    (recordJson rows).encode = (recordJson (rows.map Json.sortKeys)).encode := by
  rw [← Json.encode_sortKeys, ← Json.encode_sortKeys (recordJson (rows.map Json.sortKeys))]
  simp [recordJson, Json.sortKeys, Json.sortFields, Json.sortItems_eq_map, Function.comp_def, Json.sortKeys_sortKeys]

theorem Number.frozen_frozen (floats : Floats) (t : Number) : (t.frozen floats).frozen floats = t.frozen floats := by
  cases t with
  | int n => rfl
  | float x => simp only [frozen, floats.repr_repr]

theorem Number.toJson_frozen (floats : Floats) (t : Number) : (t.frozen floats).toJson floats = t.toJson floats := by
  cases t with
  | int n => rfl
  | float x => simp only [frozen, toJson, floats.repr_repr]

theorem VectorClock.frozen_frozen (c : VectorClock) : c.frozen.frozen = c.frozen := by
  simp only [frozen, c.entries.sorted_equiv.sorted_eq]

theorem Version.frozen_frozen (floats : Floats) (v : Version) : (v.frozen floats).frozen floats = v.frozen floats := by
  simp only [frozen, VectorClock.frozen_frozen, Number.frozen_frozen]

theorem Version.row_frozen (floats : Floats) (v : Version) :
    ((v.frozen floats).row floats).sortKeys = (v.row floats).sortKeys := by
  simp only [row, fields, frozen, Json.sortKeys, Json.sortFields, Number.toJson_frozen,
    VectorClock.toJson_sortKeys, VectorClock.frozen_frozen]

theorem encode_eq_of_perm {vs : List Version}
    (h : (vs.map (Version.frozen floats)).Perm (ws.map (Version.frozen floats))) :
    encode floats vs = encode floats ws := by
  have hrows : ∀ l : List Version, (l.map (Version.row floats)).map Json.sortKeys =
      (l.map (Version.frozen floats)).map fun v => (v.row floats).sortKeys := by
    intro l
    rw [map_map, map_map]
    exact map_congr_left fun v _ => (Version.row_frozen floats v).symm
  rw [encode, encode, encode_recordJson, encode_recordJson (sortRows (ws.map _)),
    sortRows_map_sortKeys, sortRows_map_sortKeys, hrows, hrows,
    sortRows_eq_of_perm (h.map _) fun r hr => ?_]
  obtain ⟨v, -, rfl⟩ := mem_map.mp hr
  exact ⟨Json.sortKeys_wf _ (v.row_wf floats), Json.sortKeys_sortKeys _⟩

/-- Reading a record and writing it again gives the bytes back. -/
theorem encode_decode_encode (h : decode floats (encode floats versions) = .ok ws) :
    encode floats ws = encode floats versions := by
  obtain ⟨-, rfl⟩ := decode_encode_iff.mp h
  apply encode_eq_of_perm
  rw [map_map]
  have hfrozen : Version.frozen floats ∘ Version.frozen floats = Version.frozen floats :=
    funext fun v => Version.frozen_frozen floats v
  rw [hfrozen]
  exact (sortVersions_perm floats versions).map _

end SystemDesign.KvStore
