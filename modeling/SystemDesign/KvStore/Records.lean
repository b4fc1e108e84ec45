import SystemDesign.Lib.Json
import SystemDesign.Lib.Py
import SystemDesign.KvStore.VectorClock

/-!
Sibling records (`replication/records.py`).

A version is a value (or a tombstone), a clock and a timestamp. Timestamps are
Python numbers, compared by their exact values as Python compares an `int` with
a `float`. A float is kept as the literal that `repr` prints for it; what a
literal reads as is a parameter of the model, with the facts about `repr` that
the records rely on.

`reconcile` keeps, of the versions with one value and clock, one with the
largest timestamp, and of these the ones no clock dominates. The theorem at the
end says exactly when that loses nothing.
-/

namespace SystemDesign.KvStore

/-- Python floats: `value` is the exact value of `float(literal)`, `none` for one that overflows,
and `repr` the literal that `repr(float(literal))` prints. Only the two zeros have one value and
two literals. -/
structure Floats where
  value : FloatLit → Option ℚ
  repr : FloatLit → FloatLit
  value_repr : ∀ x, value (repr x) = value x
  repr_repr : ∀ x, repr (repr x) = repr x
  repr_eq : ∀ x y q, q ≠ 0 → value x = some q → value y = some q → repr x = repr y

/-- A Python number; the literal of a float is the one `repr` prints. -/
inductive Number where
  | int (n : ℤ)
  | float (x : FloatLit)
deriving DecidableEq

def Number.value (floats : Floats) : Number → ℚ
  | .int n => n
  | .float x => (floats.value x).getD 0

structure Version where
  value : Option (List UInt8)
  clock : VectorClock
  timestamp : Number
deriving DecidableEq

/-! ### Reading a record -/

def base64Alphabet : List Char := "ABCDEFGHIJKLMNOPQRSTUVWXYZabcdefghijklmnopqrstuvwxyz0123456789+/".toList

def base64Digit (c : Char) : Option ℕ := base64Alphabet.findIdx? (· = c)

/-- `base64.b64decode(text, validate=True)`. -/
def b64decode : List Char → Option (List UInt8)
  | [] => some []
  | [a, b, '=', '='] => do
      let a ← base64Digit a
      let b ← base64Digit b
      return [UInt8.ofNat (a * 4 + b / 16)]
  | [a, b, c, '='] => do
      let a ← base64Digit a
      let b ← base64Digit b
      let c ← base64Digit c
      return [UInt8.ofNat (a * 4 + b / 16), UInt8.ofNat (b % 16 * 16 + c / 4)]
  | a :: b :: c :: d :: rest => do
      let a ← base64Digit a
      let b ← base64Digit b
      let c ← base64Digit c
      let d ← base64Digit d
      return UInt8.ofNat (a * 4 + b / 16) :: UInt8.ofNat (b % 16 * 16 + c / 4) ::
        UInt8.ofNat (c % 4 * 64 + d) :: (← b64decode rest)
  | _ => none

def maxCounter : ℤ := 2 ^ 63 - 1

/-- One entry of a clock. -/
def readCounter (e : String × Json) : Option (String × ℕ) :=
  match e.2 with
  | .int count =>
      if e.1 ≠ "" ∧ e.1.utf8ByteSize ≤ 256 ∧ 0 ≤ count ∧ count ≤ maxCounter then
        some (e.1, count.toNat)
      else none
  | _ => none

def readClock (clock : Json) : Py VectorClock :=
  match clock with
  | .obj fs =>
      if fs.length ≤ 256 then
        match fs.mapM readCounter with
        | some es => if h : (es.map Prod.fst).Nodup then .ok { entries := ⟨es, h⟩ } else
            .error (.valueError "duplicate record field")
        | none => .error (.valueError "invalid vector clock")
      else .error (.valueError "invalid vector clock")
  | _ => .error (.valueError "invalid vector clock")

/-- A number that passes the checks of a timestamp. -/
def readTimestamp (floats : Floats) (timestamp : Json) : Py Number :=
  match timestamp with
  | .int n => if 0 ≤ n ∧ n ≤ 10 ^ 12 then .ok (.int n) else
      .error (.valueError "invalid timestamp")
  | .float x =>
      match floats.value x with
      | some t => if 0 ≤ t ∧ t ≤ 10 ^ 12 then .ok (.float (floats.repr x)) else
          .error (.valueError "invalid timestamp")
      | none => .error (.valueError "invalid timestamp")
  | _ => .error (.valueError "invalid timestamp")

def readValue (value : Json) : Py (Option (List UInt8)) :=
  match value with
  | .null => .ok none
  | .str text =>
      match b64decode text.toList with
      | some bytes => if bytes.length ≤ 10 * 1024 then .ok (some bytes) else
          .error (.valueError "value exceeds 10 KiB")
      | none => .error (.valueError "invalid base64")
  | _ => .error (.valueError "invalid value encoding")

/-- `set(row) == expected` on a dictionary. -/
def hasFields (value : Json) (expected : List String) : Bool :=
  match value with
  | .obj fs => (fs.all fun p => p.1 ∈ expected) && expected.all fun k => k ∈ fs.map Prod.fst
  | _ => false

def readVersion (floats : Floats) (row : Json) : Py Version :=
  if hasFields row ["clock", "timestamp", "value"] then do
    let clock ← readClock ((row.get? "clock").getD .null)
    let timestamp ← readTimestamp floats ((row.get? "timestamp").getD .null)
    let value ← readValue ((row.get? "value").getD .null)
    return ⟨value, clock, timestamp⟩
  else .error (.valueError "invalid version")

/-- `decode` on the text of a record. -/
def decode (floats : Floats) (raw : String) : Py (List Version) :=
  if raw.utf8ByteSize > 1024 * 1024 then .error (.valueError "replica record exceeds 1 MiB")
  else match Json.loads raw with
    | none => .error (.valueError "invalid JSON")
    | some data =>
        if hasFields data ["format", "versions"] then
          match data.get? "format", data.get? "versions" with
          | some (.int 1), some (.arr rows) =>
              if rows.length ≤ 256 then rows.mapM (readVersion floats)
              else .error (.valueError "expected at most 256 sibling versions")
          | some (.int 1), _ => .error (.valueError "expected at most 256 sibling versions")
          | _, _ => .error (.valueError "unsupported replica record format")
        else .error (.valueError "unsupported replica record format")

/-! ### Reconciliation -/

/-- `(version.value, tuple(sorted(version.clock.to_dict().items())))`. -/
def Version.identity (v : Version) : Option (List UInt8) × List (String × ℕ) :=
  (v.value, v.clock.entries.sorted.entries)

abbrev Unique := Dict (Option (List UInt8) × List (String × ℕ)) Version

/-- One round of the loop over the versions. -/
def keepNewest (floats : Floats) (unique : Unique) (version : Version) : Unique :=
  match unique.get? version.identity with
  | none => unique.set version.identity version
  | some previous =>
      if version.timestamp.value floats > previous.timestamp.value floats then unique.set version.identity version
      else unique

/-- `list(unique.values())`. -/
def candidates (floats : Floats) (versions : List Version) : List Version :=
  (versions.foldl (keepNewest floats) .empty).values

def reconcile (floats : Floats) (versions : List Version) : List Version :=
  (candidates floats versions).filter fun v =>
    !(candidates floats versions).any fun other => other.clock.dominates v.clock

/-! ### The candidates -/

section
variable (floats : Floats)

/-- Same value, same clock. -/
def Version.Same (v w : Version) : Prop := v.value = w.value ∧ v.clock.entries.Equiv w.clock.entries

variable {v w : Version}

theorem Version.same_iff : v.Same w ↔ v.identity = w.identity := by
  simp only [Same, identity, Prod.mk.injEq]
  refine and_congr_right fun _ => ⟨fun h => by rw [h.sorted_eq], fun h => ?_⟩
  have heq : v.clock.entries.sorted.Equiv w.clock.entries.sorted := fun k => by
    rw [Dict.get?, Dict.get?, h]
  exact v.clock.entries.sorted_equiv.symm.trans (heq.trans w.clock.entries.sorted_equiv)

theorem Version.Same.counter_eq (h : v.Same w) : v.clock.counter = w.clock.counter := by
  funext node
  rw [VectorClock.counter, VectorClock.counter, h.2 node]

theorem Version.Same.lists_iff (h : v.Same w) (node : String) : v.clock.Lists node ↔ w.clock.Lists node := by
  rw [VectorClock.Lists, VectorClock.Lists, h.2 node]

theorem Version.Same.dominates_eq (h : v.Same w) (c : VectorClock) : c.dominates v.clock = c.dominates w.clock := by
  rw [Bool.eq_iff_iff, VectorClock.dominates_iff, VectorClock.dominates_iff, h.counter_eq]
  simp only [h.lists_iff]

/-- What the dictionary of the first loop holds after some versions. -/
structure UniqueOk (versions : List Version) (unique : Unique) : Prop where
  key : ∀ k v, unique.get? k = some v → v.identity = k ∧ v ∈ versions
  newest : ∀ v ∈ versions, ∃ r, unique.get? v.identity = some r ∧ v.timestamp.value floats ≤ r.timestamp.value floats

variable {versions : List Version}

theorem keepNewest_ok {unique : Unique} (h : UniqueOk floats versions unique) (v : Version) :
    UniqueOk floats (versions ++ [v]) (keepNewest floats unique v) := by
  have hset : (∀ r, unique.get? v.identity = some r → r.timestamp.value floats ≤ v.timestamp.value floats) →
      UniqueOk floats (versions ++ [v]) (unique.set v.identity v) := by
    intro hle
    refine ⟨fun k w hw => ?_, fun w hw => ?_⟩
    · rw [Dict.get?_set] at hw
      split_ifs at hw with hk
      · obtain rfl := Option.some.inj hw
        exact ⟨hk.symm, by simp⟩
      · exact ⟨(h.key k w hw).1, by simp [(h.key k w hw).2]⟩
    · rw [Dict.get?_set]
      by_cases hk : w.identity = v.identity
      · refine ⟨v, if_pos hk, ?_⟩
        rcases List.mem_append.mp hw with hw | hw
        · obtain ⟨r, hr, hwr⟩ := h.newest w hw
          exact hwr.trans (hle r (hk ▸ hr))
        · rw [List.mem_singleton.mp hw]
      · rw [if_neg hk]
        rcases List.mem_append.mp hw with hw | hw
        · exact h.newest w hw
        · exact absurd (congrArg Version.identity (List.mem_singleton.mp hw)) hk
  unfold keepNewest
  cases hget : unique.get? v.identity with
  | none => exact hset (by simp [hget])
  | some previous =>
    simp only
    split_ifs with hgt
    · exact hset (by simp [hget]; exact hgt.le)
    · refine ⟨fun k w hw => ⟨(h.key k w hw).1, by simp [(h.key k w hw).2]⟩, fun w hw => ?_⟩
      rcases List.mem_append.mp hw with hw | hw
      · exact h.newest w hw
      · rw [List.mem_singleton.mp hw]
        exact ⟨previous, hget, not_lt.mp hgt⟩

theorem uniqueOk_fold (versions : List Version) :
    UniqueOk floats versions (versions.foldl (keepNewest floats) .empty) := by
  have hfold : ∀ (rest : List Version) (done : List Version) (unique : Unique), UniqueOk floats done unique →
      UniqueOk floats (done ++ rest) (rest.foldl (keepNewest floats) unique) := by
    intro rest
    induction rest with
    | nil => intro done unique h; simpa using h
    | cons v rest ih =>
      intro done unique h
      have := ih (done ++ [v]) _ (keepNewest_ok floats h v)
      simpa using this
  simpa using hfold versions [] .empty ⟨by simp, by simp⟩

theorem mem_of_mem_candidates (h : v ∈ candidates floats versions) : v ∈ versions := by
  obtain ⟨k, hk⟩ := Dict.mem_values.mp h
  exact ((uniqueOk_fold floats versions).key k v hk).2

/-- Every version has a candidate with its value and clock that is no older. -/
theorem exists_candidate (h : v ∈ versions) :
    ∃ r ∈ candidates floats versions, v.Same r ∧ v.timestamp.value floats ≤ r.timestamp.value floats := by
  obtain ⟨r, hr, hle⟩ := (uniqueOk_fold floats versions).newest v h
  refine ⟨r, Dict.mem_values.mpr ⟨_, hr⟩, Version.same_iff.mpr ?_, hle⟩
  exact ((uniqueOk_fold floats versions).key _ r hr).1.symm

theorem mem_reconcile : v ∈ reconcile floats versions ↔ v ∈ candidates floats versions ∧
      ∀ w ∈ versions, w.clock.dominates v.clock = false := by
  simp only [reconcile, List.mem_filter, Bool.not_eq_true', List.any_eq_false, Bool.not_eq_true]
  refine and_congr_right fun _ => ⟨fun h w hw => ?_, fun h w hw => h w (mem_of_mem_candidates floats hw)⟩
  obtain ⟨r, hr, hsame, -⟩ := exists_candidate floats hw
  have := h r hr
  rw [← this, Bool.eq_iff_iff, VectorClock.dominates_iff, VectorClock.dominates_iff, hsame.counter_eq]
  simp only [hsame.lists_iff]

/-! ### When nothing is lost -/

/-- Every version is returned, with a timestamp no smaller, or dominated by a returned one. -/
def LosesNothing (versions : List Version) : Prop :=
  reconcile floats versions ≠ [] ∧ ∀ v ∈ versions,
    (∃ r ∈ reconcile floats versions, v.Same r ∧ v.timestamp.value floats ≤ r.timestamp.value floats) ∨
    ∃ r ∈ reconcile floats versions, r.clock.dominates v.clock = true

/-- A clock no clock of the list exceeds in its counters. -/
def IsMaximal (versions : List Version) (v : Version) : Prop :=
  ∀ u ∈ versions, v.clock.counter ≤ u.clock.counter → u.clock.counter = v.clock.counter

/-- Among the versions with the same maximal counters, one lists every node the others list. -/
def MaximaAreCovered (versions : List Version) : Prop :=
  ∀ v ∈ versions, IsMaximal versions v → ∃ r ∈ versions, r.clock.counter = v.clock.counter ∧
    ∀ u ∈ versions, u.clock.counter = v.clock.counter → ∀ node, u.clock.Lists node → r.clock.Lists node

/-- Above every version there is one with maximal counters. -/
theorem exists_maximal_above (hv : v ∈ versions) :
    ∃ m ∈ versions, v.clock.counter ≤ m.clock.counter ∧ IsMaximal versions m := by
  have hfin : {c | ∃ w ∈ versions, w.clock.counter = c}.Finite :=
    (versions.finite_toSet.image fun w => w.clock.counter).subset fun c ⟨w, hw, hc⟩ => ⟨w, hw, hc⟩
  obtain ⟨c, hle, ⟨m, hm, rfl⟩, hmax⟩ := hfin.exists_le_maximal ⟨v, hv, rfl⟩
  exact ⟨m, hm, hle, fun u hu hmu => le_antisymm (hmax ⟨u, hu, rfl⟩ hmu) hmu⟩

/-- No clock dominates one that has maximal counters and lists all the nodes listed with them. -/
theorem not_dominated {r : Version} (hmax : IsMaximal versions r)
    (hcover : ∀ u ∈ versions, u.clock.counter = r.clock.counter →
      ∀ node, u.clock.Lists node → r.clock.Lists node) : ∀ w ∈ versions, w.clock.dominates r.clock = false := by
  intro w hw
  by_contra hdom
  obtain ⟨hle, hdiff⟩ := VectorClock.dominates_iff.mp (by simpa using hdom)
  have heq := hmax w hw hle
  rcases hdiff with hne | ⟨node, hlists, hnot⟩
  · exact hne heq
  · exact hnot (hcover w hw heq node hlists)

/-- Reconciliation keeps or dominates every version exactly when the maximal clocks are covered. -/
theorem reconcile_loses_nothing_iff {versions : List Version} (hne : versions ≠ []) :
    LosesNothing floats versions ↔ MaximaAreCovered versions := by
  constructor
  · rintro ⟨-, hall⟩ v hv hmax
    -- what stands for `v` in the result has the counters of `v`
    have hret : ∃ r ∈ reconcile floats versions, r.clock.counter = v.clock.counter := by
      rcases hall v hv with ⟨r, hr, hsame, -⟩ | ⟨r, hr, hdom⟩
      · exact ⟨r, hr, hsame.counter_eq.symm⟩
      · have hmem := mem_of_mem_candidates floats ((mem_reconcile floats).mp hr).1
        exact ⟨r, hr, hmax r hmem (VectorClock.dominates_iff.mp hdom).1⟩
    obtain ⟨r, hr, heq⟩ := hret
    obtain ⟨hcand, hfree⟩ := (mem_reconcile floats).mp hr
    refine ⟨r, mem_of_mem_candidates floats hcand, heq, fun u hu hu' node hlists => ?_⟩
    by_contra hnot
    have hdom : u.clock.dominates r.clock = true :=
      VectorClock.dominates_iff.mpr ⟨(heq.trans hu'.symm).le, .inr ⟨node, hlists, hnot⟩⟩
    rw [hfree u hu] at hdom
    cases hdom
  · intro hcov
    have hall : ∀ v ∈ versions, (∃ r ∈ reconcile floats versions, v.Same r ∧
        v.timestamp.value floats ≤ r.timestamp.value floats) ∨
        ∃ r ∈ reconcile floats versions, r.clock.dominates v.clock = true := by
      intro v hv
      obtain ⟨m, hm, hvm, hmax⟩ := exists_maximal_above hv
      obtain ⟨t, ht, htm, hcover⟩ := hcov m hm hmax
      have htmax : IsMaximal versions t := fun u hu h => by
        rw [htm] at h ⊢
        exact hmax u hu h
      have hfree := not_dominated htmax fun u hu h => hcover u hu (h.trans htm)
      obtain ⟨r, hr, hsame, -⟩ := exists_candidate floats ht
      have hret : r ∈ reconcile floats versions := (mem_reconcile floats).mpr
        ⟨hr, fun w hw => by rw [← hsame.dominates_eq, hfree w hw]⟩
      by_cases hdom : t.clock.dominates v.clock = true
      · refine .inr ⟨r, hret, VectorClock.dominates_iff.mpr ?_⟩
        rw [VectorClock.dominates_iff] at hdom
        simpa only [← hsame.counter_eq, ← hsame.lists_iff] using hdom
      · -- `v` itself has these counters and lists these nodes
        have hnot : ¬ (v.clock.counter ≤ t.clock.counter ∧ (t.clock.counter ≠ v.clock.counter ∨
            ∃ node, t.clock.Lists node ∧ ¬ v.clock.Lists node)) := fun h =>
          hdom (VectorClock.dominates_iff.mpr h)
        have hle : v.clock.counter ≤ t.clock.counter := htm ▸ hvm
        have heq : t.clock.counter = v.clock.counter := by
          by_contra hc
          exact hnot ⟨hle, .inl hc⟩
        have hlists : ∀ node, t.clock.Lists node → v.clock.Lists node := fun node hn => by
          by_contra hc
          exact hnot ⟨hle, .inr ⟨node, hn, hc⟩⟩
        have hvfree : ∀ w ∈ versions, w.clock.dominates v.clock = false :=
          not_dominated (fun u hu h => by rw [← heq] at h ⊢; exact htmax u hu h)
            fun u hu h node hn => hlists node (hcover u hu (h.trans (heq.symm.trans htm)) node hn)
        obtain ⟨r', hr', hsame', hts⟩ := exists_candidate floats hv
        exact .inl ⟨r', (mem_reconcile floats).mpr
          ⟨hr', fun w hw => by rw [← hsame'.dominates_eq, hvfree w hw]⟩, hsame', hts⟩
    obtain ⟨v, hv⟩ := List.exists_mem_of_ne_nil _ hne
    refine ⟨?_, hall⟩
    rcases hall v hv with ⟨r, hr, -⟩ | ⟨r, hr, -⟩ <;> exact List.ne_nil_of_mem hr

/-- Clocks whose counters are all positive list a node exactly when its counter is positive. -/
def VectorClock.Positive (c : VectorClock) : Prop := ∀ node n, c.entries.get? node = some n → 0 < n

theorem VectorClock.Positive.lists_iff {c : VectorClock} (h : c.Positive) (node : String) :
    c.Lists node ↔ 0 < c.counter node := by
  constructor
  · rintro ⟨n, hn⟩
    simpa [counter, hn] using h node n hn
  · intro hpos
    by_contra hnot
    rw [counter_of_not_lists hnot] at hpos
    omega

theorem maximaAreCovered_of_positive (h : ∀ v ∈ versions, v.clock.Positive) : MaximaAreCovered versions := by
  intro v hv _
  refine ⟨v, hv, rfl, fun u hu heq node hlists => ?_⟩
  rw [(h v hv).lists_iff, ← heq, ← (h u hu).lists_iff]
  exact hlists

end

/-- No float is read. -/
def noFloats : Floats := ⟨fun _ => none, id, by simp, by simp, by simp⟩

/-- Two siblings whose clocks list one node each, with a zero counter. -/
def zeroRecord : String :=
  "\x7b\"format\":1,\"versions\":[" ++
  "\x7b\"clock\":\x7b\"a\":0\x7d,\"timestamp\":1,\"value\":\"eA==\"\x7d," ++
  "\x7b\"clock\":\x7b\"b\":0\x7d,\"timestamp\":2,\"value\":\"eQ==\"\x7d]\x7d"

/-- Each of the two clocks dominates the other, and both values are gone. -/
theorem reconcile_loses_zero_counters : ∃ versions,
    decode noFloats zeroRecord = .ok versions ∧ versions.length = 2 ∧
      reconcile noFloats versions = [] ∧ ¬ LosesNothing noFloats versions := by
  have hrun : (decode noFloats zeroRecord).map (fun vs => (vs.length, reconcile noFloats vs))
      = .ok (2, []) := by decide +kernel
  cases hd : decode noFloats zeroRecord with
  | error e => rw [hd] at hrun; cases hrun
  | ok versions =>
      rw [hd] at hrun
      obtain ⟨hlen, hnil⟩ := Prod.mk.inj (Except.ok.inj hrun)
      exact ⟨versions, rfl, hlen, hnil, fun h => h.1 hnil⟩

theorem reconcile_loses_nothing_iff_single : ∃ v : Version,
    (LosesNothing noFloats [v] ↔ MaximaAreCovered [v]) ∧ MaximaAreCovered [v] := by
  refine ⟨⟨none, ⟨⟨[("a", 1)], by simp⟩, 10⟩, .int 1⟩, reconcile_loses_nothing_iff _ (by simp),
    maximaAreCovered_of_positive ?_⟩
  intro v hv node n hn
  simp only [List.mem_singleton] at hv
  subst hv
  simp only [Dict.get?, Assoc.lookup_cons] at hn
  split_ifs at hn
  · obtain rfl := Option.some.inj hn
    decide
  · cases hn

end SystemDesign.KvStore
