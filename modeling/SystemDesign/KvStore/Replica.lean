import SystemDesign.KvStore.Encoding

/-!
A replica's record of one key (`ReplicaRecords` in `replication/records.py`).

The engine holds the record as text, or nothing. `merge` reads it, reconciles it
with the versions that arrived and writes the result back; a call that raises
leaves the record as it was. The lock of the class makes one such call atomic
for its key.

`Covers` is the order behind everything: a record stands for a version when it
holds it, with a timestamp no smaller, or holds one whose clock dominates it.
With positive counters it is transitive, so discarding early loses nothing
later, and a record is determined by the versions that reached it
(`represents_unique`).
-/

namespace SystemDesign.KvStore

open List hiding le_antisymm repr

/-- `ReplicaRecords.read`. -/
def readStored (floats : Floats) (stored : Option String) : Py (List Version) :=
  match stored with
  | none => .ok []
  | some raw => decode floats raw

/-- `ReplicaRecords.merge`: what the engine holds afterwards. -/
def merge (floats : Floats) (stored : Option String) (versions : List Version) : Py (Option String) := do
  let frozen ← decode floats (encode floats versions)
  let existing ← readStored floats stored
  let merged := reconcile floats (existing ++ frozen)
  let raw := encode floats merged
  -- the limits of a reader apply to local and remote merges alike
  let _ ← decode floats raw
  if raw = encode floats existing then return stored else return some raw

/-! ### Clocks with positive counters -/

theorem VectorClock.dominates_trans {a b c : VectorClock} (hb : b.Positive)
    (hab : a.dominates b = true) (hbc : b.dominates c = true) : a.dominates c = true := by
  rw [dominates_iff] at hab hbc ⊢
  refine ⟨hbc.1.trans hab.1, .inl fun heq => ?_⟩
  have hcb : b.counter = c.counter := le_antisymm (hab.1.trans heq.le) hbc.1
  rcases hbc.2 with hne | ⟨node, hlists, hnot⟩
  · exact hne hcb
  · -- a listed node has a positive counter
    have hpos := (hb.lists_iff node).mp hlists
    rw [hcb, counter_of_not_lists hnot] at hpos
    omega

theorem Version.Same.symm {v w : Version} (h : v.Same w) : w.Same v := ⟨h.1.symm, h.2.symm⟩

theorem Version.Same.trans {u v w : Version} (h : u.Same v) (h' : v.Same w) : u.Same w :=
  ⟨h.1.trans h'.1, h.2.trans h'.2⟩

theorem Version.Same.dominates_left {v w : Version} (h : v.Same w) (c : VectorClock) :
    v.clock.dominates c = w.clock.dominates c := by
  rw [Bool.eq_iff_iff, VectorClock.dominates_iff, VectorClock.dominates_iff, h.counter_eq]
  simp only [h.lists_iff]

theorem Version.Same.positive {v w : Version} (h : v.Same w) (hv : v.clock.Positive) :
    w.clock.Positive := fun node n hn => hv node n ((h.2 node).trans hn)

theorem Version.same_frozen (floats : Floats) (v : Version) : v.Same (v.frozen floats) :=
  ⟨rfl, v.clock.entries.sorted_equiv.symm⟩

theorem Number.value_frozen (floats : Floats) (t : Number) : (t.frozen floats).value floats = t.value floats := by
  cases t with
  | int n => rfl
  | float x => simp only [frozen, value, floats.value_repr]

theorem Version.value_frozen (floats : Floats) (v : Version) :
    (v.frozen floats).timestamp.value floats = v.timestamp.value floats :=
  Number.value_frozen floats v.timestamp

variable {floats : Floats}

/-- Frozen copies are equal when value, clock and the written timestamp are. -/
theorem Version.frozen_eq_iff {v w : Version} :
    v.frozen floats = w.frozen floats ↔ v.Same w ∧ v.timestamp.frozen floats = w.timestamp.frozen floats := by
  constructor
  · intro h
    have hsame : v.Same w := (v.same_frozen floats).trans (h ▸ (w.same_frozen floats).symm)
    exact ⟨hsame, congrArg Version.timestamp h⟩
  · rintro ⟨hsame, ht⟩
    simp only [frozen, VectorClock.frozen, hsame.1, hsame.2.sorted_eq, ht]

/-! ### Covering -/

section
variable (floats : Floats)

/-- The list holds the version, no older, or one that dominates it. -/
def Covers (ws : List Version) (v : Version) : Prop :=
  ∃ r ∈ ws, (v.Same r ∧ v.timestamp.value floats ≤ r.timestamp.value floats) ∨ r.clock.dominates v.clock = true

/-- Every clock of the list has positive counters only. -/
def AllPositive (ws : List Version) : Prop := ∀ v ∈ ws, v.clock.Positive

variable {floats}

theorem Covers.trans {ws us : List Version} {v : Version} (h : Covers floats ws v)
    (hws : ∀ w ∈ ws, Covers floats us w) (hpos : AllPositive ws) : Covers floats us v := by
  obtain ⟨r, hr, hv⟩ := h
  obtain ⟨t, ht, hrt⟩ := hws r hr
  refine ⟨t, ht, ?_⟩
  rcases hv with ⟨hsame, hts⟩ | hdom
  · rcases hrt with ⟨hsame', hts'⟩ | hdom'
    · exact .inl ⟨hsame.trans hsame', hts.trans hts'⟩
    · exact .inr (by rw [hsame.dominates_eq, hdom'])
  · rcases hrt with ⟨hsame', -⟩ | hdom'
    · exact .inr (by rw [← hsame'.dominates_left, hdom])
    · exact .inr (VectorClock.dominates_trans (hpos r hr) hdom' hdom)

variable {ws : List Version} {v w : Version}

/-- A version like another stands for the same versions. -/
theorem Covers.like (h : Covers floats ws v) (hsame : v.Same w)
    (hts : w.timestamp.value floats ≤ v.timestamp.value floats) : Covers floats ws w := by
  obtain ⟨r, hr, ⟨hvr, hle⟩ | hdom⟩ := h
  · exact ⟨r, hr, .inl ⟨hsame.symm.trans hvr, hts.trans hle⟩⟩
  · exact ⟨r, hr, .inr (by rw [← hsame.dominates_eq, hdom])⟩

variable {vs : List Version}

theorem covers_reconcile (hpos : AllPositive vs) (hv : v ∈ vs) : Covers floats (reconcile floats vs) v := by
  have hlose := (reconcile_loses_nothing_iff floats (ne_nil_of_mem hv)).mpr (maximaAreCovered_of_positive hpos)
  rcases hlose.2 v hv with ⟨r, hr, hsame⟩ | ⟨r, hr, hdom⟩
  · exact ⟨r, hr, .inl hsame⟩
  · exact ⟨r, hr, .inr hdom⟩

theorem mem_of_mem_reconcile (h : v ∈ reconcile floats vs) :
    v ∈ vs := mem_of_mem_candidates floats ((mem_reconcile floats).mp h).1

/-! ### Lists of siblings -/

/-- No two of the list share value and clock, and none dominates another. -/
structure Siblings (ws : List Version) : Prop where
  distinct : (ws.map Version.identity).Nodup
  free : ∀ v ∈ ws, ∀ w ∈ ws, w.clock.dominates v.clock = false

theorem candidates_distinct (vs : List Version) : ((candidates floats vs).map Version.identity).Nodup := by
  have hkeys : (candidates floats vs).map Version.identity = (vs.foldl (keepNewest floats) .empty).keys := by
    rw [candidates, Dict.values, Dict.keys, map_map]
    refine map_congr_left fun e he => ?_
    exact ((uniqueOk_fold floats vs).key e.1 e.2 (Dict.mem_entries.mp he)).1
  rw [hkeys]
  exact (vs.foldl (keepNewest floats) .empty).nodup

theorem siblings_reconcile (vs : List Version) : Siblings (reconcile floats vs) := by
  refine ⟨(candidates_distinct vs).sublist (filter_sublist.map _), fun v hv w hw => ?_⟩
  exact ((mem_reconcile floats).mp hv).2 w (mem_of_mem_reconcile hw)

theorem Siblings.eq_of_same (h : Siblings ws) (hv : v ∈ ws) (hw : w ∈ ws) (hsame : v.Same w) : v = w :=
  inj_on_of_nodup_map h.distinct hv hw (Version.same_iff.mp hsame)

theorem Siblings.frozen_nodup (h : Siblings ws) : (ws.map (Version.frozen floats)).Nodup := by
  refine Nodup.map_on (fun v hv w hw heq => ?_) (Nodup.of_map _ h.distinct)
  exact h.eq_of_same hv hw (Version.frozen_eq_iff.mp heq).1

/-- Equal up to order, the order of clock entries and spelling of timestamps. -/
def Like (floats : Floats) (vs ws : List Version) : Prop :=
  (vs.map (Version.frozen floats)).Perm (ws.map (Version.frozen floats))

theorem Like.symm {vs ws : List Version} (h : Like floats vs ws) : Like floats ws vs := Perm.symm h

theorem Like.trans {us vs ws : List Version} (h : Like floats us vs) (h' : Like floats vs ws) :
    Like floats us ws := List.Perm.trans h h'

theorem Like.exists_mem (h : Like floats vs ws) (hv : v ∈ vs) : ∃ w ∈ ws, v.frozen floats = w.frozen floats := by
  obtain ⟨w, hw, heq⟩ := mem_map.mp (h.mem_iff.mp (mem_map_of_mem hv))
  exact ⟨w, hw, heq.symm⟩

theorem Version.like_of_frozen (h : v.frozen floats = w.frozen floats) :
    v.Same w ∧ v.timestamp.value floats = w.timestamp.value floats := by
  refine ⟨(frozen_eq_iff.mp h).1, ?_⟩
  rw [← v.value_frozen, ← w.value_frozen, h]

theorem Like.covers (h : Like floats vs ws) (hv : Covers floats vs v) : Covers floats ws v := by
  obtain ⟨r, hr, hcov⟩ := hv
  obtain ⟨w, hw, heq⟩ := h.exists_mem hr
  obtain ⟨hsame, hts⟩ := Version.like_of_frozen heq
  rcases hcov with ⟨hvr, hle⟩ | hdom
  · exact ⟨w, hw, .inl ⟨hvr.trans hsame, hle.trans hts.le⟩⟩
  · exact ⟨w, hw, .inr (by rw [← hsame.dominates_left, hdom])⟩

theorem Like.siblings (h : Like floats vs ws) (hv : Siblings vs) : Siblings ws := by
  have hid : ∀ l : List Version, l.map Version.identity = (l.map (Version.frozen floats)).map Version.identity := by
    intro l
    rw [map_map]
    exact map_congr_left fun v _ => Version.same_iff.mp (v.same_frozen floats)
  refine ⟨?_, fun v hv' w hw => ?_⟩
  · rw [hid, ← (Perm.map _ h).nodup_iff, ← hid]
    exact hv.distinct
  · obtain ⟨v', hv', hveq⟩ := h.symm.exists_mem hv'
    obtain ⟨w', hw', hweq⟩ := h.symm.exists_mem hw
    rw [(Version.like_of_frozen hveq).1.dominates_eq, (Version.like_of_frozen hweq).1.dominates_left]
    exact hv.free v' hv' w' hw'

theorem like_of_map_frozen (h : vs.Perm ws) : Like floats (vs.map (Version.frozen floats)) ws := by
  have hfrozen : Version.frozen floats ∘ Version.frozen floats = Version.frozen floats :=
    funext fun v => v.frozen_frozen floats
  rw [Like, map_map, hfrozen]
  exact h.map _

theorem like_of_decode_encode (h : decode floats (encode floats vs) = .ok ws) : Like floats ws vs := by
  obtain ⟨-, rfl⟩ := decode_encode_iff.mp h
  exact like_of_map_frozen (sortVersions_perm floats vs)

theorem like_of_encode_eq {us : List Version} (h : decode floats (encode floats vs) = .ok us)
    (heq : encode floats vs = encode floats ws) : Like floats vs ws :=
  (like_of_decode_encode h).symm.trans (like_of_decode_encode (heq ▸ h))

/-! ### One merge -/

variable {versions : List Version} {stored stored' : Option String}

theorem merge_spec (h : merge floats stored versions = .ok stored') : ∃ frozen existing now,
      Like floats frozen versions ∧ readStored floats stored = .ok existing ∧
      readStored floats stored' = .ok now ∧
      Like floats now (reconcile floats (existing ++ frozen)) ∧
      (stored' = stored ∧ encode floats now = encode floats existing ∨
        stored' = some (encode floats now) ∧ encode floats now ≠ encode floats existing) := by
  obtain ⟨frozen, hfrozen, h⟩ := Py.bind_eq_ok.mp h
  obtain ⟨existing, hexisting, h⟩ := Py.bind_eq_ok.mp h
  obtain ⟨check, hcheck, h⟩ := Py.bind_eq_ok.mp h
  have hlike := like_of_decode_encode hfrozen
  split_ifs at h with heq
  · obtain rfl := Except.ok.inj h
    exact ⟨frozen, existing, existing, hlike, hexisting, hexisting,
      (like_of_encode_eq hcheck heq).symm, .inl ⟨rfl, rfl⟩⟩
  · obtain rfl := Except.ok.inj h
    have hencode := encode_decode_encode hcheck
    exact ⟨frozen, existing, check, hlike, hexisting, hcheck, like_of_decode_encode hcheck,
      .inr ⟨by rw [hencode], by rw [hencode]; exact heq⟩⟩

theorem merge_readable (h : merge floats stored versions = .ok stored') : Readable floats versions := by
  obtain ⟨frozen, hfrozen, -⟩ := Py.bind_eq_ok.mp h
  exact (decode_encode_iff.mp hfrozen).1

/-! ### What a record stands for -/

/-- The record holds versions that reached it, one for each value and clock, none dominated, and
stands for all that reached it. -/
structure Represents (floats : Floats) (reached ws : List Version) : Prop where
  known : ∀ w ∈ ws, ∃ v ∈ reached, w.frozen floats = v.frozen floats
  covered : ∀ v ∈ reached, Covers floats ws v
  siblings : Siblings ws

theorem Represents.positive {reached ws : List Version} (h : Represents floats reached ws)
    (hpos : AllPositive reached) : AllPositive ws := by
  intro w hw
  obtain ⟨v, hv, heq⟩ := h.known w hw
  exact (Version.like_of_frozen heq).1.symm.positive (hpos v hv)

theorem Represents.empty : Represents floats [] [] := ⟨by simp, by simp, ⟨by simp, by simp⟩⟩

variable {reached : List Version}

theorem Represents.like {us : List Version} (h : Represents floats reached ws) (hlike : Like floats ws us) :
    Represents floats reached us := by
  refine ⟨fun u hu => ?_, fun v hv => hlike.covers (h.covered v hv), hlike.siblings h.siblings⟩
  obtain ⟨w, hw, heq⟩ := hlike.symm.exists_mem hu
  obtain ⟨v, hv, heq'⟩ := h.known w hw
  exact ⟨v, hv, heq.trans heq'⟩

/-- Reconciling the record with what arrives. -/
theorem Represents.reconcile {arrived frozen : List Version} (h : Represents floats reached ws)
    (hlike : Like floats frozen arrived) (hpos : AllPositive (reached ++ arrived)) :
    Represents floats (reached ++ arrived) (reconcile floats (ws ++ frozen)) := by
  have hreached : AllPositive reached := fun v hv => hpos v (mem_append_left _ hv)
  have hfrozen : AllPositive frozen := fun v hv => by
    obtain ⟨w, hw, heq⟩ := hlike.exists_mem hv
    exact (Version.like_of_frozen heq).1.symm.positive (hpos w (mem_append_right _ hw))
  have hall : AllPositive (ws ++ frozen) := fun v hv => (mem_append.mp hv).elim (h.positive hreached v) (hfrozen v)
  refine ⟨fun w hw => ?_, fun v hv => ?_, siblings_reconcile _⟩
  · rcases mem_append.mp (mem_of_mem_reconcile hw) with hw | hw
    · obtain ⟨v, hv, heq⟩ := h.known w hw
      exact ⟨v, mem_append_left _ hv, heq⟩
    · obtain ⟨v, hv, heq⟩ := hlike.exists_mem hw
      exact ⟨v, mem_append_right _ hv, heq⟩
  · have hcov : Covers floats (ws ++ frozen) v := by
      rcases mem_append.mp hv with hv | hv
      · obtain ⟨r, hr, hcov⟩ := h.covered v hv
        exact ⟨r, mem_append_left _ hr, hcov⟩
      · obtain ⟨w, hw, heq⟩ := hlike.symm.exists_mem hv
        obtain ⟨hsame, hts⟩ := Version.like_of_frozen heq
        exact ⟨w, mem_append_right _ hw, .inl ⟨hsame, hts.le⟩⟩
    exact hcov.trans (fun w hw => covers_reconcile hall hw) hall

/-- Versions of one value, one clock and one time write the time alike. -/
def WrittenAlike (floats : Floats) (vs : List Version) : Prop :=
  ∀ v ∈ vs, ∀ w ∈ vs, v.Same w → v.timestamp.value floats = w.timestamp.value floats →
    v.timestamp.frozen floats = w.timestamp.frozen floats

variable {reached' : List Version}

/-- Half of `represents_unique`: what one record holds, the other holds. -/
theorem Represents.mem_other {ws' : List Version} (h : Represents floats reached ws)
    (h' : Represents floats reached' ws') (hsub : ∀ v ∈ reached, v ∈ reached') (hsub' : ∀ v ∈ reached', v ∈ reached)
    (hpos : AllPositive reached) (halike : WrittenAlike floats reached) (hw : w ∈ ws) :
    ∃ w' ∈ ws', w.frozen floats = w'.frozen floats := by
  obtain ⟨v, hv, hwv⟩ := h.known w hw
  obtain ⟨hsame, hts⟩ := Version.like_of_frozen hwv
  obtain ⟨w', hw', hcov⟩ := h'.covered v (hsub v hv)
  obtain ⟨v', hv', hwv'⟩ := h'.known w' hw'
  obtain ⟨hsame', hts'⟩ := Version.like_of_frozen hwv'
  -- the first record stands for `w'` too, and nothing in it dominates `w`
  obtain ⟨r, hr, hback⟩ := h.covered v' (hsub' v' hv')
  have hpos' : w'.clock.Positive := hsame'.symm.positive (hpos v' (hsub' v' hv'))
  have hfree := h.siblings.free w hw r hr
  rcases hcov with ⟨hvw, hle⟩ | hdom
  · rcases hback with ⟨hvr, hle'⟩ | hdom'
    · have hwr : w.Same r := hsame.trans (hvw.trans (hsame'.trans hvr))
      have heq := h.siblings.eq_of_same hw hr hwr
      subst heq
      have htime : w.timestamp.value floats = w'.timestamp.value floats :=
        le_antisymm (hts.le.trans hle) (hts'.le.trans hle')
      refine ⟨w', hw', Version.frozen_eq_iff.mpr ⟨hsame.trans hvw, ?_⟩⟩
      have hvv' : v.timestamp.frozen floats = v'.timestamp.frozen floats :=
        halike v hv v' (hsub' v' hv') (hvw.trans hsame') (by rw [← hts, ← hts', htime])
      have h1 := (Version.frozen_eq_iff.mp hwv).2
      have h2 := (Version.frozen_eq_iff.mp hwv').2
      rw [h1, h2, hvv']
    · have : r.clock.dominates w.clock = true := by
        rw [hsame.dominates_eq, hvw.dominates_eq, hsame'.dominates_eq, hdom']
      rw [this] at hfree
      cases hfree
  · have hdom' : w'.clock.dominates w.clock = true := by rw [hsame.dominates_eq, hdom]
    have : r.clock.dominates w.clock = true := by
      rcases hback with ⟨hvr, -⟩ | hback
      · rw [← hvr.dominates_left, ← hsame'.dominates_left, hdom']
      · exact VectorClock.dominates_trans hpos' (by rw [hsame'.dominates_eq, hback]) hdom'
    rw [this] at hfree
    cases hfree

/-- The versions that reached it determine the record. -/
theorem represents_unique {ws' : List Version} (h : Represents floats reached ws)
    (h' : Represents floats reached' ws') (hreached : ∀ v, v ∈ reached ↔ v ∈ reached') (hpos : AllPositive reached)
    (halike : WrittenAlike floats reached) : Like floats ws ws' := by
  have hpos' : AllPositive reached' := fun v hv => hpos v ((hreached v).mpr hv)
  have halike' : WrittenAlike floats reached' := fun v hv w hw => halike v ((hreached v).mpr hv) w ((hreached w).mpr hw)
  apply (perm_ext_iff_of_nodup h.siblings.frozen_nodup h'.siblings.frozen_nodup).mpr
  intro u
  constructor
  · intro hu
    obtain ⟨w, hw, rfl⟩ := mem_map.mp hu
    obtain ⟨w', hw', heq⟩ := h.mem_other h' (fun v => (hreached v).mp) (fun v => (hreached v).mpr) hpos halike hw
    exact mem_map.mpr ⟨w', hw', heq.symm⟩
  · intro hu
    obtain ⟨w, hw, rfl⟩ := mem_map.mp hu
    obtain ⟨w', hw', heq⟩ := h'.mem_other h (fun v => (hreached v).mpr) (fun v => (hreached v).mp) hpos' halike' hw
    exact mem_map.mpr ⟨w', hw', heq.symm⟩

/-! ### Deliveries -/

/-- Merge calls one after another; one that raises leaves the record as it was. -/
def deliver (floats : Floats) : Option String → List (List Version) → Option String
  | stored, [] => stored
  | stored, versions :: calls =>
      match merge floats stored versions with
      | .ok stored' => deliver floats stored' calls
      | .error _ => deliver floats stored calls

/-- Every call returns. -/
def AllReturn (floats : Floats) : Option String → List (List Version) → Prop
  | _, [] => True
  | stored, versions :: calls => ∃ stored', merge floats stored versions = .ok stored' ∧
      AllReturn floats stored' calls

theorem deliver_of_ok (h : merge floats stored versions = .ok stored') (calls : List (List Version)) :
    deliver floats stored (versions :: calls) = deliver floats stored' calls := by
  simp only [deliver, h]

/-- The record a replica holds once some versions reached it. -/
def StoredFor (floats : Floats) (reached : List Version) (stored : Option String) : Prop :=
  ∃ ws, readStored floats stored = .ok ws ∧ Represents floats reached ws ∧
    (stored = none ∧ reached = [] ∨ stored = some (encode floats ws) ∧ reached ≠ [])

theorem StoredFor.merge (h : StoredFor floats reached stored) (hpos : AllPositive (reached ++ versions))
    (hmerge : merge floats stored versions = .ok stored') : StoredFor floats (reached ++ versions) stored' := by
  obtain ⟨ws, hread, hrep, hstored⟩ := h
  obtain ⟨frozen, existing, now, hlike, hread', hnow, hlike', hcase⟩ := merge_spec hmerge
  obtain rfl : ws = existing := Except.ok.inj (hread.symm.trans hread')
  have hrep' := (hrep.reconcile hlike hpos).like hlike'.symm
  refine ⟨now, hnow, hrep', ?_⟩
  rcases hcase with ⟨rfl, heq⟩ | ⟨rfl, hne⟩
  · have hsame : ws = now := Except.ok.inj (hread.symm.trans hnow)
    subst hsame
    rcases hstored with ⟨rfl, rfl⟩ | ⟨hsome, hne⟩
    · -- nothing was stored, so nothing arrived
      obtain rfl : ws = [] := (Except.ok.inj hread).symm
      refine .inl ⟨rfl, ?_⟩
      by_contra hc
      obtain ⟨v, hv⟩ := exists_mem_of_ne_nil _ hc
      obtain ⟨r, hr, -⟩ := hrep'.covered v hv
      cases hr
    · exact .inr ⟨hsome, by simp [hne]⟩
  · refine .inr ⟨rfl, fun hnil => ?_⟩
    have hempty : ∀ us, Represents floats [] us → us = [] := by
      intro us hus
      refine eq_nil_iff_forall_not_mem.mpr fun u hu => ?_
      obtain ⟨v, hv, -⟩ := hus.known u hu
      cases hv
    rw [append_eq_nil_iff] at hnil
    have h1 := hempty now (by simpa [hnil] using hrep')
    have h2 := hempty ws (by simpa [hnil] using hrep)
    exact hne (by rw [h1, h2])

variable {calls : List (List Version)}

theorem deliver_storedFor : ∀ {reached : List Version}
    {stored : Option String}, StoredFor floats reached stored → AllReturn floats stored calls →
      AllPositive (reached ++ calls.flatten) →
      StoredFor floats (reached ++ calls.flatten) (deliver floats stored calls) := by
  induction calls with
  | nil =>
    intro reached stored h _ _
    simpa [deliver] using h
  | cons versions calls ih =>
    intro reached stored h hret hpos
    obtain ⟨stored', hmerge, hret⟩ := hret
    rw [flatten_cons, ← append_assoc] at hpos ⊢
    have hstep := h.merge (fun v hv => hpos v (mem_append_left _ hv)) hmerge
    have := ih hstep hret hpos
    simpa only [deliver, hmerge] using this

theorem storedFor_none : StoredFor floats [] none := ⟨[], rfl, .empty, .inl ⟨rfl, rfl⟩⟩

/-- The versions that reached a replica determine the bytes it stores. -/
theorem StoredFor.unique (h : StoredFor floats reached stored) (h' : StoredFor floats reached' stored')
    (hreached : ∀ v, v ∈ reached ↔ v ∈ reached') (hpos : AllPositive reached) (halike : WrittenAlike floats reached) :
    stored = stored' := by
  obtain ⟨ws, -, hrep, hcase⟩ := h
  obtain ⟨ws', -, hrep', hcase'⟩ := h'
  have hnil : reached = [] ↔ reached' = [] := by
    rw [eq_nil_iff_forall_not_mem, eq_nil_iff_forall_not_mem]
    simp only [hreached]
  rcases hcase with ⟨rfl, hempty⟩ | ⟨rfl, hne⟩
  · rcases hcase' with ⟨rfl, -⟩ | ⟨-, hne'⟩
    · rfl
    · exact absurd (hnil.mp hempty) hne'
  · rcases hcase' with ⟨-, hempty'⟩ | ⟨rfl, -⟩
    · exact absurd (hnil.mpr hempty') hne
    · rw [encode_eq_of_perm (represents_unique hrep hrep' hreached hpos halike)]

/-- Merging again what already reached the record returns and changes nothing. -/
theorem StoredFor.merge_again {frozen : List Version} (h : StoredFor floats reached stored)
    (hpos : AllPositive reached) (halike : WrittenAlike floats reached) (hsub : ∀ v ∈ versions, v ∈ reached)
    (hfrozen : decode floats (encode floats versions) = .ok frozen) :
    KvStore.merge floats stored versions = .ok stored := by
  obtain ⟨ws, hread, hrep, hcase⟩ := h
  have hlike := like_of_decode_encode hfrozen
  have hpos' : AllPositive (reached ++ versions) := fun v hv =>
    (mem_append.mp hv).elim (hpos v) fun hv => hpos v (hsub v hv)
  have hmerged := represents_unique hrep (hrep.reconcile hlike hpos')
    (fun v => ⟨mem_append_left _, fun hv => (mem_append.mp hv).elim id (hsub v)⟩) hpos halike
  have hencode := encode_eq_of_perm hmerged
  have hreadable : ∃ us, decode floats (encode floats ws) = .ok us := by
    rcases hcase with ⟨rfl, rfl⟩ | ⟨rfl, -⟩
    · obtain rfl : ws = [] := (Except.ok.inj hread).symm
      obtain rfl : versions = [] := eq_nil_iff_forall_not_mem.mpr fun v hv => by
        simpa using hsub v hv
      exact ⟨_, hfrozen⟩
    · exact ⟨_, hread⟩
  obtain ⟨us, hus⟩ := hreadable
  have hus' : decode floats (encode floats (reconcile floats (ws ++ frozen))) = .ok us := by
    rw [← hencode]
    exact hus
  simp only [KvStore.merge, hfrozen, hread, hus', Py.bind_ok, hencode, if_true, Py.pure_eq]

/-! ### Merging commutes and associates -/

theorem AllPositive.mono (h : AllPositive ws) (hsub : ∀ v ∈ vs, v ∈ ws) : AllPositive vs := fun v hv => h v (hsub v hv)

theorem StoredFor.merge_assoc {a b : List Version} {r ra rab rc : Option String} (h : StoredFor floats reached r)
    (hpos : AllPositive (reached ++ (a ++ b))) (halike : WrittenAlike floats (reached ++ (a ++ b)))
    (ha : KvStore.merge floats r a = .ok ra) (hab : KvStore.merge floats ra b = .ok rab)
    (hc : KvStore.merge floats r (a ++ b) = .ok rc) : rab = rc := by
  have hra := h.merge (hpos.mono fun v hv => by
    rw [← append_assoc]
    exact mem_append_left _ hv) ha
  have hrab := hra.merge (by rwa [append_assoc]) hab
  have hrc := h.merge hpos hc
  rw [append_assoc] at hrab
  exact hrab.unique hrc (fun v => Iff.rfl) hpos halike

theorem StoredFor.merge_comm {a b : List Version} {r ra rb rab rba : Option String} (h : StoredFor floats reached r)
    (hpos : AllPositive (reached ++ (a ++ b))) (halike : WrittenAlike floats (reached ++ (a ++ b)))
    (ha : KvStore.merge floats r a = .ok ra) (hab : KvStore.merge floats ra b = .ok rab)
    (hb : KvStore.merge floats r b = .ok rb) (hba : KvStore.merge floats rb a = .ok rba) : rab = rba := by
  have hmem : ∀ v, v ∈ reached ++ (b ++ a) ↔ v ∈ reached ++ (a ++ b) := fun v => by
    rw [mem_append, mem_append, mem_append, mem_append, or_comm (a := v ∈ b)]
  have hpos' := hpos.mono fun v => (hmem v).mp
  have hra := h.merge (hpos.mono fun v hv => by
    rw [← append_assoc]
    exact mem_append_left _ hv) ha
  have hrab := hra.merge (by rwa [append_assoc]) hab
  have hrb := h.merge (hpos'.mono fun v hv => by
    rw [← append_assoc]
    exact mem_append_left _ hv) hb
  have hrba := hrb.merge (by rwa [append_assoc]) hba
  rw [append_assoc] at hrab hrba
  exact hrab.unique hrba (fun v => (hmem v).symm) hpos halike

/-! ### Convergence -/

theorem allReturn_append {calls' : List (List Version)} (h : AllReturn floats stored (calls ++ calls')) :
    AllReturn floats stored calls ∧ AllReturn floats (deliver floats stored calls) calls' := by
  induction calls generalizing stored with
  | nil => exact ⟨trivial, h⟩
  | cons versions calls ih =>
    obtain ⟨stored', hmerge, hrest⟩ := h
    obtain ⟨h1, h2⟩ := ih hrest
    refine ⟨⟨stored', hmerge, h1⟩, ?_⟩
    simpa only [deliver, hmerge] using h2

/-- Two replicas that the same versions reached store the same bytes. -/
theorem deliver_eq_of_same_versions {calls' : List (List Version)} (hpos : AllPositive calls.flatten)
    (halike : WrittenAlike floats calls.flatten) (hsame : ∀ v, v ∈ calls.flatten ↔ v ∈ calls'.flatten)
    (hret : AllReturn floats none calls) (hret' : AllReturn floats none calls') :
    deliver floats none calls = deliver floats none calls' := by
  have hpos' : AllPositive calls'.flatten := fun v hv => hpos v ((hsame v).mpr hv)
  have h := deliver_storedFor storedFor_none hret (by simpa using hpos)
  have h' := deliver_storedFor storedFor_none hret' (by simpa using hpos')
  simp only [nil_append] at h h'
  exact h.unique h' hsame hpos halike

/-- Merging a delivered record again is the identity. -/
theorem merge_idempotent (hpos : AllPositive (calls ++ [versions]).flatten)
    (halike : WrittenAlike floats (calls ++ [versions]).flatten) (hret : AllReturn floats none (calls ++ [versions])) :
    merge floats (deliver floats none (calls ++ [versions])) versions =
      .ok (deliver floats none (calls ++ [versions])) := by
  have h := deliver_storedFor storedFor_none hret (by simpa using hpos)
  obtain ⟨-, stored', hmerge, -⟩ := allReturn_append hret
  obtain ⟨frozen, hfrozen, -⟩ := Py.bind_eq_ok.mp hmerge
  simp only [nil_append] at h
  refine h.merge_again hpos halike (fun v hv => ?_) hfrozen
  simp [hv]

end

/-- Replicas converge: the order of deliveries, how they are grouped into calls and how often a
version arrives do not show in the stored bytes; merging is idempotent, commutative and
associative; and writing what was read gives the bytes back. -/
theorem replicas_converge (floats : Floats) :
    (∀ calls calls' : List (List Version), AllPositive calls.flatten →
      WrittenAlike floats calls.flatten → (∀ v, v ∈ calls.flatten ↔ v ∈ calls'.flatten) →
      AllReturn floats none calls → AllReturn floats none calls' →
      deliver floats none calls = deliver floats none calls') ∧
    (∀ (calls : List (List Version)) (a : List Version), AllPositive (calls ++ [a]).flatten →
      WrittenAlike floats (calls ++ [a]).flatten → AllReturn floats none (calls ++ [a]) →
      merge floats (deliver floats none (calls ++ [a])) a = .ok (deliver floats none (calls ++ [a]))) ∧
    (∀ (calls : List (List Version)) (a b : List Version) (r ra rb rab rba rc : Option String),
      AllPositive (calls ++ [a, b]).flatten → WrittenAlike floats (calls ++ [a, b]).flatten →
      AllReturn floats none calls → deliver floats none calls = r →
      merge floats r a = .ok ra → merge floats ra b = .ok rab →
      merge floats r b = .ok rb → merge floats rb a = .ok rba →
      merge floats r (a ++ b) = .ok rc → rab = rba ∧ rab = rc) ∧
    (∀ vs ws : List Version, decode floats (encode floats vs) = .ok ws → encode floats ws = encode floats vs) := by
  refine ⟨fun calls calls' => deliver_eq_of_same_versions, fun calls a => merge_idempotent, ?_,
    fun vs ws => encode_decode_encode⟩
  intro calls a b r ra rb rab rba rc hpos halike hret hr ha hab hb hba hc
  have hflat : (calls ++ [a, b]).flatten = calls.flatten ++ (a ++ b) := by simp
  rw [hflat] at hpos halike
  have hbase := deliver_storedFor storedFor_none hret fun v hv => hpos v (mem_append_left _ hv)
  rw [nil_append, hr] at hbase
  exact ⟨hbase.merge_comm hpos halike ha hab hb hba, hbase.merge_assoc hpos halike ha hab hc⟩

/-- The float `1.0` and no other. -/
def oneFloat : Floats where
  value x := if x.text = ['1', '.', '0'] then some 1 else none
  repr x := x
  value_repr _ := rfl
  repr_repr _ := rfl
  repr_eq x y q _ hx hy := by
    obtain ⟨hx, -⟩ := Option.ite_none_right_eq_some.mp hx
    obtain ⟨hy, -⟩ := Option.ite_none_right_eq_some.mp hy
    obtain ⟨tx, _⟩ := x
    obtain ⟨ty, _⟩ := y
    simp only at hx hy
    subst hx hy
    rfl

/-- A tombstone of one node's first write. -/
def firstWrite (node : String) (timestamp : Number) : Version := ⟨none, ⟨⟨[(node, 1)], by simp⟩, 10⟩, timestamp⟩

theorem firstWrite_positive (node : String) (timestamp : Number) : (firstWrite node timestamp).clock.Positive := by
  intro k n hn
  simp only [firstWrite, Dict.get?, Assoc.lookup_cons] at hn
  split_ifs at hn
  · obtain rfl := Option.some.inj hn
    decide
  · cases hn

theorem firstWrite_valid {node : String} {timestamp : Number} (hnode : node ≠ "" ∧ node.utf8ByteSize ≤ 256)
    (ht : timestamp.Valid floats) : (firstWrite node timestamp).Valid floats := by
  have hone : (1 : ℤ) ≤ maxCounter := by decide
  refine ⟨⟨by simp [firstWrite], fun e he => ?_⟩, ht, fun bytes h => nomatch h⟩
  obtain rfl := mem_singleton.mp he
  exact ⟨hnode.1, hnode.2, hone⟩

def oneLiteral : FloatLit := ⟨['1', '.', '0'], by decide⟩

def firstRecordHead : String := "\x7b\"format\":1,\"versions\":[\x7b\"clock\":\x7b\"a\":1\x7d,\"timestamp\":"

def firstRecordTail : String := ",\"value\":null\x7d]\x7d"

/-- The record of a first write of node `a`, its time in the middle. -/
def firstRecord (time : String) : String := firstRecordHead ++ time ++ firstRecordTail

theorem firstRecord_injective {a b : String} (h : firstRecord a = firstRecord b) : a = b := by
  have hcancel : ∀ p q : String, p ++ a ++ q = p ++ b ++ q → a = b := by
    intro p q htext
    have htext := congrArg String.toList htext
    simp only [String.toList_append] at htext
    exact String.toList_injective (append_cancel_left (append_cancel_right htext))
  exact hcancel firstRecordHead firstRecordTail h

/-- The first writes of 257 nodes. -/
def manyWrites : List Version :=
  (List.range 257).map fun i : ℕ => firstWrite (String.singleton (Char.ofNat (97 + i))) (.int 1)

theorem manyWrites_eq : ∃ rest, manyWrites = firstWrite "a" (.int 1) :: rest := by
  rw [manyWrites, range_eq_range', range'_eq_cons_iff.mpr ⟨rfl, by norm_num, rfl⟩]
  exact ⟨_, rfl⟩

theorem deliver_ne_none (calls : List (List Version)) {stored : Option String} (h : stored ≠ none) :
    deliver floats stored calls ≠ none := by
  induction calls generalizing stored with
  | nil => exact h
  | cons versions calls ih =>
    simp only [deliver]
    cases hmerge : merge floats stored versions with
    | error e => exact ih h
    | ok stored' =>
      obtain ⟨-, -, now, -, -, -, -, ⟨rfl, -⟩ | ⟨rfl, -⟩⟩ := merge_spec hmerge
      · exact ih h
      · exact ih (by simp)

theorem merge_firstWrite : merge noFloats none [firstWrite "a" (.int 1)] = .ok (some (firstRecord "1")) ∧
      merge noFloats (some (firstRecord "1")) [firstWrite "a" (.int 1)] = .ok (some (firstRecord "1")) := by
  exact ⟨by decide +kernel, by decide +kernel⟩

/-- Of two spellings of one time the first to arrive stays. -/
theorem merge_spellings : merge oneFloat none [firstWrite "a" (.int 1)] = .ok (some (firstRecord "1")) ∧
      merge oneFloat none [firstWrite "a" (.float oneLiteral)] = .ok (some (firstRecord "1.0")) ∧
      merge oneFloat (some (firstRecord "1.0")) [firstWrite "a" (.int 1)] = .ok (some (firstRecord "1.0")) ∧
      merge oneFloat (some (firstRecord "1")) [firstWrite "a" (.float oneLiteral)] = .ok (some (firstRecord "1")) := by
  exact ⟨by decide +kernel, by decide +kernel, by decide +kernel, by decide +kernel⟩

theorem replicas_converge_firstWrite :
    deliver noFloats none [[firstWrite "a" (.int 1)], [firstWrite "a" (.int 1)]] =
      deliver noFloats none [[firstWrite "a" (.int 1)]] := by
  obtain ⟨hfirst, hagain⟩ := merge_firstWrite
  generalize hv : firstWrite "a" (.int 1) = v at hfirst hagain ⊢
  have hmem : ∀ w ∈ [[v], [v]].flatten, w = v := fun w hw => by
    simp only [flatten_cons, flatten_nil, append_nil, mem_append, or_self, mem_singleton] at hw
    exact hw
  refine (replicas_converge noFloats).1 _ _ (fun w hw => ?_) (fun w hw u hu _ _ => ?_)
    (fun w => by simp only [flatten_cons, flatten_nil, append_nil, mem_append,
      or_self]) ⟨_, hfirst, _, hagain, trivial⟩ ⟨_, hfirst, trivial⟩
  · rw [hmem w hw, ← hv]
    exact firstWrite_positive _ _
  · rw [hmem w hw, hmem u hu]

theorem deliver_refused {versions : List Version} (h : ¬ Readable floats versions) (stored : Option String) :
    deliver floats stored [versions] = stored := by
  simp only [deliver]
  cases hmerge : merge floats stored versions with
  | error e => rfl
  | ok stored' => exact absurd (merge_readable hmerge) h

theorem manyWrites_length : manyWrites.length = 257 := by
  rw [manyWrites, length_map, length_range]

theorem manyWrites_refused : deliver noFloats none [manyWrites] = none := by
  apply deliver_refused
  intro h
  have hlen := h.siblings
  rw [manyWrites_length] at hlen
  omega

theorem manyWrites_stored : deliver noFloats none (manyWrites.map fun v => [v]) ≠ none := by
  obtain ⟨hfirst, -⟩ := merge_firstWrite
  obtain ⟨rest, hrest⟩ := manyWrites_eq
  rw [hrest, map_cons, deliver_of_ok hfirst]
  exact deliver_ne_none _ (Option.some_ne_none _)

/-- `1` and `1.0` are one time in two spellings, and the first to arrive stays; and 257 siblings
that each would be accepted alone are refused as one call. -/
theorem replicas_diverge :
    (∃ v w : Version, v.clock.Positive ∧ w.clock.Positive ∧ v.Valid oneFloat ∧ w.Valid oneFloat ∧
      AllReturn oneFloat none [[v], [w]] ∧ AllReturn oneFloat none [[w], [v]] ∧
      deliver oneFloat none [[v], [w]] ≠ deliver oneFloat none [[w], [v]]) ∧
    ∃ vs : List Version, AllPositive vs ∧ (∀ v ∈ vs, v.Valid noFloats) ∧
      deliver noFloats none [vs] ≠ deliver noFloats none (vs.map fun v => [v]) := by
  obtain ⟨hint, hfloat, hint', hfloat'⟩ := merge_spellings
  constructor
  · refine ⟨firstWrite "a" (.int 1), firstWrite "a" (.float oneLiteral), firstWrite_positive _ _,
      firstWrite_positive _ _, firstWrite_valid (by decide) ⟨by norm_num, by norm_num⟩,
      firstWrite_valid (by decide) ⟨1, rfl, by norm_num, by norm_num⟩,
      ⟨_, hint, _, hfloat', trivial⟩, ⟨_, hfloat, _, hint', trivial⟩, ?_⟩
    rw [deliver_of_ok hint, deliver_of_ok hfloat', deliver_of_ok hfloat, deliver_of_ok hint']
    intro h
    have htime : "1" = "1.0" := firstRecord_injective (Option.some.inj h)
    revert htime
    decide
  · refine ⟨manyWrites, fun v hv => ?_, fun v hv => ?_, ?_⟩
    · obtain ⟨i, -, rfl⟩ := mem_map.mp hv
      exact firstWrite_positive _ _
    · obtain ⟨i, hi, rfl⟩ := mem_map.mp hv
      refine firstWrite_valid ⟨by simp, ?_⟩ ⟨by norm_num, by norm_num⟩
      rw [String.utf8ByteSize_singleton]
      exact (Char.utf8Size_le_four _).trans (by norm_num)
    · exact fun h => manyWrites_stored (h.symm.trans manyWrites_refused)

end SystemDesign.KvStore
