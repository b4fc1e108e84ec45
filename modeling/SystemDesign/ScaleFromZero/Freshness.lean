import SystemDesign.Lib.DictEntries
import SystemDesign.Lib.Histories
import SystemDesign.ScaleFromZero.Cache

/-!
What the cache bounds, and which reads are fresh.

The floors are the last thousand keys that were deleted, in the order of their last delete. A floor that is gone
has a thousand others behind it.
-/

namespace SystemDesign.ScaleFromZero

open List hiding le_trans not_lt
open Dict hiding keys set

variable {c : CacheConfig} {s : Cache} {key : String} {now : ℚ}

/-! ### What is stored -/

theorem moveToEnd_get? {ν : Type} (d : Dict String ν) (k : String) : (moveToEnd key d).get? k = d.get? k := by
  unfold moveToEnd
  cases hv : d.get? key with
  | none => rfl
  | some v =>
    rw [Option.elim_some, get?_set, get?_erase]
    split
    · rename_i hsame
      rw [hsame, hv]
    · rfl

theorem moveToEnd_perm {ν : Type} (d : Dict String ν) : (moveToEnd key d).entries.Perm d.entries :=
  Dict.Equiv.entries_perm fun k => moveToEnd_get? d k

/-- The bytes are those of the entries, and exactly the stored keys are counted where keys are counted. -/
structure Cache.Accounted (c : CacheConfig) (s : Cache) : Prop where
  bytes : s.bytes = s.values.sum fun entry => entry.size
  freq : c.policy = .lfu → ∀ key, (s.freq.get? key).isSome = (s.values.get? key).isSome

theorem Cache.Accounted.remove (h : s.Accounted c) (key : String) : (s.remove key).Accounted c where
  bytes := by
    simp only [Cache.remove, h.bytes]
    cases hentry : s.values.get? key with
    | none =>
      simp only [Option.elim_none, sub_zero, Dict.sum, Dict.values, erase_entries_of_none hentry]
    | some entry =>
      rw [sum_eq_of_get? hentry, Option.elim_some]
      ring
  freq hpolicy k := by
    simp only [Cache.remove, get?_erase]
    split
    · rfl
    · exact h.freq hpolicy k

theorem Cache.Accounted.touch (h : s.Accounted c) {entry : CacheEntry} (hentry : s.values.get? key = some entry) :
    (s.touch c key).Accounted c ∧ (s.touch c key).values.entries.Perm s.values.entries := by
  unfold Cache.touch
  split
  · rename_i hpolicy
    have hperm : (moveToEnd key s.values).entries.Perm s.values.entries := moveToEnd_perm s.values
    refine ⟨⟨?_, fun hlfu => ?_⟩, hperm⟩
    · simp only [Dict.sum, Dict.values, h.bytes, ((hperm.map Prod.snd).map _).sum_eq]
    · rw [hpolicy] at hlfu
      cases hlfu
  · refine ⟨⟨h.bytes, fun hlfu k => ?_⟩, .refl _⟩
    rw [get?_set]
    split
    · rename_i hsame
      rw [hsame, hentry]
      rfl
    · exact h.freq hlfu k
  · exact ⟨h, .refl _⟩

/-- Something is stored in a cache that is too full, and the victim is one of its keys. -/
theorem Cache.Accounted.victim (h : s.Accounted c) (hfull : s.full c = true) :
    ∃ key entry, s.victim c = some key ∧ s.values.get? key = some entry := by
  have hne : s.values.keys ≠ [] := by
    intro hempty
    have hentries : s.values.entries = [] := map_eq_nil_iff.mp hempty
    have hbytes : s.bytes = 0 := by rw [h.bytes, Dict.sum, Dict.values, hentries]; rfl
    simp only [Cache.full, hentries, hbytes, length_nil, decide_eq_true_eq] at hfull
    omega
  have hmem : ∃ key ∈ s.values.keys, s.victim c = some key := by
    unfold Cache.victim
    split
    · obtain ⟨key, hkey, hleast⟩ := s.values.keys.toFinset.exists_min_image (fun key => s.frequency key)
        ((toFinset_nonempty_iff _).mpr hne)
      have hsome : (s.values.keys.find? fun key => s.values.keys.all fun other => s.frequency key ≤ s.frequency other).isSome = true := by
        rw [find?_isSome]
        refine ⟨key, mem_toFinset.mp hkey, all_eq_true.mpr fun other hother => ?_⟩
        exact decide_eq_true (hleast other (mem_toFinset.mpr hother))
      obtain ⟨victim, hvictim⟩ := Option.isSome_iff_exists.mp hsome
      exact ⟨victim, mem_of_find?_eq_some hvictim, hvictim⟩
    · obtain ⟨first, rest, hkeys⟩ := exists_cons_of_ne_nil hne
      exact ⟨first, by rw [hkeys]; exact mem_cons_self, by rw [hkeys]; rfl⟩
  obtain ⟨key, hkey, hvictim⟩ := hmem
  obtain ⟨entry, hentry⟩ := Dict.mem_keys.mp hkey
  exact ⟨key, entry, hvictim, hentry⟩

variable {n : ℕ}

theorem Cache.Accounted.evict (h : s.Accounted c) (hn : s.values.entries.length ≤ n) :
    (s.evict c n).Accounted c ∧ (s.evict c n).full c = false := by
  induction n generalizing s with
  | zero =>
    refine ⟨h, ?_⟩
    by_contra hfull
    obtain ⟨key, entry, -, hentry⟩ := h.victim (Bool.eq_true_of_not_eq_false hfull)
    have := length_erase_of_some hentry
    omega
  | succ n ih =>
    unfold Cache.evict
    split
    · rename_i hfull
      obtain ⟨key, entry, hvictim, hentry⟩ := h.victim hfull
      rw [hvictim, Option.elim_some]
      refine ih (h.remove key) ?_
      have hlength := length_erase_of_some hentry
      simp only [Cache.remove]
      omega
    · rename_i hfull
      exact ⟨h, Bool.eq_false_of_not_eq_true hfull⟩

/-- What the cache always satisfies. -/
structure Cache.Bounded (c : CacheConfig) (s : Cache) : Prop where
  accounted : s.Accounted c
  bytes : s.bytes ≤ c.maxBytes
  entries : s.values.entries.length ≤ c.capacity

theorem Cache.Accounted.bounded (h : s.Accounted c) (hroom : s.full c = false) : s.Bounded c := by
  simp only [Cache.full, decide_eq_false_iff_not, not_or, not_lt] at hroom
  exact ⟨h, hroom.2, hroom.1⟩

theorem Cache.Bounded.remove (h : s.Bounded c) (key : String) : (s.remove key).Bounded c where
  accounted := h.accounted.remove key
  bytes := by
    refine le_trans ?_ h.bytes
    simp only [Cache.remove]
    cases s.values.get? key with
    | none => simp
    | some entry => simp
  entries := (length_filter_le _ _).trans h.entries

theorem removeAll_accounted (keys : List String) (h : s.Accounted c) :
    (keys.foldl (fun s key => s.remove key) s).Accounted c := by
  induction keys generalizing s with
  | nil => exact h
  | cons key keys ih => exact ih (h.remove key)

theorem removeAll_none (keys : List String) (h : s.values.get? key = none) :
    (keys.foldl (fun s key => s.remove key) s).values.get? key = none := by
  induction keys generalizing s with
  | nil => exact h
  | cons other keys ih =>
    refine ih ?_
    simp only [Cache.remove, get?_erase, h, ite_self]

theorem Cache.Accounted.store (h : s.Accounted c) (value : Record) : (s.store c key value now).Bounded c := by
  unfold Cache.store
  dsimp only
  set cleared := (((s.remove key).values.entries.filter fun e => e.2.expires ≤ now).map Prod.fst).foldl
    (fun s key => s.remove key) (s.remove key) with hcleared
  have haccounted : cleared.Accounted c := removeAll_accounted _ (h.remove key)
  have hnone : cleared.values.get? key = none := removeAll_none _ (by simp [Cache.remove, get?_erase])
  refine (Cache.Accounted.evict (s := { cleared with
    values := cleared.values.set key ⟨c.later now c.ttl, value, value.size⟩
    bytes := cleared.bytes + value.size
    freq := if c.policy = Policy.lfu then cleared.freq.set key (s.frequency key + 1) else cleared.freq }) ?_ le_rfl).elim
    fun haccounted hroom => haccounted.bounded hroom
  refine ⟨?_, fun hlfu k => ?_⟩
  · rw [sum_set_of_none hnone, haccounted.bytes]
  · rw [if_pos hlfu, get?_set, get?_set]
    split
    · rfl
    · exact haccounted.freq hlfu k

theorem Cache.Bounded.touch (h : s.Bounded c) {entry : CacheEntry} (hentry : s.values.get? key = some entry) :
    (s.touch c key).Bounded c := by
  obtain ⟨haccounted, hperm⟩ := h.accounted.touch hentry
  refine ⟨haccounted, ?_, hperm.length_eq ▸ h.entries⟩
  rw [haccounted.bytes, Dict.sum, Dict.values, ((hperm.map Prod.snd).map _).sum_eq]
  have hbytes := h.bytes
  rw [h.accounted.bytes] at hbytes
  exact hbytes

/-! ### Floors -/

/-- How many other keys a list of deletes has. -/
def others (key : String) (deletes : List (String × ℕ)) : ℕ := ((deletes.map Prod.fst).toFinset.erase key).card

theorem others_append (key : String) (deletes later : List (String × ℕ)) : others key deletes ≤ others key (deletes ++ later) := by
  refine Finset.card_le_card (Finset.erase_subset_erase _ fun k hk => ?_)
  rw [mem_toFinset] at hk ⊢
  rw [map_append]
  exact mem_append_left _ hk

/-- The floor of every delete is held, or a thousand other keys were deleted after it. -/
structure FloorsKept (log : List (String × ℕ)) (floors : Dict String ℕ) : Prop where
  order : floors.keys.Pairwise fun key key' => ∀ before v after, log = before ++ (key, v) :: after → key' ∈ after.map Prod.fst
  kept : ∀ before key v after, log = before ++ (key, v) :: after →
    (∃ floor, floors.get? key = some floor ∧ v ≤ floor) ∨ 1000 ≤ others key after

variable {floors : Dict String ℕ}

variable {log : List (String × ℕ)}

/-- The same without the bound on the number of floors. -/
theorem FloorsKept.raise (h : FloorsKept log floors) (key : String) (v : ℕ) :
    FloorsKept (log ++ [(key, v)]) ((floors.erase key).set key (max v ((floors.get? key).getD 0))) where
  order := by
    have hnone : (floors.erase key).get? key = none := by simp [get?_erase]
    rw [Dict.keys, set_entries_of_none hnone, map_append, pairwise_append]
    refine ⟨?_, pairwise_singleton _ _, fun other hother last hlast before w after hsplit => ?_⟩
    · have hsub : ((floors.erase key).entries.map Prod.fst).Sublist floors.keys := filter_sublist.map _
      refine (h.order.sublist hsub).imp_of_mem fun {a b} ha hb hab before w after hsplit => ?_
      obtain ⟨rfl, hlast, -⟩ | ⟨rest, rfl, hlog⟩ := split_snoc hsplit
      · obtain ⟨e, he, rfl⟩ := mem_map.mp ha
        have hkey : e.1 = key := congrArg Prod.fst hlast
        exact absurd hkey (by simpa using (mem_filter.mp he).2)
      · rw [map_append]
        exact mem_append_left _ (hab before w rest hlog)
    · rw [map_singleton, mem_singleton] at hlast
      subst hlast
      obtain ⟨rfl, hsame, -⟩ | ⟨rest, rfl, -⟩ := split_snoc hsplit
      · obtain ⟨e, he, rfl⟩ := mem_map.mp hother
        have hkey : e.1 = last := congrArg Prod.fst hsame
        exact absurd hkey (by simpa using (mem_filter.mp he).2)
      · simp
  kept before k w after hsplit := by
    obtain ⟨rfl, hsame, -⟩ | ⟨rest, rfl, hlog⟩ := split_snoc hsplit
    · cases hsame
      exact .inl ⟨_, get?_set_self _ _ _, le_max_left _ _⟩
    · obtain ⟨floor, hfloor, hle⟩ | hmany := h.kept before k w rest hlog
      · refine .inl ?_
        rw [get?_set]
        split
        · rename_i hsame
          rw [← hsame, hfloor]
          exact ⟨_, rfl, hle.trans (le_max_right _ _)⟩
        · rename_i hne
          rw [get?_erase, if_neg hne]
          exact ⟨floor, hfloor, hle⟩
      · exact .inr (hmany.trans (others_append k rest _))

/-- Floors that are too many lose the oldest. -/
theorem FloorsKept.tail (h : FloorsKept log floors) (hlong : 1000 < floors.entries.length)
    (hrest : (floors.entries.tail.map Prod.fst).Nodup) : FloorsKept log ⟨floors.entries.tail, hrest⟩ := by
  obtain ⟨entries, hnodup⟩ := floors
  obtain ⟨first, rest, rfl⟩ := exists_cons_of_ne_nil (ne_nil_of_length_pos (Nat.zero_lt_of_lt hlong))
  have horder := h.order
  simp only [Dict.keys, map_cons, pairwise_cons] at horder
  refine ⟨horder.2, fun before k w after hsplit => ?_⟩
  obtain ⟨floor, hfloor, hle⟩ | hmany := h.kept before k w after hsplit
  · by_cases hfirst : k = first.1
    · -- the floors behind the one that goes were all deleted after it
      right
      have hafter : ∀ key ∈ rest.map Prod.fst, key ∈ after.map Prod.fst := fun key hkey =>
        horder.1 key hkey before w after (hfirst ▸ hsplit)
      have hcard : (rest.map Prod.fst).toFinset.card = rest.length := by
        rw [toFinset_card_of_nodup (nodup_cons.mp hnodup).2, length_map]
      refine (Nat.le_of_lt_succ hlong).trans (hcard ▸ Finset.card_le_card fun key hkey => ?_)
      rw [mem_toFinset] at hkey
      refine Finset.mem_erase.mpr ⟨?_, mem_toFinset.mpr (hafter key hkey)⟩
      rintro rfl
      exact (nodup_cons.mp hnodup).1 (hfirst ▸ hkey)
    · refine .inl ⟨floor, ?_, hle⟩
      rw [Dict.get?, Assoc.lookup_cons, if_neg hfirst] at hfloor
      exact hfloor
  · exact .inr hmany

theorem FloorsKept.raiseFloor {floors : Dict String ℕ} (h : FloorsKept log floors) (key : String) (v : ℕ) :
    FloorsKept (log ++ [(key, v)]) (raiseFloor key v floors) := by
  have hraised := h.raise key v
  unfold ScaleFromZero.raiseFloor
  dsimp only
  split
  · exact hraised.tail ‹_› _
  · exact hraised

/-! ### Reads -/

/-- A read knows the floors of its user that were held at its probe, and what it answers is not below. -/
structure Read.Fresh (read : Read) : Prop where
  floor : ∀ before v after, read.before = before ++ (read.user, v) :: after → others read.user after < 1000 → v ≤ read.floor
  answer : ∀ value, read.phase = .answered value → read.floor ≤ value.version

structure Web.Sound (c : CacheConfig) (s : Web) : Prop where
  cache : s.cache.Bounded c
  floors : FloorsKept s.deletes s.cache.floors
  reads : ∀ i read, s.reads i = some read → read.Fresh

theorem removeAll_floors (keys : List String) (s : Cache) : (keys.foldl (fun s key => s.remove key) s).floors = s.floors := by
  induction keys generalizing s with
  | nil => rfl
  | cons key keys ih => exact ih _

theorem evict_floors (n : ℕ) (s : Cache) : (s.evict c n).floors = s.floors := by
  induction n generalizing s with
  | zero => rfl
  | succ n ih =>
    unfold Cache.evict
    split
    · cases s.victim c with
      | none => rfl
      | some key => exact ih _
    · rfl

theorem store_floors (value : Record) (s : Cache) : (s.store c key value now).floors = s.floors := by
  unfold Cache.store
  dsimp only
  rw [evict_floors, removeAll_floors]
  rfl

theorem touch_floors (s : Cache) : (s.touch c key).floors = s.floors := by
  unfold Cache.touch
  split <;> rfl

theorem probe_spec {minVersion : ℕ} {probe : Probe} {s' : Cache} (hs : s.Bounded c) (h : s.probe c key minVersion now = (probe, s')) :
    s'.Bounded c ∧ s'.floors = s.floors ∧ probe.minVersion = s.floor key minVersion ∧
      ∀ value, probe.value = some value → probe.minVersion ≤ value.version := by
  unfold Cache.probe at h
  dsimp only at h
  split at h
  · cases h
    exact ⟨hs, rfl, rfl, nofun⟩
  · rename_i entry hentry
    split at h
    · rename_i hhit
      cases h
      refine ⟨hs.touch hentry, touch_floors s, rfl, fun value hvalue => ?_⟩
      cases hvalue
      simp only [CacheEntry.hit, decide_eq_true_eq] at hhit
      exact hhit.2
    · cases h
      refine ⟨?_, ?_, rfl, nofun⟩
      · split
        · exact hs.remove key
        · exact hs
      · split <;> rfl

variable {value : Record}

theorem put_spec {generation : ℕ} {stored : Bool} {s' : Cache} (hs : s.Bounded c)
    (h : s.put c key value generation now = .ok (stored, s')) : s'.Bounded c ∧ s'.floors = s.floors := by
  unfold Cache.put at h
  split at h
  · cases h
    exact ⟨hs, rfl⟩
  · obtain ⟨fits, -, h⟩ := of_bind h
    split at h
    · cases h
      exact ⟨hs.accounted.store value, store_floors value s⟩
    · cases h
      exact ⟨hs, rfl⟩

theorem Web.Sound.goOn {s : Web} (h : s.Sound c) {i : ℕ} {read : Read} (hread : s.reads i = some read) {phase : ReadPhase}
    (hphase : ∀ value, phase = .answered value → read.floor ≤ value.version) : (s.goOn i read phase).Sound c where
  cache := h.cache
  floors := h.floors
  reads j read' hread' := by
    simp only [Web.goOn, Function.update_apply] at hread'
    split at hread'
    · cases hread'
      exact ⟨(h.reads i read hread).floor, hphase⟩
    · exact h.reads j read' hread'

theorem Read.finish_answered {read : Read} {value' : Record} (h : read.finish value = .answered value') :
    read.floor ≤ value'.version := by
  unfold Read.finish at h
  split at h
  · cases h
  · rename_i hle
    cases h
    exact not_lt.mp hle

theorem Serves.sound {s s' : Web} (hstep : Serves c s s') (h : s.Sound c) : s'.Sound c := by
  cases hstep with
  | tick now hnow => exact ⟨h.cache, h.floors, h.reads⟩
  | update user profile => exact ⟨h.cache, h.floors, h.reads⟩
  | delete user version hversion =>
    have hremoved := h.cache.remove user
    refine ⟨⟨⟨hremoved.accounted.bytes, hremoved.accounted.freq⟩, hremoved.bytes, hremoved.entries⟩, ?_, h.reads⟩
    simp only [Cache.delete, if_neg (Nat.ne_of_gt hversion.1)]
    exact h.floors.raiseFloor user version
  | probe i hnew user minVersion hprobe =>
    obtain ⟨hcache, hfloors, hfloor, hvalue⟩ := probe_spec h.cache hprobe
    refine ⟨hcache, by rw [hfloors]; exact h.floors, fun j read hread => ?_⟩
    simp only [Function.update_apply] at hread
    split at hread
    · cases hread
      refine ⟨fun before v after hsplit hfew => ?_, fun value hanswer => ?_⟩
      · obtain ⟨floor, hheld, hle⟩ | hmany := h.floors.kept before user v after hsplit
        · refine hle.trans ?_
          change floor ≤ Probe.minVersion _
          rw [hfloor, Cache.floor, hheld]
          exact le_max_right _ _
        · exact absurd hfew (not_lt.mpr hmany)
      · cases hfound : Probe.value _ with
        | none =>
          rw [hfound] at hanswer
          cases hanswer
        | some value' =>
          rw [hfound] at hanswer
          cases hanswer
          exact hvalue value hfound
    · exact h.reads j read hread
  | replica i read hread hphase version value hvalue =>
    refine h.goOn hread fun value' hanswer => ?_
    split at hanswer <;> cases hanswer
  | replicaFails i read hread hphase => exact h.goOn hread nofun
  | primary i read hread hphase =>
    refine h.goOn hread fun value' hanswer => ?_
    cases hrecord : s.record read.user (s.primary read.user).length with
    | none =>
      rw [hrecord] at hanswer
      cases hanswer
    | some value =>
      rw [hrecord] at hanswer
      cases hanswer
  | fill i read hread value hphase hput =>
    obtain ⟨hcache, hfloors⟩ := put_spec h.cache hput
    refine ⟨hcache, by rw [hfloors]; exact h.floors, ?_⟩
    exact (h.goOn hread fun value' (hfinish : read.finish value = _) => Read.finish_answered hfinish).reads
  | fillFails i read hread value hphase => exact h.goOn hread fun value' => Read.finish_answered

theorem web_sound {s : Web} (h : (web c).Reachable s) : s.Sound c := by
  refine h.invariant (P := Web.Sound c) ?_ fun _ _ _ hs hstep => Serves.sound hstep hs
  rintro s rfl
  refine ⟨⟨⟨rfl, fun _ _ => rfl⟩, ?_, Nat.zero_le _⟩, ⟨List.Pairwise.nil, fun before key v after hsplit => ?_⟩, nofun⟩
  · exact Int.natCast_nonneg _
  · cases before <;> cases hsplit

/-- The cache keeps its accounts and its bounds. A read that its probe began answers with at least the version of
every delete of its user that fewer than a thousand other users' deletes lie behind. -/
theorem reads_fresh {s : Web} (h : (web c).Reachable s) : s.cache.Bounded c ∧
    ∀ i read value, s.reads i = some read → read.phase = .answered value → ∀ before v after,
      read.before = before ++ (read.user, v) :: after → others read.user after < 1000 → v ≤ value.version := by
  have hs := web_sound h
  refine ⟨hs.cache, fun i read value hread hanswer before v after hsplit hfew => ?_⟩
  have hfresh := hs.reads i read hread
  exact (hfresh.floor before v after hsplit hfew).trans (hfresh.answer value hanswer)

/-! ### A thousand others -/

theorem raiseFloor_of_none (h : floors.get? key = none) (v : ℕ) : (raiseFloor key v floors).entries =
      if 1000 < floors.entries.length + 1 then (floors.entries ++ [(key, v)]).tail else floors.entries ++ [(key, v)] := by
  have hraised : ((floors.erase key).set key (max v ((floors.get? key).getD 0))).entries = floors.entries ++ [(key, v)] := by
    rw [set_entries_of_none (by rw [get?_erase, if_pos rfl]), erase_entries_of_none h, h]
    simp
  unfold raiseFloor
  simp only [hraised, length_append, length_singleton, apply_ite Dict.entries]

/-- A cache for a thousand profiles, with exact clocks. -/
def roomy : CacheConfig := ⟨1000, 60, 1048576, .lru, (· + ·)⟩

def early : Profile := ⟨"Ann", "Oslo"⟩
def late : Profile := ⟨"Ann", "Rome"⟩

/-- A user is updated, and the version deleted in the cache. -/
def Web.updated (s : Web) (user : String) (profile : Profile) (version : ℕ) : Web :=
  { s with
    primary := Function.update s.primary user (s.primary user ++ [profile])
    cache := s.cache.delete user version
    deletes := s.deletes ++ [(user, version)] }

theorem Web.updated_reachable {s : Web} (h : (web c).Reachable s) (user : String) (profile : Profile) {version : ℕ}
    (hversion : 1 ≤ version ∧ version ≤ (s.primary user).length + 1) : (web c).Reachable (s.updated user profile version) := by
  have hupdated := h.step (.update user profile)
  refine hupdated.step (.delete user version ⟨hversion.1, ?_⟩)
  simpa using hversion.2

/-- The names of the others. -/
def other (n : ℕ) : String := String.ofList (List.replicate (n + 2) 'a')

theorem other_injective : Function.Injective other := by
  intro n n' h
  have hlength := congrArg String.length h
  simpa [other] using hlength

theorem other_ne (n : ℕ) : other n ≠ "u" := by
  intro h
  have hlength := congrArg String.length h
  rw [other, String.length_ofList, length_replicate] at hlength
  exact absurd hlength (by rw [show "u".length = 1 from rfl]; omega)

/-- A user is updated twice, then others once each. -/
def crowd : ℕ → Web
  | 0 => (Web.start.updated "u" early 1).updated "u" late 2
  | n + 1 => (crowd n).updated (other n) early 1

theorem crowd_reachable (n : ℕ) : (web c).Reachable (crowd n) := by
  induction n with
  | zero =>
    have hfirst := Web.updated_reachable (c := c) (.start rfl) "u" early  ⟨le_rfl, by simp⟩
    exact Web.updated_reachable hfirst "u" late ⟨by decide, by simp [Web.updated, Web.start]⟩
  | succ n ih => exact Web.updated_reachable ih (other n) early ⟨le_rfl, by simp⟩

/-- Nothing is read or stored meanwhile. -/
structure Web.Unread (s : Web) : Prop where
  reads : s.reads = fun _ => none
  values : s.cache.values.entries = []
  primary : s.primary "u" = [early, late]
  deletes : ∃ after, s.deletes = [("u", 1)] ++ ("u", 2) :: after

theorem crowd_unread (n : ℕ) : (crowd n).Unread := by
  induction n with
  | zero => exact ⟨rfl, rfl, rfl, [], rfl⟩
  | succ n ih =>
    obtain ⟨after, hafter⟩ := ih.deletes
    refine ⟨ih.reads, ?_, ?_, after ++ [(other n, 1)], ?_⟩
    · simp only [crowd, Web.updated, Cache.delete, Cache.remove, Dict.erase, ih.values, filter_nil]
    · simp only [crowd, Web.updated, Function.update_of_ne (other_ne n).symm, ih.primary]
    · simp [crowd, Web.updated, hafter]

theorem crowd_floors (hn : n ≤ 999) :
    (crowd n).cache.floors.entries = ("u", 2) :: (List.range n).map fun i => (other i, 1) := by
  induction n with
  | zero => rfl
  | succ n ih =>
    have hfloors := ih (by omega)
    have hnone : (crowd n).cache.floors.get? (other n) = none := by
      refine Assoc.lookup_eq_none_iff.mpr fun hmem => ?_
      rw [hfloors, map_cons, map_map, mem_cons, mem_map] at hmem
      obtain hsame | ⟨i, hi, hsame⟩ := hmem
      · exact other_ne n hsame
      · exact absurd (other_injective hsame) (Nat.ne_of_lt (mem_range.mp hi))
    change (raiseFloor (other n) 1 (crowd n).cache.floors).entries = _
    rw [raiseFloor_of_none hnone, if_neg (by simp [hfloors]; omega), hfloors, range_succ]
    simp

theorem other_absent (hn : n ≤ 999) : (crowd n).cache.floors.get? (other n) = none := by
  refine Assoc.lookup_eq_none_iff.mpr fun hmem => ?_
  rw [crowd_floors hn, map_cons, map_map, mem_cons, mem_map] at hmem
  obtain hsame | ⟨i, hi, hsame⟩ := hmem
  · exact other_ne n hsame
  · exact absurd (other_injective hsame) (Nat.ne_of_lt (mem_range.mp hi))

theorem crowd_floor (hn : n = 999) : (crowd (n + 1)).cache.floor "u" 0 = 0 := by
  have hfloors := crowd_floors hn.le
  have hentries : (crowd (n + 1)).cache.floors.entries = ((List.range n).map fun i => (other i, 1)) ++ [(other n, 1)] := by
    change (raiseFloor (other n) 1 (crowd n).cache.floors).entries = _
    have hlong : 1000 < (crowd n).cache.floors.entries.length + 1 := by
      rw [hfloors, length_cons, length_map, length_range]
      omega
    rw [raiseFloor_of_none (other_absent hn.le), if_pos hlong, hfloors, cons_append, tail_cons]
  have hgone : (crowd (n + 1)).cache.floors.get? "u" = none := by
    refine Assoc.lookup_eq_none_iff.mpr fun hmem => ?_
    rw [hentries, map_append, map_map, mem_append, mem_map, map_singleton, mem_singleton] at hmem
    obtain ⟨i, -, hsame⟩ | hsame := hmem
    · exact other_ne i hsame
    · exact other_ne n hsame.symm
  rw [Cache.floor, hgone]
  rfl

theorem Cache.probe_none {minVersion : ℕ} (h : s.values.get? key = none) :
    s.probe c key minVersion now = (⟨none, s.generation, s.floor key minVersion⟩, s) := by
  unfold Cache.probe
  simp only [h]

/-- A read that misses, and is answered by the replica and not filled in. -/
theorem miss_answered {s : Web} (h : (web c).Reachable s) {i : ℕ} (hnew : s.reads i = none)
    (hnone : s.cache.values.get? key = none) {version : ℕ} (hvalue : s.record key version = some value)
    (hfloor : s.cache.floor key 0 ≤ value.version) :
    ∃ s', (web c).Reachable s' ∧
      s'.reads i = some ⟨key, s.cache.floor key 0, s.cache.generation, .answered value, s.deletes⟩ := by
  have h1 := h.step (.probe i hnew key 0 (Cache.probe_none hnone))
  have h2 := h1.step (.replica i ⟨key, s.cache.floor key 0, s.cache.generation, .missed, s.deletes⟩
    (Function.update_self i _ s.reads) rfl version value hvalue)
  rw [if_neg (not_lt.mpr hfloor)] at h2
  have h3 := h2.step (.fillFails i ⟨key, s.cache.floor key 0, s.cache.generation, .filling value, s.deletes⟩
    (Function.update_self i _ _) value rfl)
  refine ⟨_, h3, ?_⟩
  simp only [Web.goOn, Function.update_self, Read.finish, if_neg (not_lt.mpr hfloor)]

/-- The floor of a user is gone after a thousand others; a replica that has not seen the second update answers. -/
theorem read_stale : ¬ ∀ s, (web roomy).Reachable s → ∀ i read value, s.reads i = some read → read.phase = .answered value →
    ∀ before v after, read.before = before ++ (read.user, v) :: after → v ≤ value.version := by
  intro hall
  obtain ⟨s, hs, hunread, hfloor⟩ : ∃ s, (web roomy).Reachable s ∧ s.Unread ∧ s.cache.floor "u" 0 = 0 :=
    ⟨crowd 1000, crowd_reachable 1000, crowd_unread 1000, crowd_floor rfl⟩
  obtain ⟨after, hafter⟩ := hunread.deletes
  have hold : s.record "u" 1 = some ⟨"u", 1, early⟩ := by rw [Web.record, hunread.primary]; rfl
  obtain ⟨s', hs', hread⟩ := miss_answered hs (i := 0) (by rw [hunread.reads]) (by rw [Dict.get?, hunread.values]; rfl) hold
    (by rw [hfloor]; exact Nat.zero_le _)
  have hle := hall s' hs' 0 _ _ hread rfl [("u", 1)] 2 after hafter
  exact absurd hle (by decide)

theorem read_second : ∃ s, (web roomy).Reachable s ∧ s.cache.Bounded roomy ∧
    ∃ read value, s.reads 0 = some read ∧ read.phase = .answered value ∧ 2 ≤ value.version := by
  have hnewest : (crowd 0).record "u" 2 = some ⟨"u", 2, late⟩ := rfl
  obtain ⟨s, hs, hread⟩ := miss_answered (c := roomy) (crowd_reachable 0) (i := 0) rfl rfl hnewest (by decide)
  have hfresh := reads_fresh hs
  exact ⟨s, hs, hfresh.1, _, _, hread, rfl, hfresh.2 0 _ _ hread rfl [("u", 1)] 2 [] rfl (by decide)⟩

end SystemDesign.ScaleFromZero
