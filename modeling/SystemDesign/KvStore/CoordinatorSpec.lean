import SystemDesign.KvStore.Coordinator

/-!
What every run of the cluster keeps.

* `own_counters_increase` — one coordinator never issues a clock twice, and no
  later one is dominated by an earlier one.
* `reads_see_writes` — a read of enough targets sees every write that
  returned before it started, or one that dominates it.
-/

namespace SystemDesign.KvStore

open List hiding lt_irrefl
open Dict
open Function (update update_of_ne update_self)

/-! ### The issued clock -/

theorem length_erase {d : Dict String ℕ} {k : String} {n : ℕ} (h : d.get? k = some n) :
    (d.erase k).entries.length + 1 = d.entries.length := by
  rw [(entries_perm h).length_eq, length_cons]

variable {nodeId : String}

/-- Pruning keeps the node's own entry, adds nothing, and drops one entry a round. -/
theorem prune_spec {rounds : ℕ} {entries entries' : Dict String ℕ} (h : prune nodeId rounds entries = .ok entries') :
    entries'.get? nodeId = entries.get? nodeId ∧ (∀ k n, entries'.get? k = some n → entries.get? k = some n) ∧
      entries'.entries.length + rounds = entries.entries.length := by
  induction rounds generalizing entries with
  | zero =>
    obtain rfl := Except.ok.inj h
    exact ⟨rfl, fun _ _ h => h, rfl⟩
  | succ rounds ih =>
    simp only [prune] at h
    split at h
    · next victim hvictim =>
        obtain ⟨hown, hsub, hlen⟩ := ih h
        have hmem := argmin_mem hvictim
        obtain ⟨hkey, hne⟩ := mem_filter.mp hmem
        obtain ⟨n, hn⟩ := Dict.mem_keys.mp hkey
        have hne : nodeId ≠ victim := fun h => by simp [h] at hne
        refine ⟨?_, fun k m hk => ?_, ?_⟩
        · rw [hown, get?_erase, if_neg hne]
        · have := hsub k m hk
          rw [get?_erase] at this
          split_ifs at this
          exact this
        · rw [← length_erase hn]
          omega
    · cases h

variable {old : List Version}

theorem le_highestCounter {v : Version} (h : v ∈ old) : v.clock.counter nodeId ≤ highestCounter nodeId old := by
  induction old with
  | nil => cases h
  | cons w old ih =>
    rw [highestCounter, map_cons, foldr_cons]
    rcases mem_cons.mp h with rfl | h
    · exact le_max_left _ _
    · exact (ih h).trans (le_max_right _ _)

variable {clock : VectorClock}

/-- The issued clock: its own counter is above all it saw, its other entries are the client's. -/
theorem issueClock_spec {limit : ℕ} {clientClock : Dict String ℕ}
    (h : issueClock nodeId limit old clientClock = .ok clock) :
    highestCounter nodeId old < clock.counter nodeId ∧
      ∀ k n, clock.entries.get? k = some n → 0 < n ∨ clientClock.get? k = some n := by
  obtain ⟨entries, hprune, h⟩ := Py.bind_eq_ok.mp h
  obtain ⟨hown, hsub, hlen⟩ := prune_spec hprune
  rw [get?_set_self] at hown
  have hlimit : ¬ limit < (entries.set nodeId ((entries.get? nodeId).getD 0 + 1)).entries.length := by
    rw [length_set_of_some hown]
    omega
  obtain rfl := Except.ok.inj h
  simp only [VectorClock.increment, hlimit, if_false]
  constructor
  · simp only [VectorClock.counter, get?_set_self, Option.getD_some, hown]
    omega
  · intro k n hk
    rw [get?_set] at hk
    split_ifs at hk with hkey
    · obtain rfl := Option.some.inj hk
      exact .inl (Nat.succ_pos _)
    · have := hsub k n hk
      rw [get?_set_of_ne _ hkey] at this
      exact .inr this

/-! ### Records that only grow -/

/-- A record a reader accepts, with positive counters. -/
def RecordOk (floats : Floats) (stored : Option String) : Prop :=
  ∃ ws, readStored floats stored = .ok ws ∧ AllPositive ws

/-- The record stands for a version. -/
def Holds (floats : Floats) (stored : Option String) (v : Version) : Prop :=
  ∃ ws, readStored floats stored = .ok ws ∧ AllPositive ws ∧ Covers floats ws v

theorem Like.positive {floats : Floats} {vs ws : List Version} (h : Like floats vs ws)
    (hpos : AllPositive vs) : AllPositive ws := by
  intro w hw
  obtain ⟨v, hv, heq⟩ := h.symm.exists_mem hw
  exact (Version.like_of_frozen heq).1.symm.positive (hpos v hv)

variable {floats : Floats}

theorem covers_append_left {vs ws : List Version} {v : Version} (h : Covers floats vs v) :
    Covers floats (vs ++ ws) v := by
  obtain ⟨r, hr, hcov⟩ := h
  exact ⟨r, mem_append_left _ hr, hcov⟩

variable {versions : List Version} {stored : Option String}

/-- A merge keeps what the record stood for and adds what arrived. -/
theorem merge_holds {stored' : Option String} (hok : RecordOk floats stored) (hpos : AllPositive versions)
    (h : merge floats stored versions = .ok stored') :
    RecordOk floats stored' ∧ (∀ v, Holds floats stored v → Holds floats stored' v) ∧
      ∀ v ∈ versions, Holds floats stored' v := by
  obtain ⟨ws, hread, hws⟩ := hok
  obtain ⟨frozen, existing, now, hlike, hread', hnow, hlike', -⟩ := merge_spec h
  obtain rfl : ws = existing := Except.ok.inj (hread.symm.trans hread')
  have hall : AllPositive (ws ++ frozen) := fun v hv => (mem_append.mp hv).elim (hws v) (hlike.symm.positive hpos v)
  have hnowpos : AllPositive now := hlike'.symm.positive fun v hv => hall v (mem_of_mem_reconcile hv)
  have hcov : ∀ v, Covers floats (ws ++ frozen) v → Covers floats now v := fun v hv =>
    hlike'.symm.covers (hv.trans (fun w hw => covers_reconcile hall hw) hall)
  refine ⟨⟨now, hnow, hnowpos⟩, fun v hv => ?_, fun v hv => ?_⟩
  · obtain ⟨us, hus, -, hv⟩ := hv
    obtain rfl : ws = us := Except.ok.inj (hread.symm.trans hus)
    exact ⟨now, hnow, hnowpos, hcov v (covers_append_left hv)⟩
  · obtain ⟨w, hw, heq⟩ := hlike.symm.exists_mem hv
    obtain ⟨hsame, hts⟩ := Version.like_of_frozen heq
    exact ⟨now, hnow, hnowpos, hcov v ⟨w, mem_append_right _ hw, .inl ⟨hsame, hts.le⟩⟩⟩

variable {node : String}

theorem arriving_like {source : String} {arrived : List Version}
    (h : arriving floats source node versions = .ok arrived) : Like floats versions arrived := by
  unfold arriving at h
  split_ifs at h
  · obtain rfl := Except.ok.inj h
    exact Perm.refl _
  · exact (like_of_decode_encode h).symm

/-! ### The invariant -/

variable {setup : Setup}

/-- Every record stands for at least what it stood for. -/
def Grows (setup : Setup) (records records' : String → Option String) : Prop :=
  ∀ node v, Holds setup.floats (records node) v → Holds setup.floats (records' node) v

structure WriteOk (setup : Setup) (records : String → Option String) (w : Write) : Prop where
  positive : w.version.clock.Positive
  own : Holds setup.floats (records w.coordinator) w.version
  applied : ∀ node ∈ w.applied, Holds setup.floats (records node) w.version
  acked : ∀ node ∈ w.acked, node ∈ w.applied ∧ node ∈ setup.targets
  nodup : w.acked.Nodup
  quorum : w.returned = true → w.required ≤ w.acked.length

structure ReadOk (setup : Setup) (records : String → Option String) (r : Read) : Prop where
  before : ∀ w ∈ r.before, WriteOk setup records w ∧ w.returned = true
  nodup : (r.answers.map Prod.fst).Nodup
  target : ∀ a ∈ r.answers, a.1 ∈ setup.targets
  positive : ∀ a ∈ r.answers, AllPositive a.2
  covers : ∀ a ∈ r.answers, ∀ w ∈ r.before, a.1 ∈ w.acked → Covers setup.floats a.2 w.version

/-- The clocks issued, each with its coordinator. -/
def Cluster.issued (s : Cluster) : List (String × VectorClock) := s.writes.map fun w => (w.coordinator, w.version.clock)

structure Cluster.Ok (setup : Setup) (s : Cluster) : Prop where
  records : ∀ node, RecordOk setup.floats (s.records node)
  pending : ∀ node p, s.pending node = some p → p.1.clock.Positive ∧
    ∀ c, (node, c) ∈ s.issued → c.counter node < p.1.clock.counter node
  writes : ∀ w ∈ s.writes, WriteOk setup s.records w
  increasing : s.issued.Pairwise fun a b => a.1 = b.1 → a.2.counter a.1 < b.2.counter a.1
  reads : ∀ r ∈ s.reads, ReadOk setup s.records r

variable {records : String → Option String}

theorem WriteOk.grows {records' : String → Option String} {w : Write} (h : WriteOk setup records w)
    (hg : Grows setup records records') : WriteOk setup records' w :=
  ⟨h.positive, hg _ _ h.own, fun node hn => hg _ _ (h.applied node hn), h.acked, h.nodup, h.quorum⟩

theorem ReadOk.grows {records records' : String → Option String} {r : Read}
    (h : ReadOk setup records r) (hg : Grows setup records records') : ReadOk setup records' r :=
  ⟨fun w hw => ⟨(h.before w hw).1.grows hg, (h.before w hw).2⟩, h.nodup, h.target, h.positive, h.covers⟩

/-- A merge at one node: all records stay readable and grow, and the node has what arrived. -/
theorem update_records (hok : ∀ node, RecordOk setup.floats (records node)) (hpos : AllPositive versions)
    (h : merge setup.floats (records node) versions = .ok stored) :
    (∀ n, RecordOk setup.floats (update records node stored n)) ∧ Grows setup records (update records node stored) ∧
      ∀ v ∈ versions, Holds setup.floats (update records node stored node) v := by
  obtain ⟨hrec, hgrow, hnew⟩ := merge_holds (hok node) hpos h
  refine ⟨fun n => ?_, fun n v hv => ?_, fun v hv => ?_⟩
  · by_cases hn : n = node
    · subst hn
      rwa [update_self]
    · rw [update_of_ne hn]
      exact hok n
  · by_cases hn : n = node
    · subst hn
      rw [update_self]
      exact hgrow v hv
    · rwa [update_of_ne hn]
  · rw [update_self]
    exact hnew v hv

theorem map_set_eq {α β : Type} {f : α → β} {l : List α} {i : ℕ} {a b : α} (h : l[i]? = some a)
    (hf : f b = f a) : (l.set i b).map f = l.map f := by
  rw [map_set, hf]
  obtain ⟨hi, rfl⟩ := List.getElem?_eq_some_iff.mp h
  apply ext_getElem (by simp)
  intro j h1 h2
  rw [getElem_set]
  split_ifs with hij
  · subst hij
    simp
  · rfl

/-! ### Every step keeps it -/

variable {s : Cluster}

theorem Cluster.Ok.grow (h : s.Ok setup) (hok : ∀ node, RecordOk setup.floats (records node))
    (hg : Grows setup s.records records) : Cluster.Ok setup { s with records := records } :=
  ⟨hok, h.pending, fun w hw => (h.writes w hw).grows hg, h.increasing, fun r hr => (h.reads r hr).grows hg⟩

/-- A step that replaces one write by one with the same coordinator and version. -/
theorem Cluster.Ok.setWrite (h : s.Ok setup) {i : ℕ} {w w' : Write} (hw : s.writes[i]? = some w)
    (hsame : w'.coordinator = w.coordinator ∧ w'.version = w.version) (hok : WriteOk setup s.records w') :
    Cluster.Ok setup { s with writes := s.writes.set i w' } := by
  have hissued : Cluster.issued { s with writes := s.writes.set i w' } = s.issued :=
    map_set_eq hw (by rw [hsame.1, hsame.2])
  refine ⟨h.records, ?_, fun u hu => ?_, ?_, h.reads⟩
  · rw [hissued]
    exact h.pending
  · rcases mem_or_eq_of_mem_set hu with hu | rfl
    · exact h.writes u hu
    · exact hok
  · rw [hissued]
    exact h.increasing

theorem Cluster.Ok.setRead (h : s.Ok setup) {j : ℕ} {r : Read} (hok : ReadOk setup s.records r) :
    Cluster.Ok setup { s with reads := s.reads.set j r } := by
  refine ⟨h.records, h.pending, h.writes, h.increasing, fun q hq => ?_⟩
  rcases mem_or_eq_of_mem_set hq with hq | rfl
  · exact h.reads q hq
  · exact hok

theorem Cluster.Ok.dropPending (h : s.Ok setup) (node : String) :
    Cluster.Ok setup { s with pending := update s.pending node none } := by
  refine ⟨h.records, fun n p hp => ?_, h.writes, h.increasing, h.reads⟩
  by_cases hn : n = node
  · subst hn
    simp only [update_self] at hp
    cases hp
  · simp only [update_of_ne hn] at hp
    exact h.pending n p hp

/-- The version of a new write is above every one its coordinator issued. -/
theorem Cluster.Ok.begin (h : s.Ok setup) {clientClock : Dict String ℕ}
    (hclient : ∀ k n, clientClock.get? k = some n → 0 < n)
    (hread : readStored setup.floats (s.records node) = .ok old)
    (hclock : issueClock node setup.maxClockEntries old clientClock = .ok clock) (value : Option (List UInt8))
    (timestamp : Number) (required : ℕ) :
    Cluster.Ok setup { s with
      pending := update s.pending node (some (⟨value, clock, timestamp⟩, required)) } := by
  obtain ⟨habove, hentries⟩ := issueClock_spec hclock
  refine ⟨h.records, fun n p hp => ?_, h.writes, h.increasing, h.reads⟩
  by_cases hn : n = node
  · subst hn
    simp only [update_self] at hp
    obtain rfl := Option.some.inj hp
    refine ⟨fun k m hk => (hentries k m hk).elim id (hclient k m), fun c hc => ?_⟩
    -- the local record stands for every version this node issued
    obtain ⟨w, hw, heq⟩ := mem_map.mp hc
    obtain ⟨hcoordinator, rfl⟩ := Prod.mk.inj heq
    obtain ⟨ws, hws, -, r, hr, hcov⟩ := (h.writes w hw).own
    rw [hcoordinator, hread] at hws
    obtain rfl := Except.ok.inj hws
    have hle : w.version.clock.counter n ≤ r.clock.counter n := by
      rcases hcov with ⟨hsame, -⟩ | hdom
      · exact (congrFun hsame.counter_eq n).le
      · exact (VectorClock.dominates_iff.mp hdom).1 n
    exact (hle.trans (le_highestCounter hr)).trans_lt habove
  · simp only [update_of_ne hn] at hp
    exact h.pending n p hp

theorem Cluster.Ok.persist (h : s.Ok setup) {version : Version} {required : ℕ}
    (hpending : s.pending node = some (version, required))
    (hmerge : merge setup.floats (s.records node) [version] = .ok stored) :
    Cluster.Ok setup { s with
      records := update s.records node stored
      pending := update s.pending node none
      writes := s.writes ++ [⟨node, version, required, [], [], false⟩] } := by
  obtain ⟨hpositive, habove⟩ := h.pending node _ hpending
  obtain ⟨hok, hg, hnew⟩ := update_records h.records (by intro v hv; rw [mem_singleton.mp hv]; exact hpositive) hmerge
  have hissued : s.issued ++ [(node, version.clock)] =
      (s.writes ++ [(⟨node, version, required, [], [], false⟩ : Write)]).map
        fun w : Write => (w.coordinator, w.version.clock) := by
    rw [map_append, Cluster.issued]
    rfl
  refine ⟨hok, fun n p hp => ?_, fun w hw => ?_, ?_, fun r hr => (h.reads r hr).grows hg⟩
  · by_cases hn : n = node
    · subst hn
      simp only [update_self] at hp
      cases hp
    · simp only [update_of_ne hn] at hp
      obtain ⟨hpos, hlt⟩ := h.pending n p hp
      refine ⟨hpos, fun c hc => ?_⟩
      rw [Cluster.issued, ← hissued] at hc
      rcases mem_append.mp hc with hc | hc
      · exact hlt c hc
      · exact absurd (Prod.mk.inj (mem_singleton.mp hc)).1 hn
  · rcases mem_append.mp hw with hw | hw
    · exact (h.writes w hw).grows hg
    · obtain rfl := mem_singleton.mp hw
      exact ⟨hpositive, hnew version (by simp), by simp, by simp, by simp, by simp⟩
  · rw [Cluster.issued, ← hissued, pairwise_append]
    refine ⟨h.increasing, pairwise_singleton _ _, fun a ha b hb hab => ?_⟩
    obtain rfl := mem_singleton.mp hb
    obtain ⟨n, c⟩ := a
    simp only at hab
    subst hab
    exact habove c ha

theorem Cluster.Ok.apply (h : s.Ok setup) {i : ℕ} {write : Write} (hwrite : s.writes[i]? = some write)
    (harrive : arriving setup.floats write.coordinator node [write.version] = .ok versions)
    (hmerge : merge setup.floats (s.records node) versions = .ok stored) :
    Cluster.Ok setup { s with
      records := update s.records node stored
      writes := s.writes.set i { write with applied := node :: write.applied } } := by
  have hw := h.writes write (mem_of_getElem? hwrite)
  have hlike := arriving_like harrive
  have hpos : AllPositive versions := hlike.positive fun v hv => by
    rw [mem_singleton.mp hv]
    exact hw.positive
  obtain ⟨hok, hg, hnew⟩ := update_records h.records hpos hmerge
  have hgrown := h.grow hok hg
  refine hgrown.setWrite hwrite ⟨rfl, rfl⟩ ?_
  have hw' := hw.grows hg
  refine ⟨hw'.positive, hw'.own, fun n hn => ?_, fun n hn => ?_, hw'.nodup, hw'.quorum⟩
  · rcases mem_cons.mp hn with rfl | hn
    · obtain ⟨v, hv, heq⟩ := hlike.exists_mem (mem_singleton.mpr rfl)
      obtain ⟨hsame, hts⟩ := Version.like_of_frozen heq
      obtain ⟨ws, hws, hpos, hcov⟩ := hnew v hv
      exact ⟨ws, hws, hpos, hcov.like hsame.symm hts.le⟩
    · exact hw'.applied n hn
  · exact ⟨mem_cons_of_mem _ (hw'.acked n hn).1, (hw'.acked n hn).2⟩

theorem Cluster.Ok.answer (h : s.Ok setup) {j : ℕ} {read : Read} {held : List Version} {reader : String}
    (hread : s.reads[j]? = some read) (htarget : node ∈ setup.targets) (hnew : node ∉ read.answers.map Prod.fst)
    (hheld : readStored setup.floats (s.records node) = .ok held)
    (harrive : arriving setup.floats reader node held = .ok versions) :
    Cluster.Ok setup { s with
      reads := s.reads.set j { read with answers := (node, versions) :: read.answers } } := by
  have hr := h.reads read (mem_of_getElem? hread)
  have hlike := arriving_like harrive
  obtain ⟨ws, hws, hpos⟩ := h.records node
  obtain rfl : held = ws := Except.ok.inj (hheld.symm.trans hws)
  apply h.setRead
  refine ⟨hr.before, ?_, fun a ha => ?_, fun a ha => ?_, fun a ha w hw hacked => ?_⟩
  · rw [map_cons, nodup_cons]
    exact ⟨hnew, hr.nodup⟩
  · rcases mem_cons.mp ha with rfl | ha
    · exact htarget
    · exact hr.target a ha
  · rcases mem_cons.mp ha with rfl | ha
    · exact hlike.positive hpos
    · exact hr.positive a ha
  · rcases mem_cons.mp ha with rfl | ha
    · have hwok := (hr.before w hw).1
      obtain ⟨us, hus, -, hcov⟩ := hwok.applied node (hwok.acked node hacked).1
      obtain rfl : held = us := Except.ok.inj (hheld.symm.trans hus)
      exact hlike.covers hcov
    · exact hr.covers a ha w hw hacked

theorem Cluster.Ok.step {s' : Cluster} (h : s.Ok setup) (hstep : Step setup s s') : s'.Ok setup := by
  cases hstep with
  | begin clientClock value timestamp consistency _ hclient hread hclock =>
    exact h.begin hclient hread hclock value timestamp _
  | persist hpending hmerge => exact h.persist hpending hmerge
  | abandon node => exact h.dropPending node
  | apply hwrite harrive hmerge => exact h.apply hwrite harrive hmerge
  | ack hwrite happlied htarget hnew =>
    have hw := h.writes _ (mem_of_getElem? hwrite)
    refine h.setWrite hwrite ⟨rfl, rfl⟩ ⟨hw.positive, hw.own, hw.applied, fun n hn => ?_,
      nodup_cons.mpr ⟨hnew, hw.nodup⟩, fun hret => ?_⟩
    · rcases mem_cons.mp hn with rfl | hn
      · exact ⟨happlied, htarget⟩
      · exact hw.acked n hn
    · exact (hw.quorum hret).trans (Nat.le_succ _)
  | succeed hwrite hquorum =>
    have hw := h.writes _ (mem_of_getElem? hwrite)
    exact h.setWrite hwrite ⟨rfl, rfl⟩ ⟨hw.positive, hw.own, hw.applied, hw.acked, hw.nodup, fun _ => hquorum⟩
  | merge hpositive hmerge =>
    obtain ⟨hok, hg, -⟩ := update_records h.records hpositive hmerge
    exact h.grow hok hg
  | beginGet consistency =>
    refine ⟨h.records, h.pending, h.writes, h.increasing, fun r hr => ?_⟩
    rcases mem_append.mp hr with hr | hr
    · exact h.reads r hr
    · obtain rfl := mem_singleton.mp hr
      refine ⟨fun w hw => ?_, by simp, by simp, by simp, by simp⟩
      obtain ⟨hw, hret⟩ := mem_filter.mp hw
      exact ⟨h.writes w hw, hret⟩
  | answer reader hread htarget hnew hheld harrive =>
    exact h.answer hread htarget hnew hheld harrive

theorem Cluster.Ok.empty : Cluster.Ok setup .empty :=
  ⟨fun _ => ⟨[], rfl, by simp [AllPositive]⟩, by simp [Cluster.empty], by simp [Cluster.empty],
    by simp [Cluster.empty, issued], by simp [Cluster.empty]⟩

theorem reachable_ok (h : (cluster setup).Reachable s) : s.Ok setup :=
  h.invariant (fun _ hs => hs ▸ .empty) fun _ _ _ hok hstep => hok.step hstep

/-! ### One coordinator's clocks -/

/-- In every run, the clocks one node issues carry ever larger own counters; so no two are equal
and a later one is never dominated by an earlier one. -/
theorem own_counters_increase {s : Cluster} (h : (cluster setup).Reachable s) :
    s.issued.Pairwise fun a b => a.1 = b.1 → a.2.counter a.1 < b.2.counter a.1 ∧
      ¬ a.2.entries.Equiv b.2.entries ∧ a.2.dominates b.2 = false := by
  refine (reachable_ok h).increasing.imp fun {a b} hlt hsame => ?_
  have hlt := hlt hsame
  refine ⟨hlt, fun heq => ?_, ?_⟩
  · rw [VectorClock.counter, VectorClock.counter, heq] at hlt
    exact lt_irrefl _ hlt
  · by_contra hdom
    have hle : b.2.counter a.1 ≤ a.2.counter a.1 := (VectorClock.dominates_iff.mp (by simpa using hdom)).1 a.1
    omega

/-! ### Quorums meet -/

/-- With every node alive the targets are the first nodes of the order. -/
theorem targets_of_alive {order : List String} {alive : String → Bool} (n : ℕ)
    (h : ∀ node ∈ order, alive node = true) : (targets order alive n).1 = order.take n := by
  have hfold : ∀ (l : List (String × ℕ)) (acc : List String × Dict String String),
      (∀ e ∈ l, alive e.1 = true) → l.foldl (substitute order alive) acc = acc := by
    intro l
    induction l with
    | nil => exact fun _ _ => rfl
    | cons e l ih =>
      intro acc hl
      obtain ⟨he, hl⟩ := forall_mem_cons.mp hl
      rw [foldl_cons, substitute, if_pos he]
      exact ih acc hl
  rw [targets, hfold]
  intro e he
  obtain ⟨node, i⟩ := e
  exact h node (mem_of_mem_take (fst_mem_of_mem_zipIdx he))

/-- Enough acknowledgements and enough answers have a node in common. -/
theorem exists_common {targets acked answered : List String} {n w r : ℕ} (htargets : targets.length ≤ n)
    (hacked : acked.Nodup) (hanswered : answered.Nodup) (hacked' : ∀ node ∈ acked, node ∈ targets)
    (hanswered' : ∀ node ∈ answered, node ∈ targets) (hw : w ≤ acked.length) (hr : r ≤ answered.length)
    (hquorum : n < w + r) : ∃ node ∈ acked, node ∈ answered := by
  have hcard : targets.toFinset.card < acked.toFinset.card + answered.toFinset.card := by
    rw [toFinset_card_of_nodup hacked, toFinset_card_of_nodup hanswered]
    have := toFinset_card_le targets
    omega
  obtain ⟨node, hnode⟩ := Finset.inter_nonempty_of_card_lt_card_add_card
    (fun a ha => by simpa using hacked' a (by simpa using ha))
    (fun a ha => by simpa using hanswered' a (by simpa using ha)) hcard
  simp only [Finset.mem_inter, mem_toFinset] at hnode
  exact ⟨node, hnode.1, hnode.2⟩

/-- What the client gets are the reconciled versions. -/
theorem getResult_siblings (floats : Floats) (responses : List (List Version)) :
    (getResult floats responses).siblings = (reconcile floats responses.flatten).map fun v => (v.value, v.clock) := by
  unfold getResult
  split
  · next h => rw [h]; rfl
  · next h => rw [h]; rfl
  · rfl

theorem getResult_not_found {responses : List (List Version)} (h : (getResult floats responses).found = false)
    (hne : reconcile floats responses.flatten ≠ []) :
    ∃ v, reconcile floats responses.flatten = [v] ∧ v.value = none := by
  unfold getResult at h
  split at h
  · next hnil => exact absurd hnil hne
  · next v hv => exact ⟨v, hv, by simpa using h⟩
  · simp at h

/-- A read that starts after a write returned, with intersecting quorums, gets that version or one
that dominates it, whatever else happened; it finds nothing only if a delete says so. -/
theorem reads_see_writes {s : Cluster} (h : (cluster setup).Reachable s)
    (halive : ∀ node ∈ setup.order, setup.alive node = true)
    {read : Read} (hread : read ∈ s.reads) {write : Write} (hwrite : write ∈ read.before)
    (hquorum : setup.quorum.n < write.required + read.required)
    {collected : List (String × List Version)} (hcollected : collected.Subperm read.answers)
    (hrequired : read.required ≤ collected.length) :
    (∃ sibling ∈ (getResult setup.floats (collected.map Prod.snd)).siblings,
      (sibling.1 = write.version.value ∧ sibling.2.entries.Equiv write.version.clock.entries) ∨
      sibling.2.dominates write.version.clock = true) ∧
    ((getResult setup.floats (collected.map Prod.snd)).found = false →
      ∃ clock, (getResult setup.floats (collected.map Prod.snd)).siblings = [(none, clock)] ∧
        (clock.dominates write.version.clock = true ∨
          write.version.value = none ∧ clock.entries.Equiv write.version.clock.entries)) := by
  have hok := (reachable_ok h).reads read hread
  obtain ⟨hw, hreturned⟩ := hok.before write hwrite
  have htargets : setup.targets.length ≤ setup.quorum.n := by
    rw [Setup.targets, targets_of_alive _ halive, length_take]
    exact min_le_left _ _
  have hsub := hcollected.subset
  have hnodup : (collected.map Prod.fst).Nodup := by
    obtain ⟨l, hperm, hsubl⟩ := hcollected
    exact (hperm.map Prod.fst).nodup_iff.mp (hok.nodup.sublist (hsubl.map _))
  obtain ⟨node, hacked, hanswered⟩ := exists_common htargets hw.nodup hnodup
    (fun n hn => (hw.acked n hn).2) (fun n hn => by
      obtain ⟨a, ha, rfl⟩ := mem_map.mp hn
      exact hok.target a (hsub ha)) (hw.quorum hreturned) (by simpa using hrequired) hquorum
  obtain ⟨⟨node, versions⟩, ha, rfl⟩ := mem_map.mp hanswered
  -- that node's answer stands for the write, and reconciling keeps it
  have hall : AllPositive (collected.map Prod.snd).flatten := fun v hv => by
    obtain ⟨l, hl, hv⟩ := mem_flatten.mp hv
    obtain ⟨a, ha, rfl⟩ := mem_map.mp hl
    exact hok.positive a (hsub ha) v hv
  have hcov : Covers setup.floats (collected.map Prod.snd).flatten write.version := by
    obtain ⟨r, hr, hcov⟩ := hok.covers _ (hsub ha) write hwrite hacked
    exact ⟨r, mem_flatten.mpr ⟨versions, mem_map_of_mem ha, hr⟩, hcov⟩
  obtain ⟨r, hr, hcase⟩ := hcov.trans (fun v hv => covers_reconcile hall hv) hall
  constructor
  · rw [getResult_siblings]
    refine ⟨(r.value, r.clock), mem_map_of_mem hr, ?_⟩
    rcases hcase with ⟨hsame, -⟩ | hdom
    · exact .inl ⟨hsame.1.symm, hsame.2.symm⟩
    · exact .inr hdom
  · intro hfound
    obtain ⟨v, hv, hnone⟩ := getResult_not_found hfound (ne_nil_of_mem hr)
    rw [hv] at hr
    obtain rfl := mem_singleton.mp hr
    refine ⟨r.clock, by rw [getResult_siblings, hv, ← hnone]; rfl, ?_⟩
    rcases hcase with ⟨hsame, -⟩ | hdom
    · exact .inr ⟨hsame.1.trans hnone, hsame.2.symm⟩
    · exact .inl hdom

/-! ### A run -/

/-- One node that is the only target. -/
def oneNode : Setup where
  floats := noFloats
  quorum := ⟨1, 1, 1⟩
  order := ["a"]
  distinct := by decide
  alive := fun _ => true
  maxClockEntries := 10

theorem reachable_write (setup : Setup) (node : String) (h : (cluster setup).Reachable s)
    (value : Option (List UInt8)) (timestamp : Number) (hfree : s.pending node = none)
    (hread : readStored setup.floats (s.records node) = .ok old)
    (hclock : issueClock node setup.maxClockEntries old .empty = .ok clock)
    (hmerge : merge setup.floats (s.records node) [⟨value, clock, timestamp⟩] = .ok stored) :
    ∃ s', (cluster setup).Reachable s' ∧ s'.records node = stored ∧ s'.pending node = none ∧
      s'.reads = s.reads ∧ s'.writes = s.writes ++
        [⟨node, ⟨value, clock, timestamp⟩, setup.quorum.w, [], [], false⟩] := by
  have h1 := h.step (Step.begin .empty value timestamp none hfree (by simp) hread hclock)
  have h2 := h1.step (Step.persist (update_self ..) hmerge)
  exact ⟨_, h2, update_self .., update_self .., rfl, rfl⟩

/-- The clock of a node's `n`th write. -/
def ownClock (n : ℕ) : VectorClock := ⟨⟨[("a", n)], by simp⟩, 10⟩

theorem own_counters_increase_two : ∃ s, (cluster oneNode).Reachable s ∧ s.issued.length = 2 ∧
    s.issued.Pairwise fun a b => a.1 = b.1 → a.2.counter a.1 < b.2.counter a.1 ∧
      ¬ a.2.entries.Equiv b.2.entries ∧ a.2.dominates b.2 = false := by
  have hfirst : merge noFloats none [⟨none, ownClock 1, .int 1⟩] = .ok (some (firstRecord "1")) := by decide +kernel
  have hread : readStored noFloats (some (firstRecord "1")) = .ok [⟨none, ownClock 1, .int 1⟩] := by decide +kernel
  have hsecond : ∃ stored, merge noFloats (some (firstRecord "1")) [⟨none, ownClock 2, .int 1⟩] =
      .ok stored := by
    have hok : (merge noFloats (some (firstRecord "1"))
      [⟨none, ownClock 2, .int 1⟩]).toOption.isSome = true := by decide +kernel
    cases hm : merge noFloats (some (firstRecord "1")) [⟨none, ownClock 2, .int 1⟩] with
    | ok stored => exact ⟨stored, rfl⟩
    | error e => simp [hm, Except.toOption] at hok
  obtain ⟨stored, hsecond⟩ := hsecond
  obtain ⟨s, hs, hrecord, hfree, -, hwrites⟩ := reachable_write oneNode "a"
    (.start rfl) none (.int 1) rfl rfl (by decide) hfirst
  have hclock : issueClock "a" 10 [⟨none, ownClock 1, .int 1⟩] .empty = .ok (ownClock 2) := by
    decide
  obtain ⟨s', hs', -, -, -, hwrites'⟩ := reachable_write oneNode "a" hs none (.int 1) hfree
    (by rw [hrecord]; exact hread) hclock (by rw [hrecord]; exact hsecond)
  refine ⟨s', hs', ?_, own_counters_increase hs'⟩
  rw [Cluster.issued, hwrites', hwrites]
  rfl

/-- A write that its coordinator, as a target, executes and acknowledges. -/
theorem reachable_return (h : (cluster setup).Reachable s) {w : Write} (hwrites : s.writes = [w])
    (hmerge : merge setup.floats (s.records w.coordinator) [w.version] = .ok stored)
    (htarget : w.coordinator ∈ setup.targets) (hacked : w.acked = []) (hone : w.required ≤ 1) :
    ∃ s', (cluster setup).Reachable s' ∧ s'.records w.coordinator = stored ∧ s'.reads = s.reads ∧
      s'.writes = [⟨w.coordinator, w.version, w.required, w.coordinator :: w.applied, [w.coordinator], true⟩] := by
  have hget : ∀ v : Write, [v][0]? = some v := fun _ => rfl
  have h1 := h.step (Step.apply (hwrites ▸ hget w) (if_pos rfl) hmerge)
  rw [hwrites, set_cons_zero] at h1
  have h2 := h1.step (Step.ack (hget _) mem_cons_self htarget (by simp [hacked]))
  have h3 := h2.step (Step.succeed (hget _) (by simpa [hacked] using hone))
  exact ⟨_, h3, update_self .., rfl, by rw [hacked]; rfl⟩

theorem reachable_answer (h : (cluster setup).Reachable s) {held : List Version} (hreads : s.reads = [])
    (htarget : node ∈ setup.targets) (hheld : readStored setup.floats (s.records node) = .ok held) :
    ∃ s', (cluster setup).Reachable s' ∧ ⟨setup.quorum.r, s.writes.filter (·.returned), [(node, held)]⟩ ∈ s'.reads := by
  have hget : ∀ r : Read, [r][0]? = some r := fun _ => rfl
  have h1 := h.step (Step.beginGet none)
  rw [hreads, nil_append] at h1
  have h2 := h1.step (Step.answer node (hget _) htarget (by simp) hheld (if_pos rfl))
  exact ⟨_, h2, mem_cons_self⟩

/-- The first delete of node `a`, returned. -/
def firstDelete : Write := ⟨"a", ⟨none, ownClock 1, .int 1⟩, 1, ["a"], ["a"], true⟩

theorem reads_see_writes_single : ∃ s, (cluster oneNode).Reachable s ∧
    ⟨1, [firstDelete], [("a", [firstDelete.version])]⟩ ∈ s.reads ∧
    ∃ sibling ∈ (getResult noFloats [[firstDelete.version]]).siblings,
      (sibling.1 = none ∧ sibling.2.entries.Equiv (ownClock 1).entries) ∨
      sibling.2.dominates (ownClock 1) = true := by
  have hfirst : merge noFloats none [⟨none, ownClock 1, .int 1⟩] = .ok (some (firstRecord "1")) := by decide +kernel
  have hagain : merge noFloats (some (firstRecord "1")) [⟨none, ownClock 1, .int 1⟩] =
      .ok (some (firstRecord "1")) := by decide +kernel
  have hheld : readStored noFloats (some (firstRecord "1")) = .ok [⟨none, ownClock 1, .int 1⟩] := by decide +kernel
  obtain ⟨s, hs, hrecord, -, hreads, hwrites⟩ := reachable_write oneNode "a"
    (.start rfl) none (.int 1) rfl rfl (by decide) hfirst
  obtain ⟨s', hs', hrecord', hreads', hwrites'⟩ := reachable_return hs hwrites
    (by rw [hrecord]; exact hagain) (by decide) rfl (by decide)
  have htarget : "a" ∈ oneNode.targets := by decide
  obtain ⟨s'', hs'', hmem⟩ := reachable_answer hs' (hreads'.trans hreads) htarget (by rw [hrecord']; exact hheld)
  rw [hwrites'] at hmem
  exact ⟨s'', hs'', hmem, (reads_see_writes hs'' (by decide) hmem mem_cons_self (by decide)
    (Subperm.refl _) (by decide)).1⟩

end SystemDesign.KvStore
