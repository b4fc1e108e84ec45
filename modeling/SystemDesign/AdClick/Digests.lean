import SystemDesign.AdClick.Counts

/-!
Three ways to one digest: a store's audit, the batch count of the log and the audit of a store
rebuilt from the log (`audit_digest`, `reconcile_digest`, `replay_digest`).
-/

namespace SystemDesign.AdClick

open List hiding le_refl

variable {τ : Type} [LinearOrder τ] {e : Settings} {clock : WorkerClock τ}

/-! ### Counting in one pass -/

/-- The counts of a list of events. -/
def tallied (events : List (Entry τ)) : Dict Key ℕ :=
  events.foldl (fun counts entry => counts.set entry.event.key ((counts.get? entry.event.key).getD 0 + 1)) .empty

variable {events : List (Entry τ)}

section
omit [LinearOrder τ]

theorem tallied_snoc (events : List (Entry τ)) (entry : Entry τ) :
    tallied (events ++ [entry]) = (tallied events).set entry.event.key
      (((tallied events).get? entry.event.key).getD 0 + 1) := by
  unfold tallied
  rw [foldl_append, foldl_cons, foldl_nil]

theorem tallies_tallied (events : List (Entry τ)) : Tallies (tallied events) events := by
  induction events using List.reverseRecOn with
  | nil =>
    intro k
    simp [tallied, tally]
  | append_singleton events entry ih =>
    rw [tallied_snoc, ih.getD]
    exact ih.add entry

theorem Tallies.equiv {counts counts' : Dict Key ℕ} (h : Tallies counts events) (h' : Tallies counts' events) :
    counts.Equiv counts' := by
  intro k
  rw [h k, h' k]

theorem mem_keys_tallied {k : Key} : k ∈ (tallied events).keys ↔ k ∈ events.map fun entry => entry.event.key := by
  rw [Dict.mem_keys, ← count_pos_iff]
  constructor
  · rintro ⟨n, hn⟩
    rw [tallies_tallied events k] at hn
    split at hn
    · cases hn
    · exact Nat.pos_of_ne_zero ‹_›
  · intro hpos
    have hne : tally events k ≠ 0 := Nat.pos_iff_ne_zero.mp hpos
    exact ⟨tally events k, by rw [tallies_tallied events k, if_neg hne]⟩

theorem tallied_length_le {events' : List (Entry τ)} (h : events <+: events') :
    (tallied events).entries.length ≤ (tallied events').entries.length := by
  have hsub : (tallied events).keys ⊆ (tallied events').keys := by
    intro k hk
    rw [mem_keys_tallied] at hk ⊢
    exact map_subset _ h.subset hk
  have hle := (tallied events).nodup.length_le_of_subset hsub
  simpa [Dict.keys] using hle

end

/-- The digest of a list of events. -/
def digestOf (events : List (Entry τ)) : String := digest (.arr ((tallied events).sorted.entries.map rowJson))

/-! ### The audit -/

theorem joinRows_eq (row : Key × ℕ) (rows : List (Key × ℕ)) :
    (rowJson row).sortKeys.print ++ Json.printItems (Json.sortItems (rows.map rowJson)) =
      joinRows (row :: rows) ++ [']'] := by
  induction rows generalizing row with
  | nil => simp [joinRows, Json.encode, Json.sortItems, Json.printItems]
  | cons row' rows ih =>
    rw [map_cons, Json.sortItems, Json.printItems, ih row']
    simp [joinRows, Json.encode]

/-- What is fed to the hash piece by piece is the text of the list. -/
theorem encode_rows (rows : List (Key × ℕ)) :
    (Json.arr (rows.map rowJson)).encode = String.ofList ('[' :: (joinRows rows ++ [']'])) := by
  unfold Json.encode
  cases rows with
  | nil => rfl
  | cons row rows =>
    rw [map_cons, Json.sortKeys, Json.sortItems, Json.print, joinRows_eq]

omit [LinearOrder τ] in
variable {done : List (Entry τ)}

/-- The audit of a store is the digest of the events it counted. -/
theorem audit_digest {lineage : String} {s : Aggregate τ} (h : Counts lineage s done) {maxRows : ℕ}
    (hmax : (tallied done).entries.length ≤ maxRows) : s.audit maxRows = .ok (digestOf done) := by
  have hequiv := h.counts.equiv (tallies_tallied done)
  have hrows : s.rows = (tallied done).sorted.entries := by
    unfold Aggregate.rows
    rw [hequiv.sorted_eq]
  have hlength : (tallied done).sorted.entries.length = (tallied done).entries.length :=
    (Dict.sorted_equiv (tallied done)).entries_perm.length_eq
  unfold Aggregate.audit
  rw [hrows, hlength]
  simp only [require, hmax, if_true, bind, Except.bind, pure, Except.pure, digestOf, digest, encode_rows]

/-! ### Pages for a rebuild -/

variable {target : ℕ}

variable {p : ℕ}

section
omit [LinearOrder τ]

theorem slice_snd (history : List (Entry τ)) {after : ℕ} (h : after ≤ target) (limit : ℕ) :
    history.take after ++ slice history after target limit = history.take (min target (after + limit)) := by
  unfold slice
  have hsplit : history.take after = (history.take target).take after := by
    rw [take_take, Nat.min_eq_left h]
  rw [hsplit, ← take_add, take_take, Nat.min_comm]

/-- A page up to a position of the log is returned and passes all checks. -/
theorem remotePage_ok (he : e.Lawful) {log : EventLog τ} {history : ℕ → List (Entry τ)}
    (h : LogOk e clock.toClock log history) {after target : ℕ} (hp : p < log.partitions) (hafter : after ≤ target)
    (htarget : target ≤ (history p).length) : log.remotePage e clock.toClock p after target log.lineage =
      .ok ⟨log.lineage, p, (history p).length, slice (history p) after target 200⟩ := by
  have hread := read_history h (some target) hp (hafter.trans htarget)
    ⟨by decide, le_refl 200⟩ (decide_eq_true (htarget.trans (h.length p)))
  have hupper : upperOf (some target) (history p).length = target := Nat.min_eq_left htarget
  rw [hupper] at hread
  have hlength := slice_length (history p) after 200 htarget
  have hnumbered := (h.numbered p).slice after target 200
  have hentries : ∀ item ∈ slice (history p) after target 200, remoteEntry e clock.toClock item = true := by
    intro item hitem
    obtain ⟨⟨body, hbody⟩, hhash, haccepted, hclick, -, -⟩ := h.entry ((slice_piece _ _ _ _).subset hitem)
    have hevent := event_toJson he hbody hclick
    unfold remoteEntry
    rw [hevent, haccepted]
    simp [hhash]
  have hseqs : ∀ item ∈ slice (history p) after target 200, item.seq ≤ target := by
    intro item hitem
    have := (hnumbered.mem_le hitem).2
    rw [hlength] at this
    omega
  have hnonempty : after < target → slice (history p) after target 200 ≠ [] := by
    intro hlt hnil
    rw [hnil, length_nil] at hlength
    omega
  have hlimit : (slice (history p) after target 200).length ≤ 200 := by
    rw [hlength]
    exact Nat.min_le_left _ _
  unfold EventLog.remotePage
  rw [hread]
  simp only [bind, Except.bind, require, pure, Except.pure, htarget, hlimit, hnumbered.follows,
    all_eq_true, decide_eq_true_eq, true_and]
  rw [if_pos]
  exact ⟨hnonempty, hseqs, hentries⟩

end

/-! ### The batch count -/

/-- The batch count stands after the events `done`. -/
structure Reconciled (b : Batch) (done : List (Entry τ)) : Prop where
  counts : Tallies b.counts done
  seen : ∀ id hash, b.seen.get? id = some hash → ∃ entry ∈ done, entry.event.eventId = id

variable {maxDimensions : ℕ}

section
omit [LinearOrder τ]

theorem Tallies.length_eq {counts : Dict Key ℕ} (h : Tallies counts events) :
    counts.entries.length = (tallied events).entries.length :=
  (h.equiv (tallies_tallied events)).entries_perm.length_eq

theorem Reconciled.add {b : Batch} (h : Reconciled b done) {entry : Entry τ}
    (hnew : ∀ x ∈ done, x.event.eventId ≠ entry.event.eventId)
    (hmax : (tallied (done ++ [entry])).entries.length ≤ maxDimensions) :
    ∃ b', Batch.add maxDimensions b entry = .ok b' ∧ Reconciled b' (done ++ [entry]) := by
  have hnone : b.seen.get? entry.event.eventId = none := by
    cases hget : b.seen.get? entry.event.eventId with
    | none => rfl
    | some hash =>
      obtain ⟨x, hx, hid⟩ := h.seen _ _ hget
      exact absurd hid (hnew x hx)
  have hcounts := h.counts.add entry
  have hlength := hcounts.length_eq.trans_le hmax
  refine ⟨⟨b.counts.set entry.event.key (tally done entry.event.key + 1),
    b.seen.set entry.event.eventId entry.hash⟩, ?_, hcounts, ?_⟩
  · unfold Batch.add
    rw [hnone, h.counts.getD]
    simp only [require, hlength, if_true, bind, Except.bind, pure, Except.pure]
  · intro id hash hget
    obtain ⟨rfl, -⟩ | hget := Dict.get?_set_cases hget
    · exact ⟨entry, mem_append_right _ mem_cons_self, rfl⟩
    · obtain ⟨x, hx, hid⟩ := h.seen _ _ hget.2
      exact ⟨x, mem_append_left _ hx, hid⟩

/-- The events of a page join the batch count. -/
theorem Reconciled.page {b : Batch} {entries : List (Entry τ)} (h : Reconciled b done)
    (hnodup : ((done ++ entries).map fun entry => entry.event.eventId).Nodup)
    (hmax : (tallied (done ++ entries)).entries.length ≤ maxDimensions) :
    ∃ b', entries.foldlM (Batch.add maxDimensions) b = .ok b' ∧ Reconciled b' (done ++ entries) := by
  induction entries generalizing b done with
  | nil =>
    rw [append_nil]
    exact ⟨b, rfl, h⟩
  | cons entry entries ih =>
    have hnew : ∀ x ∈ done, x.event.eventId ≠ entry.event.eventId := by
      intro x hx
      rw [map_append, map_cons] at hnodup
      exact (nodup_append.mp hnodup).2.2 _ (mem_map_of_mem hx) _ mem_cons_self
    have hassoc : done ++ entry :: entries = done ++ [entry] ++ entries := by simp
    rw [hassoc] at hnodup hmax ⊢
    obtain ⟨b₁, hb₁, h₁⟩ := h.add hnew ((tallied_length_le (prefix_append _ _)).trans hmax)
    obtain ⟨b₂, hb₂, h₂⟩ := ih h₁ hnodup hmax
    refine ⟨b₂, ?_, h₂⟩
    rw [foldlM_cons, hb₁]
    exact hb₂

theorem Numbered.last {after : ℕ} {entries : List (Entry τ)} (h : Numbered (after + 1) entries) :
    entries.getLast?.elim after Entry.seq = after + entries.length := by
  induction entries using List.reverseRecOn with
  | nil => rfl
  | append_singleton entries entry _ =>
    have hdrop := h.drop entries.length
    rw [drop_left' rfl] at hdrop
    unfold Numbered at hdrop
    rw [map_singleton, length_singleton, range'_one, singleton_inj] at hdrop
    rw [getLast?_concat, length_append, length_singleton]
    change entry.seq = _
    omega

end

variable {log : EventLog τ} {history : ℕ → List (Entry τ)}

section
omit [LinearOrder τ]

theorem reconcilePages_ok (he : e.Lawful) (h : LogOk e clock.toClock log history) (hp : p < log.partitions)
    (htarget : target ≤ (history p).length)
    (hmax : (tallied ((history p).take target)).entries.length ≤ maxDimensions) (fuel : ℕ) :
    ∀ {after : ℕ} {b : Batch}, after ≤ target → target ≤ after + fuel → Reconciled b ((history p).take after) →
      ∃ b', reconcilePages e clock log p maxDimensions log.lineage target fuel after b = .ok b' ∧
        Reconciled b' ((history p).take target) := by
  -- each page moves `after` on, so the fuel bounds the pages that are left
  induction fuel with
  | zero =>
    intro after b hafter hfuel hb
    obtain rfl : after = target := Nat.le_antisymm hafter hfuel
    exact ⟨b, rfl, hb⟩
  | succ fuel ih =>
    intro after b hafter hfuel hb
    unfold reconcilePages
    by_cases hlt : after < target
    · rw [if_pos hlt, remotePage_ok he h hp hafter htarget]
      have hsnd := slice_snd (history p) hafter 200
      have hbegins : (history p).take (min target (after + 200)) <+: (history p).take target :=
        take_prefix_take_left (Nat.min_le_left _ _)
      have hnodup : (((history p).take after ++ slice (history p) after target 200).map
          fun entry => entry.event.eventId).Nodup := by
        rw [hsnd]
        exact (h.nodup p).sublist ((take_sublist _ _).map _)
      have hdims : (tallied ((history p).take after ++ slice (history p) after target 200)).entries.length ≤
          maxDimensions := by
        rw [hsnd]
        exact (tallied_length_le hbegins).trans hmax
      obtain ⟨b₁, hb₁, h₁⟩ := hb.page hnodup hdims
      have hlast := ((h.numbered p).slice after target 200).last
      rw [slice_length (history p) after 200 htarget] at hlast
      have hnext : after + min 200 (target - after) = min target (after + 200) := by omega
      rw [hsnd] at h₁
      rw [hnext] at hlast
      obtain ⟨b₂, hb₂, h₂⟩ := ih (Nat.min_le_left _ _) (by omega) h₁
      refine ⟨b₂, ?_, h₂⟩
      change (slice (history p) after target 200).foldlM (Batch.add maxDimensions) b >>= _ = _
      rw [hb₁]
      change reconcilePages e clock log p maxDimensions log.lineage target fuel
        ((slice (history p) after target 200).getLast?.elim after Entry.seq) b₁ = _
      rw [hlast]
      exact hb₂
    · obtain rfl : after = target := Nat.le_antisymm hafter (Nat.not_lt.mp hlt)
      rw [if_neg hlt]
      exact ⟨b, rfl, hb⟩

/-- What `reconcile` computes from the log is the digest of its first events. -/
theorem reconcile_digest (he : e.Lawful) {log : EventLog τ} {history : ℕ → List (Entry τ)}
    (h : LogOk e clock.toClock log history) {target : ℕ} (hp : p < log.partitions)
    (htarget : target ≤ (history p).length)
    (hmax : (tallied ((history p).take target)).entries.length ≤ maxDimensions) :
    reconcile e clock log p maxDimensions log.lineage target = .ok (digestOf ((history p).take target)) := by
  have hempty : Reconciled (τ := τ) ⟨.empty, .empty⟩ ((history p).take 0) := by
    constructor
    · intro k
      simp [tally]
    · intro id hash hget
      simp at hget
  obtain ⟨b, hb, hbatched⟩ := reconcilePages_ok he h hp htarget hmax target (Nat.zero_le _) (Nat.le_add_left _ _) hempty
  unfold reconcile
  rw [hb]
  change Except.ok (digest (.arr (b.counts.sorted.entries.map rowJson))) = _
  rw [(hbatched.counts.equiv (tallies_tallied _)).sorted_eq]
  rfl

end

/-! ### A store rebuilt from the log -/

omit [LinearOrder τ] in
/-- What a read returns is a page of the log. -/
theorem genuine_slice (lineage : String) (history : ℕ → List (Entry τ)) (p after upper : ℕ) {limit : ℕ}
    (hlimit : limit ≤ 200) : Genuine lineage history
      ⟨lineage, p, (history p).length, slice (history p) after upper limit⟩ := by
  refine ⟨rfl, Nat.le_refl _, ?_, ?_⟩
  · change slice (history p) after upper limit <:+: (history p).take (history p).length
    rw [take_length]
    exact slice_piece _ _ _ _
  · exact (length_take_le _ _).trans hlimit

/-- The page that comes next is counted as a whole. -/
theorem apply_next (he : e.Lawful) (h : LogOk e clock.toClock log history) {s : Aggregate τ} (hseq : s.seq ≤ target)
    (hs : Counts log.lineage s ((history s.partition).take s.seq)) :
    ∃ s', s.apply e clock ⟨log.lineage, s.partition, (history s.partition).length,
        slice (history s.partition) s.seq target 200⟩ = .ok s' ∧
      Counts log.lineage s' ((history s.partition).take (min target (s.seq + 200))) ∧ Onward s s' := by
  have hsnd := slice_snd (history s.partition) hseq 200
  obtain ⟨post, hpost⟩ := take_prefix (min target (s.seq + 200)) (history s.partition)
  rw [← hsnd] at hpost
  have hnumbered : Numbered 1 ((history s.partition).take s.seq ++
      slice (history s.partition) s.seq target 200 ++ post) := by
    rw [hpost]
    exact h.numbered s.partition
  have hnodup : (((history s.partition).take s.seq ++ slice (history s.partition) s.seq target 200 ++
      post).map fun entry => entry.event.eventId).Nodup := by
    rw [hpost]
    exact h.nodup s.partition
  obtain ⟨s', hs', hcounts, -, honward⟩ := applyEntries_next clock hnumbered hnodup hs.bind rfl
  rw [hsnd] at hcounts
  have hlineage : s.lineage = "" ∨ s.lineage = log.lineage := by
    obtain hl | ⟨hl, -⟩ := hs.lineage
    · exact .inr hl
    · exact .inl hl
  refine ⟨s', ?_, hcounts, honward.partition, honward.lateness, honward.watermark⟩
  have hprepare := prepareBatch_genuine he h (genuine_slice log.lineage history s.partition s.seq target (le_refl 200))
  unfold Aggregate.apply
  rw [hprepare]
  simp only [require, hlineage, if_true, bind, Except.bind]
  exact hs'

theorem replayPages_ok (he : e.Lawful) (h : LogOk e clock.toClock log history) (fuel : ℕ) :
    ∀ {s : Aggregate τ}, s.partition < log.partitions → target ≤ (history s.partition).length →
      s.seq ≤ target → target < s.seq + fuel →
      Counts log.lineage s ((history s.partition).take s.seq) →
      ∃ s', replayPages e clock log target fuel s = .ok s' ∧
        Counts log.lineage s' ((history s.partition).take target) := by
  induction fuel with
  | zero =>
    intro s _ _ hseq hfuel
    omega
  | succ fuel ih =>
    intro s hp htarget hseq hfuel hs
    obtain ⟨s₁, hs₁, hcounts, honward⟩ := apply_next he h hseq hs
    have hseq₁ : s₁.seq = min target (s.seq + 200) := by
      rw [hcounts.seq, length_take]
      omega
    unfold replayPages
    rw [remotePage_ok he h hp hseq htarget]
    change ∃ s', (s.apply e clock _ >>= _) = _ ∧ _
    rw [hs₁]
    change ∃ s', (if target ≤ s₁.seq then pure s₁ else _) = _ ∧ _
    by_cases hdone : target ≤ s₁.seq
    · rw [if_pos hdone]
      have hmin : min target (s.seq + 200) = target := by omega
      rw [hmin] at hcounts
      exact ⟨s₁, rfl, hcounts⟩
    · rw [if_neg hdone]
      have hless : s.seq < s₁.seq := by omega
      rw [← honward.partition] at hcounts hp htarget ⊢
      rw [← hseq₁] at hcounts
      obtain ⟨s₂, hs₂, h₂⟩ := ih hp htarget (by omega) (by omega) hcounts
      refine ⟨s₂, ?_, h₂⟩
      simp only [require, hless, if_true, bind, Except.bind]
      exact hs₂

/-- A fresh store into which the log is replayed has the same digest. -/
theorem replay_digest (he : e.Lawful) (h : LogOk e clock.toClock log history) (lateness : ℕ)
    (hp : p < log.partitions) (htarget : target ≤ (history p).length) {maxEvents maxRows : ℕ}
    (hevents : target ≤ maxEvents) (hmax : (tallied ((history p).take target)).entries.length ≤ maxRows) :
    replay e clock log (some target) maxEvents maxRows (Aggregate.init clock p lateness) =
      .ok (digestOf ((history p).take target)) := by
  have hhead : (log.heads[p]?).getD 0 = (history p).length := by
    rw [h.heads p hp]
    rfl
  have hinit := counts_init clock p lateness log.lineage
  obtain ⟨s, hs, hcounts⟩ := replayPages_ok (s := Aggregate.init clock p lateness) he h (target + 1) hp
    htarget (Nat.zero_le _) (by change target < 0 + (target + 1); omega) hinit
  have haudit := audit_digest hcounts hmax
  unfold replay
  change (require (p < log.partitions) _ >>= _) = _
  have hmin : min target (history p).length = target := Nat.min_eq_left htarget
  have hp' : (Aggregate.init clock p lateness : Aggregate τ).partition = p := rfl
  have hseq : (Aggregate.init clock p lateness : Aggregate τ).seq = 0 := rfl
  simp only [hp', hseq, hhead, hmin, require, hp, Nat.zero_le, Nat.sub_zero, hevents, if_true, bind, Except.bind, hs]
  exact haudit

end SystemDesign.AdClick
