import SystemDesign.AdClick.History

/-!
An aggregate store counts the first events of its partition's history.

`Counts s done`: the store stands after the events `done`. A page of the history, new,
old or overlapping, leaves a store that stands at least as far (`apply_counts`).
-/

namespace SystemDesign.AdClick

open List hiding le_refl
open Dict

variable {τ : Type} [LinearOrder τ] {e : Settings} {clock : WorkerClock τ}

/-- How many events have a key. -/
def tally (events : List (Entry τ)) (k : Key) : ℕ := (events.map fun entry => entry.event.key).count k

omit [LinearOrder τ] in
theorem tally_snoc (events : List (Entry τ)) (entry : Entry τ) (k : Key) :
    tally (events ++ [entry]) k = tally events k + if entry.event.key = k then 1 else 0 := by
  unfold tally
  rw [map_append, count_append, map_singleton, count_singleton]
  by_cases h : entry.event.key = k
  · simp [h]
  · simp [h]

/-- A dictionary of counts: keys without events have no entry. -/
def Tallies (counts : Dict Key ℕ) (events : List (Entry τ)) : Prop :=
  ∀ k, counts.get? k = if tally events k = 0 then none else some (tally events k)

section
omit [LinearOrder τ]

theorem Tallies.getD {counts : Dict Key ℕ} {events : List (Entry τ)} (h : Tallies counts events)
    (k : Key) : (counts.get? k).getD 0 = tally events k := by
  rw [h k]
  split
  · rename_i hzero
    rw [hzero]
    rfl
  · rfl

theorem Tallies.add {counts : Dict Key ℕ} {events : List (Entry τ)} (h : Tallies counts events) (entry : Entry τ) :
    Tallies (counts.set entry.event.key (tally events entry.event.key + 1)) (events ++ [entry]) := by
  intro k
  rw [tally_snoc]
  by_cases hk : entry.event.key = k
  · subst hk
    rw [get?_set_self, if_pos rfl, if_neg (Nat.succ_ne_zero _)]
  · rw [get?_set_of_ne _ (Ne.symm hk), if_neg hk, Nat.add_zero]
    exact h k

end

/-! ### A store -/

structure Counts (lineage : String) (s : Aggregate τ) (done : List (Entry τ)) : Prop where
  seq : s.seq = done.length
  floor : s.floor = 1
  lineage : s.lineage = lineage ∨ s.lineage = "" ∧ done = []
  seen : ∀ id hash, s.seen.get? id = some hash ↔ ∃ entry ∈ done, entry.event.eventId = id ∧ entry.hash = hash
  counts : Tallies (s.buckets.mapVal Bucket.count) done
  positions : ∀ entry ∈ done, s.positions.get? entry.seq = some (entry.event.eventId, entry.hash, entry.accepted)

variable (clock) in
omit [LinearOrder τ] in
theorem counts_init (partition lateness : ℕ) (lineage : String) :
    Counts lineage (Aggregate.init clock partition lateness : Aggregate τ) [] := by
  refine ⟨rfl, rfl, .inr ⟨rfl, rfl⟩, ?_, ?_, ?_⟩
  · intro id hash
    simp [Aggregate.init]
  · intro k
    simp [Aggregate.init, get?_mapVal, tally]
  · rintro _ ⟨⟩

omit [LinearOrder τ] in
theorem mapVal_bump (buckets : Dict Key Bucket) (key k : Key) : ((bump buckets key).mapVal Bucket.count).get? k =
      ((buckets.mapVal Bucket.count).set key (((buckets.mapVal Bucket.count).get? key).getD 0 + 1)).get? k := by
  unfold bump
  rw [get?_mapVal]
  cases hget : buckets.get? key with
  | none =>
    by_cases hk : k = key
    · subst hk
      simp [get?_mapVal, hget]
    · simp only [get?_set_of_ne _ hk, get?_mapVal]
  | some b =>
    by_cases hk : k = key
    · subst hk
      simp [get?_mapVal, hget]
    · simp only [get?_set_of_ne _ hk, get?_mapVal]

/-! ### Pages of a history -/

variable (e clock) in
/-- An entry that passes the checks of `prepare_batch`. -/
structure EntryOk (entry : Entry τ) : Prop where
  normal : ∃ body, normalizeEvent e body = .ok entry.event
  hash : digest entry.event.toJson = entry.hash
  accepted : clock.valid entry.accepted = true
  click : entry.event.clickTimestamp ≤ clock.floor entry.accepted + 30
  low : 1 ≤ entry.seq
  high : entry.seq ≤ maxPosition

variable {history : ℕ → List (Entry τ)}

omit [LinearOrder τ] in
theorem LogOk.entry {log : EventLog τ} (h : LogOk e clock.toClock log history) {p : ℕ} {entry : Entry τ}
    (hentry : entry ∈ history p) : EntryOk e clock entry := by
  obtain ⟨row, -, hrow⟩ := mapM_mem (mapM_eq_ok.mpr (h.rows p)) hentry
  obtain ⟨-, -, -, hhash, haccepted, hclick, hlow, hhigh, hnormal⟩ := parse_spec hrow
  exact ⟨hnormal, hhash, haccepted, hclick, hlow, hhigh⟩

/-- A page that was read at some time. -/
structure Genuine (lineage : String) (history : ℕ → List (Entry τ)) (page : Page τ) : Prop where
  lineage : page.lineage = lineage
  head : page.head ≤ (history page.partition).length
  entries : page.entries <:+: (history page.partition).take page.head
  length : page.entries.length ≤ 200

variable {lineage : String}

section
omit [LinearOrder τ]

theorem Genuine.grows {history' : ℕ → List (Entry τ)} {page : Page τ} (h : Genuine lineage history page)
    (hgrows : Grows history history') : Genuine lineage history' page := by
  have hbegins := hgrows page.partition
  refine ⟨h.lineage, h.head.trans hbegins.length_le, ?_, h.length⟩
  obtain ⟨more, hmore⟩ := hbegins
  rw [← hmore, take_append_of_le_length h.head]
  exact h.entries

theorem isFingerprint_digest (value : Json) : isFingerprint (digest value) = true := by
  obtain ⟨hlength, hhex⟩ := Sha256.hexdigest_shape value.encode
  rw [isFingerprint, Bool.and_eq_true, all_eq_true]
  exact ⟨decide_eq_true hlength, fun c hc => decide_eq_true (hhex c hc)⟩

end

variable {entries : List (Entry τ)}

section
omit [LinearOrder τ]

theorem prepareEntries_ok (he : e.Lawful) {head : ℕ} (start : ℕ)
    (hok : ∀ entry ∈ entries, EntryOk e clock entry ∧ entry.seq ≤ head) (hnumbered : Numbered start entries)
    {previous : Option ℕ} (hprevious : ∀ p, previous = some p → start = p + 1) :
    prepareEntries e clock.toClock head previous entries = .ok entries := by
  induction entries generalizing start previous with
  | nil => rfl
  | cons entry entries ih =>
    obtain ⟨⟨⟨body, hbody⟩, hhash, haccepted, hclick, hlow, hhigh⟩, hhead⟩ := hok entry mem_cons_self
    have hseqs := hnumbered
    unfold Numbered at hseqs
    rw [map_cons, length_cons, range'_succ, List.cons.injEq] at hseqs
    have hnormal : normalizeEvent e entry.event.toJson = .ok entry.event :=
      event_toJson he hbody (event_spec hbody).2.2.2.2.1
    have hprev : (previous.all fun p => decide (entry.seq = p + 1)) = true := by
      cases previous with
      | none => rfl
      | some p =>
        rw [Option.all_some, decide_eq_true_eq, hseqs.1]
        exact hprevious p rfl
    have hfinger : isFingerprint entry.hash = true := hhash ▸ isFingerprint_digest _
    have hone : prepareEntry e clock.toClock head previous entry = .ok entry := by
      unfold prepareEntry
      simp only [require, hlow, hhigh, hhead, hprev, haccepted, hnormal, hclick, hfinger, hhash, and_self,
        if_true, bind, Except.bind, pure, Except.pure]
    have hrest : prepareEntries e clock.toClock head (some entry.seq) entries = .ok entries := by
      apply ih (start + 1) (fun x hx => hok x (mem_cons_of_mem _ hx)) hseqs.2
      intro p hp
      rw [← Option.some.inj hp, hseqs.1]
    unfold prepareEntries
    rw [hone, hrest]
    rfl

theorem numbered_piece {history : List (Entry τ)} (h : Numbered 1 history) (hpiece : entries <:+: history) :
    ∃ start, Numbered start entries := by
  obtain ⟨pre, post, rfl⟩ := hpiece
  have hdrop := (h.drop pre.length).take entries.length
  rw [append_assoc, drop_left' rfl, take_left' rfl] at hdrop
  exact ⟨_, hdrop⟩

theorem prepareBatch_genuine (he : e.Lawful) {log : EventLog τ} {history : ℕ → List (Entry τ)}
    (h : LogOk e clock.toClock log history) {page : Page τ} (hpage : Genuine log.lineage history page) :
    prepareBatch e clock.toClock page page.partition = .ok page := by
  have hmax : page.head ≤ maxPosition := hpage.head.trans (h.length _)
  have htext : isText page.lineage = true := hpage.lineage ▸ h.lineage
  obtain ⟨start, hnumbered⟩ := numbered_piece ((h.numbered page.partition).take page.head) hpage.entries
  have hentries : prepareEntries e clock.toClock page.head none page.entries = .ok page.entries := by
    refine prepareEntries_ok he start (fun entry hentry => ?_) hnumbered fun p hp => ?_
    · have hmem := hpage.entries.subset hentry
      refine ⟨h.entry (mem_of_mem_take hmem), ?_⟩
      have hle := ((h.numbered page.partition).take page.head).mem_le hmem
      rw [length_take] at hle
      omega
    · cases hp
  unfold prepareBatch
  simp only [require, htext, hmax, hpage.length, hentries, if_true, bind, Except.bind, pure, Except.pure]

end

/-! ### Applying -/

/-- A store with more of the history: it stands further and its watermark is no lower. -/
structure Onward (s s' : Aggregate τ) : Prop where
  partition : s'.partition = s.partition
  lateness : s'.lateness = s.lateness
  watermark : s.watermark ≤ s'.watermark

theorem Onward.refl (s : Aggregate τ) : Onward s s := ⟨rfl, rfl, le_refl _⟩

theorem Onward.trans {s s' s'' : Aggregate τ} (h : Onward s s') (h' : Onward s' s'') : Onward s s'' :=
  ⟨h'.partition.trans h.partition, h'.lateness.trans h.lateness, h.watermark.trans h'.watermark⟩

variable {s : Aggregate τ} {done : List (Entry τ)}

/-- An entry that was counted is compared and left alone. -/
theorem Counts.old (h : Counts lineage s done) (hnumbered : Numbered 1 done) {entry : Entry τ} (hentry : entry ∈ done) :
    s.applyEntry clock entry = .ok s := by
  have hseen : s.seen.get? entry.event.eventId = some entry.hash := (h.seen _ _).mpr ⟨entry, hentry, rfl, rfl⟩
  have hle : entry.seq ≤ s.seq := by
    have := (hnumbered.mem_le hentry).2
    rw [h.seq]
    omega
  have hverify : s.verify entry = .ok () := by
    unfold Aggregate.verify
    rw [h.positions entry hentry]
    exact if_pos rfl
  unfold Aggregate.applyEntry
  rw [hseen, if_pos hle, hverify]
  simp [require, bind, Except.bind, pure, Except.pure]

variable (clock) in
/-- The next entry of the history is counted. -/
theorem Counts.next {lineage : String} {s : Aggregate τ} {done : List (Entry τ)}
    (h : Counts lineage s done) (hlineage : s.lineage = lineage) {entry : Entry τ}
    (hseq : entry.seq = s.seq + 1) (hnew : ∀ x ∈ done, x.event.eventId ≠ entry.event.eventId)
    (hnumbered : Numbered 1 done) :
    ∃ s', s.applyEntry clock entry = .ok s' ∧ Counts lineage s' (done ++ [entry]) ∧
      s'.lineage = lineage ∧ Onward s s' := by
  have hnone : s.seen.get? entry.event.eventId = none := by
    cases hget : s.seen.get? entry.event.eventId with
    | none => rfl
    | some hash =>
      obtain ⟨x, hx, hid, -⟩ := (h.seen _ _).mp hget
      exact absurd hid (hnew x hx)
  have hgt : ¬ entry.seq ≤ s.seq := by omega
  refine ⟨(s.count clock entry.event entry.hash).advance clock entry, ?_, ?_, ?_, ?_⟩
  · unfold Aggregate.applyEntry
    rw [hnone, if_neg hgt]
    simp [require, hseq, bind, Except.bind, pure, Except.pure]
  · unfold Aggregate.count
    rw [hnone]
    refine ⟨?_, h.floor, .inl hlineage, ?_, ?_, ?_⟩
    · change entry.seq = _
      rw [hseq, h.seq, length_append, length_singleton]
    · intro id hash
      change (s.seen.set entry.event.eventId entry.hash).get? id = some hash ↔ _
      simp only [mem_append, mem_singleton]
      by_cases hid : id = entry.event.eventId
      · subst hid
        rw [get?_set_self]
        constructor
        · rintro heq
          exact ⟨entry, .inr rfl, rfl, Option.some.inj heq⟩
        · rintro ⟨x, hx | rfl, hxid, hxhash⟩
          · exact absurd hxid (hnew x hx)
          · rw [hxhash]
      · rw [get?_set_of_ne _ hid, h.seen]
        constructor
        · rintro ⟨x, hx, hrest⟩
          exact ⟨x, .inl hx, hrest⟩
        · rintro ⟨x, hx | rfl, hxid, hxhash⟩
          · exact ⟨x, hx, hxid, hxhash⟩
          · exact absurd hxid.symm hid
    · intro k
      change ((bump s.buckets entry.event.key).mapVal Bucket.count).get? k = _
      rw [mapVal_bump, h.counts.getD]
      exact h.counts.add entry k
    · intro x hx
      change (s.positions.set entry.seq _).get? x.seq = _
      rw [mem_append, mem_singleton] at hx
      obtain hx | rfl := hx
      · have hlt := (hnumbered.mem_le hx).2
        rw [get?_set_of_ne]
        · exact h.positions x hx
        · have := h.seq
          omega
      · exact get?_set_self _ _ _
  · unfold Aggregate.count
    rw [hnone]
    exact hlineage
  · unfold Aggregate.count
    rw [hnone]
    exact ⟨rfl, rfl, le_max_left _ _⟩

/-- The entries of a page, each one counted before, next or refused. -/
theorem applyEntries_counts {history : List (Entry τ)} (hnumbered : Numbered 1 history)
    (hnodup : (history.map fun entry => entry.event.eventId).Nodup) (hentries : ∀ entry ∈ entries, entry ∈ history)
    {s' : Aggregate τ} (h : Counts lineage s done) (hlineage : s.lineage = lineage) (hdone : done <+: history)
    (happly : s.applyEntries clock entries = .ok s') :
    ∃ done', Counts lineage s' done' ∧ done <+: done' ∧ done' <+: history ∧ Onward s s' := by
  induction entries generalizing s done with
  | nil =>
    obtain rfl := Except.ok.inj happly
    exact ⟨done, h, prefix_refl _, hdone, Onward.refl _⟩
  | cons entry entries ih =>
    obtain ⟨middle, hone, hrest⟩ := of_bind happly
    have hrestmem := fun x hx => hentries x (mem_cons_of_mem _ hx)
    obtain ⟨rest, rfl⟩ := hdone
    have hdonenum : Numbered 1 done := by
      have := hnumbered.take done.length
      rw [take_left' rfl] at this
      exact this
    obtain ⟨pre, post, hsplit, hseq⟩ := hnumbered.get (hentries entry mem_cons_self)
    by_cases hle : entry.seq ≤ s.seq
    · -- counted before: the entry is among the first ones
      have hmem : entry ∈ done := by
        have hlt : pre.length < done.length := by
          have := h.seq
          omega
        have hget : (done ++ rest)[pre.length]? = some entry := by
          rw [hsplit]
          simp
        rw [getElem?_append_left hlt] at hget
        exact mem_of_getElem? hget
      rw [h.old hdonenum hmem] at hone
      obtain rfl := Except.ok.inj hone
      exact ih hrestmem h hlineage (prefix_append _ _) hrest
    · have hnext : entry.seq = s.seq + 1 := by
        unfold Aggregate.applyEntry at hone
        replace hone := of_check hone
        rw [if_neg hle] at hone
        obtain ⟨_, hgap, -⟩ := of_bind hone
        exact require_eq_ok.mp hgap
      have hpre : pre = done := by
        have hlen : pre.length = done.length := by
          have := h.seq
          omega
        exact (append_inj hsplit.symm hlen).1
      subst hpre
      have hnew : ∀ x ∈ pre, x.event.eventId ≠ entry.event.eventId := by
        intro x hx heq
        rw [hsplit, map_append, map_cons] at hnodup
        have hdisjoint := (nodup_append.mp hnodup).2.2
        exact hdisjoint _ (mem_map_of_mem hx) _ mem_cons_self heq
      obtain ⟨s₁, hs₁, hcounts, hlineage₁, honward⟩ := h.next clock hlineage hnext hnew hdonenum
      rw [hs₁] at hone
      obtain rfl := Except.ok.inj hone
      have hdone₁ : pre ++ [entry] <+: pre ++ rest := by
        rw [hsplit]
        exact ⟨post, by simp⟩
      obtain ⟨done', hc, hp, hh, ho⟩ := ih hrestmem hcounts hlineage₁ hdone₁ hrest
      exact ⟨done', hc, (prefix_append _ _).trans hp, hh, honward.trans ho⟩

variable (clock) in
/-- The entries that come next are all counted. -/
theorem applyEntries_next {lineage : String} {entries post : List (Entry τ)} {s : Aggregate τ}
    {done : List (Entry τ)} (hnumbered : Numbered 1 (done ++ entries ++ post))
    (hnodup : ((done ++ entries ++ post).map fun entry => entry.event.eventId).Nodup)
    (h : Counts lineage s done) (hlineage : s.lineage = lineage) :
    ∃ s', s.applyEntries clock entries = .ok s' ∧ Counts lineage s' (done ++ entries) ∧
      s'.lineage = lineage ∧ Onward s s' := by
  induction entries generalizing s done with
  | nil =>
    rw [append_nil]
    exact ⟨s, rfl, h, hlineage, Onward.refl s⟩
  | cons entry entries ih =>
    have hassoc : done ++ entry :: entries ++ post = (done ++ [entry]) ++ entries ++ post := by simp
    have hdonenum : Numbered 1 done := by
      have := hnumbered.take done.length
      rw [append_assoc, take_left' rfl] at this
      exact this
    have hseq : entry.seq = s.seq + 1 := by
      have htail := hnumbered.drop done.length
      rw [append_assoc, drop_left' rfl] at htail
      unfold Numbered at htail
      rw [cons_append, map_cons, length_cons, range'_succ, List.cons.injEq] at htail
      rw [htail.1, h.seq, Nat.add_comm]
    have hnew : ∀ x ∈ done, x.event.eventId ≠ entry.event.eventId := by
      intro x hx heq
      rw [append_assoc, map_append, cons_append, map_cons] at hnodup
      have hdisjoint := (nodup_append.mp hnodup).2.2
      exact hdisjoint _ (mem_map_of_mem hx) _ mem_cons_self heq
    obtain ⟨s₁, hs₁, hcounts, hlineage₁, honward⟩ := h.next clock hlineage hseq hnew hdonenum
    rw [hassoc] at hnumbered hnodup
    obtain ⟨s₂, hs₂, hcounts₂, hlineage₂, honward₂⟩ := ih hnumbered hnodup hcounts hlineage₁
    refine ⟨s₂, ?_, ?_, hlineage₂, honward.trans honward₂⟩
    · unfold Aggregate.applyEntries
      rw [hs₁]
      exact hs₂
    · rw [append_assoc, singleton_append] at hcounts₂
      exact hcounts₂

omit [LinearOrder τ] in
theorem Counts.bind (h : Counts lineage s done) : Counts lineage { s with lineage := lineage } done :=
  ⟨h.seq, h.floor, .inl rfl, h.seen, h.counts, h.positions⟩

/-- Applying a page of the log, whichever it is. -/
theorem apply_counts (he : e.Lawful) {log : EventLog τ} (h : LogOk e clock.toClock log history) {page : Page τ}
    (hpage : Genuine log.lineage history page) {s' : Aggregate τ} (hs : Counts log.lineage s done)
    (hdone : done <+: history s.partition) (happly : s.apply e clock page = .ok s') :
    ∃ done', Counts log.lineage s' done' ∧ done <+: done' ∧ done' <+: history s'.partition ∧ Onward s s' := by
  obtain ⟨batch, hbatch, happly⟩ := of_bind happly
  replace happly := of_check happly
  have hpartition : page.partition = s.partition := by
    unfold prepareBatch at hbatch
    obtain ⟨_, hok, -⟩ := of_bind hbatch
    exact require_eq_ok.mp hok
  rw [← hpartition, prepareBatch_genuine he h hpage] at hbatch
  obtain rfl := Except.ok.inj hbatch
  rw [hpage.lineage] at happly
  have hmem : ∀ entry ∈ page.entries, entry ∈ history page.partition := fun entry hentry =>
    mem_of_mem_take (hpage.entries.subset hentry)
  obtain ⟨done', hcounts, hbegins, hhistory, honward⟩ := applyEntries_counts (h.numbered page.partition)
    (h.nodup page.partition) hmem hs.bind rfl (hpartition ▸ hdone) happly
  have hsame : s'.partition = page.partition := honward.partition.trans hpartition.symm
  refine ⟨done', hcounts, hbegins, hsame ▸ hhistory, ?_⟩
  exact ⟨honward.partition, honward.lateness, honward.watermark⟩

end SystemDesign.AdClick
