import SystemDesign.Proximity.System

/-!
Publications are daily snapshots and replicas follow them.

The fence of the write transaction compares the head and the draft revision. As the revision
counts the accepted mutations, an unforced generation holds just what had been accepted while
the head was of an earlier day (`Sound.generations`).
-/

namespace SystemDesign.Proximity

open List
open Function (update update_eq_self update_of_ne update_self)

variable {τ : Type} [LinearOrder τ] {c : Setup τ}

/-! ### Drafts are valid -/

def ValidDrafts (drafts : Dict String Draft) : Prop :=
  ∀ id draft, drafts.get? id = some draft → isIdentifier id = true ∧ draft.body.Valid

theorem Change.Valid.apply {change : Change} (h : change.Valid) {drafts : Dict String Draft}
    (hdrafts : ValidDrafts drafts) : ValidDrafts (change.apply drafts) := by
  intro id draft hget
  unfold Change.apply at hget
  split at hget
  · rename_i id' owner body
    obtain ⟨hid, hbody⟩ := h
    obtain ⟨rfl, rfl⟩ | ⟨-, hget⟩ := Dict.get?_set_cases hget
    · refine ⟨hid, ?_⟩
      split
      · exact hbody
      · exact hbody
    · exact hdrafts id draft hget
  · split at hget
    · rename_i draft' hold
      obtain ⟨rfl, rfl⟩ | ⟨-, hget⟩ := Dict.get?_set_cases hget
      · exact hdrafts _ draft' hold
      · exact hdrafts id draft hget
    · exact hdrafts id draft hget

theorem validDrafts_draftsOf {mutations : List Mutation} (h : ∀ m ∈ mutations, m.change.Valid) :
    ValidDrafts (draftsOf mutations) := by
  induction mutations with
  | nil => exact fun _ _ hget => nomatch hget
  | cons m mutations ih =>
    obtain ⟨hm, hrest⟩ := forall_mem_cons.mp h
    exact hm.apply (ih hrest)

/-- The rows of a generation pass the checks of an import. -/
theorem mapM_validItem {rows : List Row} (h : ∀ row ∈ rows, isIdentifier row.1 = true ∧ row.2.Valid) :
    (rows.map fun row => (row.1, row.2.body)).mapM validItem = .ok rows := by
  induction rows with
  | nil => rfl
  | cons row rows ih =>
    obtain ⟨⟨hid, hvalid⟩, hrest⟩ := forall_mem_cons.mp h
    have hitem : validItem (row.1, row.2.body) = .ok row := by
      unfold validItem
      rw [(require_eq_ok (u := ())).mpr hid, Py.bind_ok, hvalid]
      rfl
    rw [map_cons, mapM_cons, hitem, ih hrest]
    rfl

theorem undeleted_valid {drafts : Dict String Draft} (h : ValidDrafts drafts) :
    ∀ row ∈ undeleted drafts, isIdentifier row.1 = true ∧ row.2.Valid := by
  intro row hrow
  obtain ⟨entry, hentry, rfl⟩ := mem_map.mp hrow
  have hget := Dict.mem_entries.mp (mem_filter.mp hentry).1
  rw [drafts.sorted_equiv] at hget
  exact h _ _ hget

/-! ### The invariant -/

variable (c) in
/-- A generation is what a committed state of the drafts gives, and an unforced one has
nothing accepted on its day or later. -/
structure Generation.Sound (s : State τ) (g : Generation) : Prop where
  source : g.source <:+ s.mutations
  content : g.content = prepare c s.primary.shards (undeleted (draftsOf g.source))
  daily : g.forced = false → ∀ m ∈ g.source, m.day < g.head.day
  lineage : g.head.lineage = s.primary.head.lineage
  day : g.head.day ≤ s.primary.head.day
  version : g.head.version ≤ s.primary.head.version

/-- One version after another, and no day before the last one. -/
def Generation.Follows (g g' : Generation) : Prop := g.head.version = g'.head.version + 1 ∧ g'.head.day ≤ g.head.day

def Snapshot.Of (snapshot : Snapshot) (g : Generation) : Prop :=
  snapshot.head = g.head ∧ snapshot.businesses = g.content.publicRows.map fun row => (row.1, row.2.body)

variable (c) in
def Replica.Holds (r : Replica) (g : Generation) : Prop :=
  r.head = g.head ∧ r.content = prepare c r.shards g.content.publicRows

variable (c) in
structure Sound (s : State τ) : Prop where
  day : s.primary.head.day ≤ c.dayOf s.now
  drafts : s.primary.drafts = draftsOf s.mutations
  revision : s.primary.draftRevision = s.mutations.length
  valid : ∀ m ∈ s.mutations, m.change.Valid
  accepted : ∀ m ∈ s.mutations, m.day ≤ s.primary.head.day
  prepared : ∀ pid force left day head revision content,
    s.publishers.get? pid = some ⟨force, .prepared left day head revision content⟩ →
      s.seen pid <:+ s.mutations ∧ (s.seen pid).length = revision ∧
        content = prepare c s.primary.shards (undeleted (draftsOf (s.seen pid)))
  current : ∃ g rest, s.generations = g :: rest ∧ g.head = s.primary.head ∧ g.content = s.primary.content
  follows : s.generations.IsChain Generation.Follows
  generations : ∀ g ∈ s.generations, g.Sound c s
  exports : ∀ snapshot ∈ s.exports, ∃ g ∈ s.generations, snapshot.Of g
  replicas : ∀ r, (s.replicas r).initialized = true → ∃ g ∈ s.generations, (s.replicas r).Holds c g

variable {s : State τ}

theorem Generation.Sound.mono {s' : State τ} {g : Generation} (h : g.Sound c s)
    (hmutations : s.mutations <:+ s'.mutations) (hshards : s'.primary.shards = s.primary.shards)
    (hlineage : s'.primary.head.lineage = s.primary.head.lineage) (hday : s.primary.head.day ≤ s'.primary.head.day)
    (hversion : s.primary.head.version ≤ s'.primary.head.version) : g.Sound c s' where
  source := h.source.trans hmutations
  content := hshards ▸ h.content
  daily := h.daily
  lineage := h.lineage.trans hlineage.symm
  day := h.day.trans hday
  version := h.version.trans hversion

theorem Sound.init (h : Fresh c s) : Sound c s := by
  have hmutations := h.mutations
  have hgenerations := h.generations
  constructor
  · exact h.day.le
  · rw [h.drafts, hmutations]
    rfl
  · rw [h.revision, hmutations]
    rfl
  · rw [hmutations]
    exact fun _ hm => nomatch hm
  · rw [hmutations]
    exact fun _ hm => nomatch hm
  · intro pid force left day head revision content hget
    rw [h.publishers] at hget
    cases hget
  · exact ⟨_, [], hgenerations, rfl, rfl⟩
  · rw [hgenerations]
    exact List.IsChain.singleton _
  · intro g hg
    rw [hgenerations, mem_singleton] at hg
    subst hg
    exact ⟨nil_suffix, h.content, fun _ _ hm => (nomatch hm), rfl, Nat.le_refl _, Nat.le_refl _⟩
  · rw [h.exports]
    exact fun _ hx => nomatch hx
  · intro r hr
    rw [h.replicas r] at hr
    cases hr

/-! ### Steps -/

theorem Sound.accept {s : State τ} (h : Sound c s) {readings : Readings τ} (hguard : s.now ≤ readings.guard)
    (hexpiry : readings.guard ≤ readings.expiry) (heffective : readings.expiry ≤ readings.effective)
    (hcreated : readings.effective ≤ readings.created) (request : Request) (n : ℕ) :
    Sound c (s.accept c readings request n) := by
  have hnow : c.dayOf s.now ≤ c.dayOf readings.created :=
    c.dayOf_mono (hguard.trans (hexpiry.trans (heffective.trans hcreated)))
  obtain ⟨hday, hdrafts, hrevision, hvalid, haccepted, hprepared, hcurrent, hfollows, hgenerations, hexports, hreplicas⟩ := h
  unfold State.accept
  split
  · exact ⟨hday.trans hnow, hdrafts, hrevision, hvalid, haccepted, hprepared, hcurrent, hfollows,
      fun g hg => (hgenerations g hg).mono (suffix_refl _) rfl rfl (Nat.le_refl _) (Nat.le_refl _),
      hexports, hreplicas⟩
  · rename_i response primary hresult
    obtain ⟨-, hhead, hcontent, hshards, hsame, hsame'⟩ := mutate_ok c hresult
    constructor
    · exact hhead ▸ hday.trans hnow
    · exact hsame.trans hdrafts
    · exact hsame'.trans hrevision
    · exact hvalid
    · exact hhead ▸ haccepted
    · exact hshards ▸ hprepared
    · exact hhead ▸ hcontent ▸ hcurrent
    · exact hfollows
    · exact fun g hg => (hgenerations g hg).mono (suffix_refl _) hshards (congrArg Head.lineage hhead)
        (hhead ▸ Nat.le_refl _) (hhead ▸ Nat.le_refl _)
    · exact hexports
    · exact hreplicas
  · rename_i response change primary hresult
    obtain ⟨hpublished, hhead, hcontent, hshards, hchange, happlied, hcounted⟩ := mutate_ok c hresult
    constructor
    · exact hhead ▸ hday.trans hnow
    · change primary.drafts = change.apply (draftsOf s.mutations)
      rw [happlied, hdrafts]
    · change primary.draftRevision = s.mutations.length + 1
      rw [hcounted, hrevision]
    · exact forall_mem_cons.mpr ⟨hchange, hvalid⟩
    · rw [hhead]
      exact forall_mem_cons.mpr ⟨hpublished, haccepted⟩
    · intro pid force left day head revision content hget
      obtain ⟨hseen, hlength, hprepare⟩ := hprepared pid force left day head revision content hget
      exact ⟨hseen.trans (suffix_cons _ _), hlength, hshards ▸ hprepare⟩
    · exact hhead ▸ hcontent ▸ hcurrent
    · exact hfollows
    · exact fun g hg => (hgenerations g hg).mono (suffix_cons _ _) hshards (congrArg Head.lineage hhead)
        (hhead ▸ Nat.le_refl _) (hhead ▸ Nat.le_refl _)
    · exact hexports
    · exact hreplicas

/-- A publisher that does not come to hold rows keeps the invariant. -/
theorem Sound.settle {s : State τ} (h : Sound c s) (pid : ℕ) (publisher : Publisher) (outcome : Outcome)
    (houtcome : ∀ left day head revision content, outcome = .goesOn (.prepared left day head revision content) →
      s.seen pid <:+ s.mutations ∧ (s.seen pid).length = revision ∧
        content = prepare c s.primary.shards (undeleted (draftsOf (s.seen pid)))) :
    Sound c (s.settle pid publisher outcome) := by
  refine ⟨h.day, h.drafts, h.revision, h.valid, h.accepted, ?_, h.current, h.follows,
    fun g hg => (h.generations g hg).mono (suffix_refl _) rfl rfl (Nat.le_refl _) (Nat.le_refl _),
    h.exports, h.replicas⟩
  intro pid' force left day head revision content hget
  unfold State.settle at hget
  dsimp only at hget
  split at hget
  · rename_i phase
    obtain ⟨rfl, heq⟩ | ⟨-, hget⟩ := Dict.get?_set_cases hget
    · cases heq
      exact houtcome left day head revision content rfl
    · exact h.prepared pid' force left day head revision content hget
  · rw [Dict.get?_erase] at hget
    split at hget
    · cases hget
    · exact h.prepared pid' force left day head revision content hget

theorem Sound.clock (h : Sound c s) {now : τ} (hnow : s.now ≤ now) : Sound c { s with now := now } :=
  ⟨h.day.trans (c.dayOf_mono hnow), h.drafts, h.revision, h.valid, h.accepted, h.prepared, h.current, h.follows,
    fun g hg => (h.generations g hg).mono (suffix_refl _) rfl rfl (Nat.le_refl _) (Nat.le_refl _),
    h.exports, h.replicas⟩

/-- The write transaction of a publication. -/
theorem Sound.record {s : State τ} (h : Sound c s) {now : τ} (hnow : s.now ≤ now) {pid : ℕ} {force fails : Bool}
    {left day : ℕ} {head : Head} {revision : ℕ} {content : Content}
    (hget : s.publishers.get? pid = some ⟨force, .prepared left day head revision content⟩) :
    Sound c ({ s with now := now }.record pid force
      (install c now force fails left day head revision content s.primary).2) := by
  obtain hsame | ⟨-, hunforced, -, hfence, hday, hinstalled⟩ :=
    install_cases c now force fails left day head revision content s.primary
  · rw [hsame]
    unfold State.record
    rw [if_pos rfl]
    exact h.clock hnow
  · rw [hinstalled]
    have hne : ¬ (⟨s.primary.head.version + 1, day, s.primary.head.lineage⟩ : Head) = s.primary.head := by
      intro heq
      exact Nat.succ_ne_self _ (congrArg Head.version heq)
    unfold State.record
    dsimp only
    rw [if_neg hne]
    obtain ⟨hseen, hlength, hprepare⟩ := h.prepared pid force left day head revision content hget
    -- nothing was accepted since the drafts were read
    have hall : s.seen pid = s.mutations := hseen.eq_of_length (by rw [hlength, ← hfence, h.revision])
    have hgrows : s.primary.head.day ≤ day := hday ▸ h.day.trans (c.dayOf_mono hnow)
    have hold : ∀ g ∈ s.generations, g.Sound c s := h.generations
    constructor
    · exact hday.le
    · exact h.drafts
    · exact h.revision
    · exact h.valid
    · exact fun m hm => (h.accepted m hm).trans hgrows
    · exact h.prepared
    · exact ⟨_, _, rfl, rfl, rfl⟩
    · obtain ⟨g, rest, hgenerations, hhead, -⟩ := h.current
      have hchain := h.follows
      rw [hgenerations] at hchain ⊢
      refine List.IsChain.cons_cons ⟨?_, ?_⟩ hchain
      · rw [hhead]
      · rw [hhead]
        exact hgrows
    · refine forall_mem_cons.mpr ⟨⟨?_, hprepare, ?_, rfl, Nat.le_refl _, Nat.le_refl _⟩, fun g hg =>
        (hold g hg).mono (suffix_refl _) rfl rfl hgrows (Nat.le_succ _)⟩
      · exact hseen
      · intro hforce m hm
        rw [hall] at hm
        exact (h.accepted m hm).trans_lt (hunforced hforce)
    · intro snapshot hsnapshot
      obtain ⟨g, hg, hof⟩ := h.exports snapshot hsnapshot
      exact ⟨g, mem_cons_of_mem _ hg, hof⟩
    · intro r hr
      obtain ⟨g, hg, hholds⟩ := h.replicas r hr
      exact ⟨g, mem_cons_of_mem _ hg, hholds⟩

theorem Sound.advance {s : State τ} (h : Sound c s) (pid : ℕ) {now : τ} (hnow : s.now ≤ now) (fails : Bool) :
    Sound c (s.advance c pid now fails) := by
  unfold State.advance
  split
  · exact h
  · rename_i publisher hget
    split
    · apply (h.clock hnow).settle
      intro left day head revision content heq
      unfold checkDay at heq
      split at heq
      · cases heq
      · cases heq
    · rename_i left _
      apply (h.clock hnow).settle
      intro left' day head revision content heq
      cases left with
      | zero => cases heq
      | succ left => cases heq
    · rename_i left day hphase
      have hread : Sound c { s with now := now, seen := update s.seen pid s.mutations } := by
        have hclock := h.clock hnow
        refine ⟨hclock.day, h.drafts, h.revision, h.valid, h.accepted, ?_, h.current, h.follows,
          fun g hg => (h.generations g hg).mono (suffix_refl _) rfl rfl (Nat.le_refl _) (Nat.le_refl _),
          h.exports, h.replicas⟩
        intro pid' force left' day' head revision content hget'
        have hne : pid' ≠ pid := by
          rintro rfl
          cases hget.symm.trans hget'
          cases hphase
        have hother : update s.seen pid s.mutations pid' = s.seen pid' := update_of_ne hne _ _
        change update s.seen pid s.mutations pid' <:+ s.mutations ∧
          (update s.seen pid s.mutations pid').length = revision ∧ content = prepare c s.primary.shards
            (undeleted (draftsOf (update s.seen pid s.mutations pid')))
        rw [hother]
        exact h.prepared pid' force left' day' head revision content hget'
      apply hread.settle
      intro left' day' head revision content heq
      unfold readDrafts at heq
      split at heq
      · cases heq
      · cases heq
        change update s.seen pid s.mutations pid <:+ s.mutations ∧
          (update s.seen pid s.mutations pid).length = s.primary.draftRevision ∧
            prepare c s.primary.shards (undeleted s.primary.drafts) = prepare c s.primary.shards
              (undeleted (draftsOf (update s.seen pid s.mutations pid)))
        rw [update_self]
        refine ⟨suffix_refl _, h.revision.symm, ?_⟩
        rw [h.drafts]
    · rename_i left day head revision content hphase
      have hphase' : s.publishers.get? pid = some ⟨publisher.force, .prepared left day head revision content⟩ := by
        rw [hget, ← hphase]
      apply (h.record hnow hphase').settle
      intro left' day' head' revision' content' heq
      unfold install at heq
      split_ifs at heq
      · cases heq
      · cases heq

/-- A replica that imports what was exported holds a generation of the primary. -/
theorem Sound.receive {s : State τ} (h : Sound c s) (r : ℕ) {snapshot : Snapshot} (hsnapshot : snapshot ∈ s.exports) :
    Sound c (s.receive c r snapshot) := by
  unfold State.receive
  split
  · exact h
  · rename_i installed replica hresult
    refine ⟨h.day, h.drafts, h.revision, h.valid, h.accepted, h.prepared, h.current, h.follows,
      fun g hg => (h.generations g hg).mono (suffix_refl _) rfl rfl (Nat.le_refl _) (Nat.le_refl _),
      h.exports, ?_⟩
    intro r' hr'
    by_cases hsame : r' = r
    · subst hsame
      change ∃ g ∈ s.generations, (update s.replicas r' replica r').Holds c g
      rw [update_self]
      obtain ⟨businesses, hbusinesses, ⟨-, rfl, hinitialized, -⟩ | ⟨-, rfl, -⟩⟩ := importSnapshot_ok c hresult
      · exact h.replicas r' hinitialized
      · obtain ⟨g, hg, hhead, hrows⟩ := h.exports snapshot hsnapshot
        have hvalid : ∀ row ∈ g.content.publicRows, isIdentifier row.1 = true ∧ row.2.Valid := by
          rw [(h.generations g hg).content]
          refine undeleted_valid (validDrafts_draftsOf fun m hm => h.valid m ?_)
          exact (h.generations g hg).source.subset hm
        rw [hrows, mapM_validItem hvalid] at hbusinesses
        cases hbusinesses
        exact ⟨g, hg, hhead, rfl⟩
    · change ∃ g ∈ s.generations, (update s.replicas r replica r').Holds c g
      rw [update_of_ne hsame]
      apply h.replicas r'
      change (update s.replicas r replica r').initialized = true at hr'
      rw [update_of_ne hsame] at hr'
      exact hr'

theorem Sound.step {s' : State τ} (h : Sound c s) (hstep : s.Step c s') : Sound c s' := by
  cases hstep with
  | mutate readings request n hguard hexpiry heffective hcreated =>
    exact h.accept hguard hexpiry heffective hcreated request n
  | publish pid force =>
    have hsettled := h.settle pid ⟨force, .checking⟩ (.goesOn (if force then .starting 3 else .checking)) (by
        intro left day head revision content heq
        split at heq
        · cases heq
        · cases heq)
    exact hsettled
  | advance pid now fails hnow => exact h.advance pid hnow fails
  | lost pid =>
    have hsettled := h.settle pid ⟨false, .checking⟩ (.returned s.primary.head) nofun
    exact hsettled
  | exported =>
    refine ⟨h.day, h.drafts, h.revision, h.valid, h.accepted, h.prepared, h.current, h.follows,
      fun g hg => (h.generations g hg).mono (suffix_refl _) rfl rfl (Nat.le_refl _) (Nat.le_refl _), ?_, h.replicas⟩
    refine forall_mem_cons.mpr ⟨?_, h.exports⟩
    obtain ⟨g, rest, hgenerations, hhead, hcontent⟩ := h.current
    have hmem : g ∈ s.generations := by
      rw [hgenerations]
      exact mem_cons_self ..
    refine ⟨g, hmem, hhead.symm, ?_⟩
    rw [hcontent]
    rfl
  | imported r snapshot hsnapshot => exact h.receive r hsnapshot
  | clock now hnow => exact h.clock hnow

theorem reachable_sound (h : (system c).Reachable s) : Sound c s :=
  h.invariant (P := Sound c) (fun _ hstart => Sound.init hstart) fun _ _ _ hs hstep => hs.step hstep

/-! ### What holds in every run -/

/-- A step installs the next version or leaves what is published; a replica that has a
generation moves to a later one of the lineage or stays as it is. -/
structure Moves (s s' : State τ) : Prop where
  primary : s'.primary.head = s.primary.head ∧ s'.primary.content = s.primary.content ∧ s'.generations = s.generations ∨
    ∃ g, s'.generations = g :: s.generations ∧ g.head = s'.primary.head ∧
      s'.primary.head.version = s.primary.head.version + 1
  replicas : ∀ r, s'.replicas r = s.replicas r ∨ ((s.replicas r).initialized = true →
    (s'.replicas r).head.lineage = (s.replicas r).head.lineage ∧
      (s.replicas r).head.version < (s'.replicas r).head.version)

theorem advance_moves (s : State τ) (pid : ℕ) (now : τ) (fails : Bool) :
    Moves s (s.advance c pid now fails) ∧ (fails = true → (s.advance c pid now fails).primary = s.primary) := by
  have hstays : ∀ s' : State τ, s'.primary = s.primary → s'.generations = s.generations →
      s'.replicas = s.replicas → Moves s s' ∧ (fails = true → s'.primary = s.primary) := by
    intro s' hprimary hgenerations hreplicas
    refine ⟨⟨.inl ⟨?_, ?_, hgenerations⟩, fun r => .inl (congrFun hreplicas r)⟩, fun _ => hprimary⟩
    · rw [hprimary]
    · rw [hprimary]
  unfold State.advance
  split
  · exact hstays s rfl rfl rfl
  · rename_i publisher _
    split
    · exact hstays _ rfl rfl rfl
    · exact hstays _ rfl rfl rfl
    · exact hstays _ rfl rfl rfl
    · rename_i left day head revision content _
      dsimp only
      obtain hsame | ⟨hfails, -, -, -, -, hinstalled⟩ :=
        install_cases c now publisher.force fails left day head revision content s.primary
      · rw [hsame]
        have hrecord : State.record pid publisher.force s.primary { s with now := now } = { s with now := now } :=
          if_pos rfl
        rw [hrecord]
        exact hstays _ rfl rfl rfl
      · rw [hinstalled]
        have hne : ¬ (⟨s.primary.head.version + 1, day, s.primary.head.lineage⟩ : Head) = s.primary.head := by
          intro heq
          exact Nat.succ_ne_self _ (congrArg Head.version heq)
        unfold State.record
        dsimp only
        rw [if_neg hne]
        refine ⟨⟨.inr ⟨_, rfl, rfl, rfl⟩, fun _ => .inl rfl⟩, fun h => ?_⟩
        rw [hfails] at h
        cases h

theorem receive_moves (s : State τ) (r : ℕ) (snapshot : Snapshot) : Moves s (s.receive c r snapshot) ∧
      ((∀ replica, importSnapshot c snapshot (s.replicas r) ≠ .ok (true, replica)) → s.receive c r snapshot = s) := by
  unfold State.receive
  split
  · exact ⟨⟨.inl ⟨rfl, rfl, rfl⟩, fun _ => .inl rfl⟩, fun _ => rfl⟩
  · rename_i installed replica hresult
    have hother : ∀ r', r' ≠ r → update s.replicas r replica r' = s.replicas r' := fun r' hne => update_of_ne hne _ _
    obtain ⟨businesses, -, ⟨rfl, rfl, -, -⟩ | ⟨rfl, rfl, hlater⟩⟩ := importSnapshot_ok c hresult
    · rw [update_eq_self]
      exact ⟨⟨.inl ⟨rfl, rfl, rfl⟩, fun _ => .inl rfl⟩, fun _ => rfl⟩
    · refine ⟨⟨.inl ⟨rfl, rfl, rfl⟩, fun r' => ?_⟩, fun h => absurd hresult (h _)⟩
      by_cases hr : r' = r
      · subst hr
        right
        intro hinitialized
        change (update s.replicas r' _ r').head.lineage = _ ∧
          _ < (update s.replicas r' _ r').head.version
        rw [update_self]
        obtain ⟨hlineage, hversion, -⟩ := hlater hinitialized
        exact ⟨hlineage, hversion⟩
      · exact .inl (hother r' hr)

theorem step_moves {s' : State τ} (hstep : s.Step c s') : Moves s s' := by
  cases hstep with
  | mutate readings request n =>
    unfold State.accept
    split
    · exact ⟨.inl ⟨rfl, rfl, rfl⟩, fun _ => .inl rfl⟩
    · rename_i hresult
      obtain ⟨-, hhead, hcontent, -⟩ := mutate_ok c hresult
      exact ⟨.inl ⟨hhead, hcontent, rfl⟩, fun _ => .inl rfl⟩
    · rename_i hresult
      obtain ⟨-, hhead, hcontent, -⟩ := mutate_ok c hresult
      exact ⟨.inl ⟨hhead, hcontent, rfl⟩, fun _ => .inl rfl⟩
  | publish pid force => exact ⟨.inl ⟨rfl, rfl, rfl⟩, fun _ => .inl rfl⟩
  | advance pid now fails hnow => exact (advance_moves s pid now fails).1
  | lost pid => exact ⟨.inl ⟨rfl, rfl, rfl⟩, fun _ => .inl rfl⟩
  | exported => exact ⟨.inl ⟨rfl, rfl, rfl⟩, fun _ => .inl rfl⟩
  | imported r snapshot hsnapshot => exact (receive_moves s r snapshot).1
  | clock now hnow => exact ⟨.inl ⟨rfl, rfl, rfl⟩, fun _ => .inl rfl⟩

theorem Sound.version_unique (h : Sound c s) {g g' : Generation} (hg : g ∈ s.generations) (hg' : g' ∈ s.generations)
    (hsame : g.head.version = g'.head.version) : g = g' := by
  have htrans : IsTrans Generation fun g g' => g'.head.version < g.head.version := ⟨fun _ _ _ hab hbc => hbc.trans hab⟩
  have hpairwise : s.generations.Pairwise fun g g' => g'.head.version < g.head.version :=
    (h.follows.imp fun g g' hfollows => hfollows.1 ▸ Nat.lt_succ_self _).pairwise
  have hnodup : (s.generations.map fun g => g.head.version).Nodup := pairwise_map.mpr (hpairwise.imp fun hlt => hlt.ne')
  exact inj_on_of_nodup_map hnodup hg hg' hsame

/-- The drafts are the accepted mutations, and every generation is what a prefix of them
gives, an unforced one with none of its day or later. Versions go up by one with each
generation, what fails or is lost leaves what is published, and a replica holds the one
generation of the primary whose version it reports. -/
theorem publication_consistent {s : State τ} (h : (system c).Reachable s) :
    s.primary.drafts = draftsOf s.mutations ∧
      (∃ g rest, s.generations = g :: rest ∧ g.head = s.primary.head ∧ g.content = s.primary.content) ∧
      s.generations.IsChain Generation.Follows ∧
      (∀ g ∈ s.generations, g.source <:+ s.mutations ∧
        g.content = prepare c s.primary.shards (undeleted (draftsOf g.source)) ∧
        (g.forced = false → ∀ m ∈ g.source, m.day < g.head.day)) ∧
      (∀ s', s.Step c s' → Moves s s') ∧
      (∀ pid now, (s.advance c pid now true).primary = s.primary) ∧
      (∀ r, (s.replicas r).initialized = true → ∃ g ∈ s.generations, (s.replicas r).Holds c g ∧
        ∀ g' ∈ s.generations, g'.head.version = (s.replicas r).head.version → g' = g) ∧
      ∀ r snapshot, (∀ replica, importSnapshot c snapshot (s.replicas r) ≠ .ok (true, replica)) →
        s.receive c r snapshot = s := by
  have hs := reachable_sound h
  refine ⟨hs.drafts, hs.current, hs.follows, ?_, fun _ hstep => step_moves hstep,
    fun pid now => (advance_moves s pid now true).2 rfl, ?_, fun r snapshot => (receive_moves s r snapshot).2⟩
  · intro g hg
    obtain ⟨hsource, hcontent, hdaily, -⟩ := hs.generations g hg
    exact ⟨hsource, hcontent, hdaily⟩
  · intro r hr
    obtain ⟨g, hg, hholds⟩ := hs.replicas r hr
    refine ⟨g, hg, hholds, fun g' hg' hsame => hs.version_unique hg' hg ?_⟩
    rw [hsame, hholds.1]

/-! ### A run -/

/-- Seconds for a clock, and no texts. -/
def seconds : Setup ℕ where
  dayOf t := t / 86400
  dayOf_mono _ _ h := Nat.div_le_div_right h
  weekBefore t := t - 604800
  fingerprint method _ _ := method
  digest _ := ""
  uuid _ := "0"
  uuid_identifier _ := by decide
  isLineage _ := true

def empty : State ℕ where
  now := 0
  primary := ⟨⟨0, 0, "lineage"⟩, 0, 4, .empty, prepare seconds 4 [], .empty⟩
  publishers := .empty
  replicas _ := ⟨false, ⟨0, 0, "replica"⟩, 4, prepare seconds 4 []⟩
  exports := []
  mutations := []
  generations := [⟨⟨0, 0, "lineage"⟩, false, prepare seconds 4 [], []⟩]
  seen _ := []

def cafe : Request where
  owner := "owner"
  method := "POST"
  identifier := none
  body := ((Dict.empty.set "name" (.text "cafe")).set "latitude" (.number 0)).set "longitude" (.number 0)
  key := "key"

/-- A business of the first day is published on the second. -/
def installed : State ℕ :=
  let s := empty.accept seconds ⟨1, 2, 3, 4⟩ cafe 0
  let s : State ℕ := { s with publishers := s.publishers.set 0 ⟨false, .checking⟩ }
  (((s.advance seconds 0 86400 false).advance seconds 0 86401 false).advance seconds 0 86402 false).advance
    seconds 0 86403 false

/-- A replica imports it. -/
def published : State ℕ :=
  { installed with exports := exportSnapshot installed.primary :: installed.exports }.receive seconds 0
    (exportSnapshot installed.primary)

theorem published_reachable : (system seconds).Reachable published := by
  have hstart : (system seconds).Reachable empty :=
    .start ⟨rfl, rfl, rfl, rfl, rfl, rfl, rfl, fun _ => rfl, rfl, rfl, rfl⟩
  have haccepted := hstart.step (.mutate empty ⟨1, 2, 3, 4⟩ cafe 0 (by decide) (by decide) (by decide) (by decide))
  have hpublishing := haccepted.step (.publish _ 0 false)
  have hchecked := hpublishing.step (.advance _ 0 86400 false (by decide))
  have htargeted := hchecked.step (.advance _ 0 86401 false (by decide))
  have hread := htargeted.step (.advance _ 0 86402 false (by decide))
  have hinstalled : (system seconds).Reachable installed := hread.step (.advance _ 0 86403 false (by decide))
  have hexported := hinstalled.step (.exported installed)
  exact hexported.step (.imported _ 0 (exportSnapshot installed.primary) (mem_cons_self ..))

theorem publication_consistent_published : (published.replicas 0).initialized = true ∧
    published.primary.head = ⟨1, 1, "lineage"⟩ ∧
    ∃ g ∈ published.generations, (published.replicas 0).Holds seconds g := by
  have hinitialized : (published.replicas 0).initialized = true := by decide +kernel
  obtain ⟨-, -, -, -, -, -, hreplicas, -⟩ := publication_consistent published_reachable
  obtain ⟨g, hg, hholds, -⟩ := hreplicas 0 hinitialized
  exact ⟨hinitialized, by decide +kernel, g, hg, hholds⟩

end SystemDesign.Proximity
