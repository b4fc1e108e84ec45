import SystemDesign.ScaleFromZero.Leadership

/-!
What fail-over keeps.

In every run the holder changes with the epoch, the cursor does not go back, and only who holds the lease at
its checks commits. Where the history stays one, what returned is in the log of every later holder: its
cursor is published, a holder's log is at least as long as the published cursor, and logs of one
history agree where both reach.
-/

namespace SystemDesign.ScaleFromZero

open List

variable {c : LeaseClock} {s s' : System} {tidy : Prop}

/-! ### Rows of updates -/

variable {log : List Row} {result : Record}

theorem rowOf_append {log' : List Row} {row : Row} (h : rowOf result log = some row) (hgrows : log <+: log') :
    rowOf result log' = some row := by
  obtain ⟨rest, rfl⟩ := hgrows
  rw [rowOf, find?_append, ← rowOf, h]
  rfl

theorem rowOf_new {row : Row} (h : row.change.record = result) : ∃ row', rowOf result (log ++ [row]) = some row' := by
  rw [← Option.isSome_iff_exists, rowOf, find?_isSome]
  exact ⟨row, by simp, by simpa using h⟩

variable {store : Store}

/-- A row that is found stands at its sequence number. -/
theorem Store.Folded.rowOf_at (h : store.Folded) {row : Row} (hrow : rowOf result store.changes = some row) :
    store.changes[row.change.seq - 1]? = some row ∧ row.change.seq ≤ store.changes.length := by
  obtain ⟨k, hk⟩ := mem_iff_getElem?.mp (mem_of_find?_eq_some hrow)
  have hseq := h.seq_eq hk
  have hlt := (List.getElem?_eq_some_iff.mp hk).1
  rw [hseq, Nat.add_sub_cancel]
  exact ⟨hk, hlt⟩

variable {store' : Store} {user : String} {body : UpdateBody}

theorem update_requests {published : Option ℕ} (h : store.update user body = .ok (store', result, published)) :
    (published = none → ∃ key hash, store.requests.get? key = some (hash, result)) ∧
      ∀ key e, store'.requests.get? key = some e → store.requests.get? key = some e ∨ e.2 = result ∧ published ≠ none := by
  unfold Store.update at h
  replace h := of_check h
  replace h := of_check h
  replace h := of_check h
  split at h
  · rename_i hash result' hrequest
    replace h := of_check h
    cases h
    exact ⟨fun _ => ⟨_, hash, hrequest⟩, fun _ _ hstored => .inl hstored⟩
  · unfold Store.write at h
    replace h := of_check h
    replace h := of_check h
    cases h
    refine ⟨nofun, fun key e hstored => ?_⟩
    obtain ⟨-, rfl⟩ | ⟨-, hold⟩ := Dict.get?_set_cases hstored
    · exact .inr ⟨rfl, nofun⟩
    · exact .inl hold

theorem applyFeed_requests {feed : Feed} {n : ℕ} (h : store.applyFeed feed = .ok (store', n)) :
    store'.requests = store.requests := by
  unfold Store.applyFeed at h
  replace h := of_check h
  replace h := of_check h
  replace h := of_check h
  replace h := of_check h
  replace h := of_check h
  replace h := of_check h
  replace h := of_check h
  replace h := of_check h
  obtain ⟨written, hwritten, h⟩ := of_bind h
  replace h := of_check h
  cases h
  refine foldlM_ok (I := fun s _ => s.requests = store.requests) (fun s s' done row hs hrow => ?_) _ [] rfl hwritten
  unfold Store.replicateRow at hrow
  replace hrow := of_check hrow
  split at hrow
  · replace hrow := of_check hrow
    cases hrow
    exact hs
  · replace hrow := of_check hrow
    replace hrow := of_check hrow
    cases hrow
    exact hs

theorem Acts.grows {s s' : Cluster} (h : Acts s tidy s') (hs : s.Sound) (i : ℕ) : s.logs i <+: s'.logs i := by
  have hput : ∀ j store, (s.stores j).changes <+: store.changes →
      s.logs i <+: Cluster.logs { s with stores := Function.update s.stores j store } i := by
    intro j store hgrows
    rw [Cluster.logs_put, Function.update_apply]
    split
    · rename_i hsame
      rw [hsame]
      exact hgrows
    · exact prefix_refl _
  cases h with
  | update j user body hupdate =>
    obtain ⟨-, rfl⟩ | ⟨row, happends, -⟩ := update_cases hupdate
    · exact hput j _ (prefix_refl _)
    · exact hput j _ (happends.changes ▸ prefix_append _ _)
  | changes => exact prefix_refl _
  | applyFeed j source feed hfeed happly =>
    obtain ⟨-, -, hchanges⟩ := applyFeed_ok (hs.folded j) happly
    exact hput j _ (hchanges ▸ prefix_append _ _)
  | replicate j row hreplicate =>
    obtain rfl | happends := replicate_cases hreplicate
    · exact hput j _ (prefix_refl _)
    · exact hput j _ (happends.changes ▸ prefix_append _ _)

/-! ### The fence -/

/-- The fence after somebody took or kept the lease. -/
structure Fence.Moves (i cursor : ℕ) (f f' : Fence) : Prop where
  holder : f'.holder = some i
  cursor : f'.cursor = cursor
  forward : f.cursor ≤ f'.cursor
  epoch : (f.holder = none → f.epoch = 0) → f'.holder ≠ f.holder → f.epoch < f'.epoch

variable {cursor i : ℕ}

theorem Fence.heartbeat_moves {f f' : Fence} {lease : ℕ} {now : ℚ} (h : f.heartbeat c i cursor lease now = .ok f') :
    f.Moves i cursor f' := by
  unfold Fence.heartbeat at h
  replace h := of_check h
  replace h := of_check h
  replace h := of_check h
  obtain ⟨_, hown, h⟩ := of_bind h
  obtain ⟨_, hcursor, h⟩ := of_bind h
  cases h
  have hown := require_eq_ok.mp hown
  refine ⟨rfl, rfl, require_eq_ok.mp hcursor, fun hzero hchange => ?_⟩
  have hnone : f.holder = none := by
    by_contra hsome
    have hme : f.holder = some i := by simpa [Fence.foreign, hsome] using hown
    exact hchange hme.symm
  simp [hnone, hzero hnone]

theorem Fence.promote_moves {f f' : Fence} {lease : ℕ} {now : ℚ} (h : f.promote c i cursor lease now = .ok f') :
    f.Moves i cursor f' := by
  unfold Fence.promote at h
  replace h := of_check h
  replace h := of_check h
  obtain ⟨_, hcursor, h⟩ := of_bind h
  replace h := of_check h
  cases h
  refine ⟨rfl, rfl, require_eq_ok.mp hcursor, fun hzero hchange => ?_⟩
  have hnot : f.held i now = false := by
    have hother : f.holder ≠ some i := fun hsame => hchange hsame.symm
    simp [Fence.held, hother]
  simp only [hnot]
  split
  · rename_i hfirst
    simp [hfirst.2]
  · simp

theorem Fence.publishIf_cases {draft draft' : Fence} {published : Option ℕ} {now : ℚ}
    (h : draft.publishIf c i published now = .ok draft') : (published = none ∧ draft' = draft) ∨
      ∃ cursor, published = some cursor ∧ draft.held i now = true ∧ draft'.holder = draft.holder ∧ draft'.epoch = draft.epoch ∧
        draft'.cursor = cursor ∧ draft.cursor ≤ draft'.cursor := by
  cases published with
  | none =>
    cases h
    exact .inl ⟨rfl, rfl⟩
  | some cursor =>
    simp only [Fence.publishIf, Option.elim, Fence.publish] at h
    replace h := of_check h
    obtain ⟨_, hheld, h⟩ := of_bind h
    obtain ⟨_, hcursor, h⟩ := of_bind h
    cases h
    exact .inr ⟨cursor, rfl, require_eq_ok.mp hheld, rfl, rfl, rfl, require_eq_ok.mp hcursor⟩

/-- A new row is published as the length of the log. -/
theorem published_length (hfolded : store.Folded) (h : store.update user body = .ok (store', result, some cursor)) :
    cursor = store'.changes.length := by
  obtain ⟨hnone, -⟩ | ⟨row, happends, -, hseq⟩ := update_cases h
  · cases hnone
  · cases hseq
    rw [happends.seq, hfolded.lastSeq_eq, happends.changes, length_append, length_singleton]

/-! ### What holds in every run -/

/-- A transaction of the fence, beside the fence and the log of its store. -/
structure Writer.Fits (w : Writer) (fence : Fence) (log : List Row) : Prop where
  holder : fence.holder = some w.store
  same : w.draft.holder = fence.holder ∧ w.draft.epoch = fence.epoch
  forward : fence.cursor ≤ w.draft.cursor
  reach : w.draft.cursor ≤ log.length
  result : ∀ result, w.result = some result → ∃ row, rowOf result log = some row

structure System.Sound (s : System) : Prop where
  cluster : s.cluster.Sound
  unheld : s.fence.holder = none → s.fence.epoch = 0
  reach : ∀ i, s.fence.holder = some i → s.fence.cursor ≤ (s.log i).length
  writer : ∀ w, s.writer = some w → w.Fits s.fence (s.log w.store)
  requests : ∀ i key e, (s.cluster.stores i).requests.get? key = some e → ∃ row, rowOf e.2 (s.log i) = some row

variable {fence : Fence}

theorem Writer.Fits.grow {w : Writer} {log' : List Row} (h : w.Fits fence log) (hgrows : log <+: log') :
    w.Fits fence log' where
  holder := h.holder
  same := h.same
  forward := h.forward
  reach := h.reach.trans (by exact_mod_cast hgrows.length_le)
  result result hresult := by
    obtain ⟨row, hrow⟩ := h.result result hresult
    exact ⟨row, rowOf_append hrow hgrows⟩

/-- Logs that grow, with requests whose rows are in them. -/
theorem System.Sound.grow (h : s.Sound) {cluster : Cluster} (hcluster : cluster.Sound) (hgrows : ∀ i, s.log i <+: cluster.logs i)
    (hrequests : ∀ i key e, (cluster.stores i).requests.get? key = some e →
      (s.cluster.stores i).requests.get? key = some e ∨ ∃ row, rowOf e.2 (cluster.logs i) = some row) :
    System.Sound { s with cluster := cluster } where
  cluster := hcluster
  unheld := h.unheld
  reach i hholder := (h.reach i hholder).trans (by exact_mod_cast (hgrows i).length_le)
  writer w hwriter := (h.writer w hwriter).grow (hgrows w.store)
  requests i key e hstored := by
    obtain hold | hnew := hrequests i key e hstored
    · obtain ⟨row, hrow⟩ := h.requests i key e hold
      exact ⟨row, rowOf_append hrow (hgrows i)⟩
    · exact hnew

theorem System.Sound.write (h : s.Sound) {w : Writer} (hw : w.Fits s.fence (s.log w.store)) : System.Sound { s with writer := some w } where
  cluster := h.cluster
  unheld := h.unheld
  reach := h.reach
  writer w' hwriter := by
    cases hwriter
    exact hw
  requests := h.requests

/-- The transaction of the fence is over, and the fence is as somebody left it. -/
theorem System.Sound.free (h : s.Sound) (hholder : fence.holder = some i) (hreach : fence.cursor ≤ (s.log i).length)
    (acked : List Row) : System.Sound { s with fence := fence, writer := none, acked := acked } where
  cluster := h.cluster
  unheld hnone := by
    rw [hholder] at hnone
    cases hnone
  reach j hj := by
    rw [hholder] at hj
    cases hj
    exact hreach
  writer _ hwriter := by cases hwriter
  requests := h.requests

theorem System.Sound.move (h : s.Sound) (hfree : s.writer = none) (hcursor : cursor ≤ (s.log i).length)
    (hmoves : s.fence.Moves i cursor fence) : System.Sound { s with fence := fence } := by
  have hfreed := h.free hmoves.holder (by rw [hmoves.cursor]; exact_mod_cast hcursor) s.acked
  rw [← hfree] at hfreed
  exact hfreed

theorem Leads.sound (hstep : Leads c s tidy s') (h : s.Sound) : s'.Sound := by
  cases hstep with
  | tick now hnow => exact ⟨h.cluster, h.unheld, h.reach, h.writer, h.requests⟩
  | changes i after hfeed =>
    have hacts := Acts.changes i after hfeed
    exact h.grow (hacts.sound h.cluster) (hacts.grows h.cluster) fun _ _ _ hstored => .inl hstored
  | applyFeed j source feed hfeed happly =>
    have hacts := Acts.applyFeed j source feed hfeed happly
    refine h.grow (hacts.sound h.cluster) (hacts.grows h.cluster) fun i key e hstored => .inl ?_
    simp only [Function.update_apply] at hstored
    split at hstored
    · rename_i hsame
      rw [applyFeed_requests happly] at hstored
      rw [hsame]
      exact hstored
    · exact hstored
  | heartbeat i cursor lease hfree hcursor hheartbeat => exact h.move hfree hcursor (Fence.heartbeat_moves hheartbeat)
  | promote i cursor lease hfree hcursor hpromote => exact h.move hfree hcursor (Fence.promote_moves hpromote)
  | writing i hfree hopen =>
    obtain ⟨_, hheld, hopen⟩ := of_bind hopen
    cases hopen
    have hholder : s.fence.holder = some i := by
      have hheld := require_eq_ok.mp hheld
      simp only [Fence.held, decide_eq_true_eq] at hheld
      exact hheld.1
    exact h.write ⟨hholder, ⟨rfl, rfl⟩, le_rfl, h.reach i hholder, nofun⟩
  | commit i draft hwriter user body hupdate hpublish =>
    rename_i store result published draft'
    have hfits := h.writer _ hwriter
    have hacts := Acts.update i user body hupdate
    have hgrows := hacts.grows h.cluster
    obtain ⟨hanswered, hrequests⟩ := update_requests hupdate
    have hlog : Cluster.logs { s.cluster with stores := Function.update s.cluster.stores i store } i = store.changes := by
      rw [Cluster.logs_put, Function.update_self]
    -- an answer that is not new stands in the log already
    have hrow : ∃ row, rowOf result store.changes = some row := by
      obtain ⟨hnone, rfl⟩ | ⟨row, happends, hrecord, -⟩ := update_cases hupdate
      · obtain ⟨key, hash, hstored⟩ := hanswered hnone
        exact h.requests i key _ hstored
      · rw [happends.changes]
        exact rowOf_new hrecord
    have hgrown : System.Sound { s with cluster := { s.cluster with stores := Function.update s.cluster.stores i store } } := by
      refine h.grow (hacts.sound h.cluster) hgrows fun j key e hstored => ?_
      simp only [Function.update_apply] at hstored
      split at hstored
      · rename_i hsame
        subst hsame
        obtain hold | ⟨hresult, -⟩ := hrequests key e hstored
        · exact .inl hold
        · rw [hlog, hresult]
          exact .inr hrow
      · exact .inl hstored
    have hfits' := hfits.grow (hgrows i)
    refine hgrown.write ?_
    refine ⟨hfits.holder, ?_, ?_, ?_, fun result' hresult => ?_⟩
    · obtain ⟨-, rfl⟩ | ⟨cursor, -, -, hholder, hepoch, -⟩ := Fence.publishIf_cases hpublish
      · exact hfits.same
      · exact ⟨hholder.trans hfits.same.1, hepoch.trans hfits.same.2⟩
    · obtain ⟨-, rfl⟩ | ⟨cursor, -, -, -, -, -, hforward⟩ := Fence.publishIf_cases hpublish
      · exact hfits.forward
      · exact hfits.forward.trans hforward
    · obtain ⟨-, rfl⟩ | ⟨cursor, hpublished, -, -, -, hcursor, -⟩ := Fence.publishIf_cases hpublish
      · exact hfits'.reach
      · subst hpublished
        change draft'.cursor ≤ ((Cluster.logs _ i).length : ℤ)
        rw [hcursor, hlog, published_length (h.cluster.folded i) hupdate]
    · cases hresult
      change ∃ row, rowOf result (Cluster.logs _ i) = some row
      rw [hlog]
      exact hrow
  | close i draft result hwriter =>
    have hfits := h.writer _ hwriter
    exact h.free (hfits.same.1.trans hfits.holder) hfits.reach _
  | abort => exact ⟨h.cluster, h.unheld, h.reach, nofun, h.requests⟩

theorem System.Fresh.sound (h : s.Fresh) : s.Sound := by
  obtain ⟨hcluster, hfence, hwriter, -⟩ := h
  refine ⟨hcluster.sound, ?_, ?_, ?_, ?_⟩
  · rw [hfence]
    exact fun _ => rfl
  · rw [hfence]
    exact nofun
  · rw [hwriter]
    exact nofun
  · intro i key e hstored
    rw [(hcluster.1 i).2.2.1] at hstored
    cases hstored

theorem leadership_sound (h : (leadership c).Reachable s) : s.Sound := by
  refine h.invariant (P := System.Sound) ?_ ?_
  · intro s hstart
    exact System.Fresh.sound hstart
  · rintro s s' - hs ⟨tidy, hstep⟩
    exact hstep.sound hs

/-! ### The lease -/

/-- The holder changes only with the epoch, and the cursor does not go back. -/
theorem Leads.forward (hstep : Leads c s tidy s') (h : s.Sound) :
    s.fence.cursor ≤ s'.fence.cursor ∧ (s'.fence.holder ≠ s.fence.holder → s.fence.epoch < s'.fence.epoch) := by
  cases hstep with
  | tick | changes | applyFeed | writing | commit | abort => exact ⟨le_rfl, fun hchange => absurd rfl hchange⟩
  | heartbeat i cursor lease hfree hcursor hheartbeat =>
    have hmoves := Fence.heartbeat_moves hheartbeat
    exact ⟨hmoves.forward, hmoves.epoch h.unheld⟩
  | promote i cursor lease hfree hcursor hpromote =>
    have hmoves := Fence.promote_moves hpromote
    exact ⟨hmoves.forward, hmoves.epoch h.unheld⟩
  | close i draft result hwriter =>
    have hfits := h.writer _ hwriter
    exact ⟨hfits.forward, fun hchange => absurd hfits.same.1 hchange⟩

/-- Who commits an update has the transaction of the fence, and held the lease when it published. -/
theorem Leads.commits (hstep : Leads c s tidy s') (h : s.Sound)
    (hrequests : (s'.cluster.stores i).requests ≠ (s.cluster.stores i).requests) :
    s.fence.holder = some i ∧ ∃ w, s.writer = some w ∧ w.store = i ∧ w.draft.held i s.clock = true := by
  cases hstep with
  | tick | changes | heartbeat | promote | writing | close | abort => exact absurd rfl hrequests
  | applyFeed j source feed hfeed happly =>
    refine absurd ?_ hrequests
    simp only [Function.update_apply]
    split
    · rename_i hsame
      rw [applyFeed_requests happly, hsame]
    · rfl
  | commit j draft hwriter user body hupdate hpublish =>
    have hsame : i = j := by
      by_contra hne
      exact hrequests (by simp [hne])
    subst hsame
    refine ⟨(h.writer _ hwriter).holder, _, hwriter, rfl, ?_⟩
    obtain ⟨hnone, -⟩ | ⟨cursor, -, hheld, -⟩ := Fence.publishIf_cases hpublish
    · obtain ⟨-, rfl⟩ | ⟨row, -, -, hseq⟩ := update_cases hupdate
      · exact absurd (by simp) hrequests
      · rw [hnone] at hseq
        cases hseq
    · exact hheld

/-! ### One history -/

structure System.OneHistory (s : System) : Prop where
  logs : Comparable s.cluster.logs
  result : ∀ w result row, s.writer = some w → w.result = some result → rowOf result (s.log w.store) = some row →
    (row.change.seq : ℤ) ≤ w.draft.cursor
  acked : ∀ row ∈ s.acked, (row.change.seq : ℤ) ≤ s.fence.cursor ∧ 1 ≤ row.change.seq ∧
    ∃ j, (s.log j)[row.change.seq - 1]? = some row

theorem System.OneHistory.grow (h : s.OneHistory) (hs : s.Sound) {cluster : Cluster} (hlogs : Comparable cluster.logs)
    (hgrows : ∀ i, s.log i <+: cluster.logs i) : System.OneHistory { s with cluster := cluster } where
  logs := hlogs
  result w result row hwriter hresult hrow := by
    obtain ⟨row', hrow'⟩ := (hs.writer w hwriter).result result hresult
    have hlater := rowOf_append hrow' (hgrows w.store)
    change rowOf result (cluster.logs w.store) = some row at hrow
    rw [hlater] at hrow
    cases hrow
    exact h.result w result _ hwriter hresult hrow'
  acked row hrow := by
    obtain ⟨hcursor, hpositive, j, hj⟩ := h.acked row hrow
    refine ⟨hcursor, hpositive, j, ?_⟩
    obtain ⟨rest, hrest⟩ := hgrows j
    change (cluster.logs j)[row.change.seq - 1]? = some row
    rw [← hrest, getElem?_append_left (List.getElem?_eq_some_iff.mp hj).1, hj]

theorem Leads.oneHistory (hstep : Leads c s tidy s') (htidy : tidy) (hs : s.Sound) (h : s.OneHistory) : s'.OneHistory := by
  have hforward := (hstep.forward hs).1
  cases hstep with
  | tick now hnow => exact ⟨h.logs, h.result, h.acked⟩
  | changes i after hfeed => exact h.grow hs h.logs fun _ => prefix_refl _
  | applyFeed j source feed hfeed happly =>
    have hacts := Acts.applyFeed j source feed hfeed happly
    exact h.grow hs (hacts.comparable trivial hs.cluster h.logs) (hacts.grows hs.cluster)
  | heartbeat i cursor lease hfree =>
    refine ⟨h.logs, h.result, fun row hrow => ?_⟩
    obtain ⟨hcursor, hrest⟩ := h.acked row hrow
    exact ⟨hcursor.trans hforward, hrest⟩
  | promote i cursor lease hfree =>
    refine ⟨h.logs, h.result, fun row hrow => ?_⟩
    obtain ⟨hcursor, hrest⟩ := h.acked row hrow
    exact ⟨hcursor.trans hforward, hrest⟩
  | writing i hfree hopen =>
    refine ⟨h.logs, fun w result row hwriter hresult hrow => ?_, h.acked⟩
    cases hwriter
    cases hresult
  | commit i draft hwriter user body hupdate hpublish =>
    rename_i store result published draft'
    have hacts := Acts.update i user body hupdate
    have hlog : Cluster.logs { s.cluster with stores := Function.update s.cluster.stores i store } i = store.changes := by
      rw [Cluster.logs_put, Function.update_self]
    have hgrown := h.grow hs (hacts.comparable htidy.1 hs.cluster h.logs) (hacts.grows hs.cluster)
    refine ⟨hgrown.logs, fun w result' row hw hresult hrow => ?_, hgrown.acked⟩
    cases hw
    cases hresult
    change rowOf result (Cluster.logs _ i) = some row at hrow
    rw [hlog] at hrow
    obtain ⟨rfl, rfl⟩ | ⟨cursor, rfl, -, -, -, hcursor, -⟩ := Fence.publishIf_cases hpublish
    · obtain ⟨-, rfl⟩ | ⟨row', -, -, hseq⟩ := update_cases hupdate
      · exact (htidy.2 rfl row hrow).trans (hs.writer _ hwriter).forward
      · cases hseq
    · have hfolded := (hacts.sound hs.cluster).folded i
      simp only [Function.update_self] at hfolded
      rw [hcursor, published_length (hs.cluster.folded i) hupdate]
      exact_mod_cast (hfolded.rowOf_at hrow).2
  | close i draft result hwriter =>
    have hfits := hs.writer _ hwriter
    refine ⟨h.logs, nofun, fun row hrow => ?_⟩
    rw [mem_append] at hrow
    obtain hrow | hrow := hrow
    · obtain ⟨hcursor, hrest⟩ := h.acked row hrow
      exact ⟨hcursor.trans hforward, hrest⟩
    · have hfound := Option.mem_toList.mp hrow
      obtain ⟨hat, -⟩ := (hs.cluster.folded i).rowOf_at hfound
      obtain ⟨k, hk⟩ := mem_iff_getElem?.mp (mem_of_find?_eq_some hfound)
      have hseq := (hs.cluster.folded i).seq_eq hk
      exact ⟨h.result _ _ row hwriter rfl hfound, by omega, i, hat⟩
  | abort => exact ⟨h.logs, nofun, h.acked⟩

theorem tidyLeadership_oneHistory (h : (tidyLeadership c).Reachable s) : s.Sound ∧ s.OneHistory := by
  refine h.invariant (P := fun s => s.Sound ∧ s.OneHistory) ?_ ?_
  · intro s hstart
    refine ⟨System.Fresh.sound hstart, ⟨fun i j => .inl ?_, ?_, ?_⟩⟩
    · rw [Cluster.logs, (hstart.1.1 i).2.1]
      exact nil_prefix
    · rw [hstart.2.2.1]
      intros
      contradiction
    · rw [hstart.2.2.2]
      intros
      contradiction
  · rintro s s' - ⟨hs, h⟩ ⟨tidy, hstep, htidy⟩
    exact ⟨hstep.sound hs, hstep.oneHistory htidy hs h⟩

/-- In every run the holder changes only with a larger epoch, the cursor does not go back, an update is committed only by
the one store that has the transaction of the fence and holds the lease, and an update that returns has its row in the
log of its store. In a run with one history, the row of every update that returned is in the log of every holder. -/
theorem failover_keeps :
    (∀ s, (leadership c).Reachable s → ∀ tidy s', Leads c s tidy s' →
      s.fence.cursor ≤ s'.fence.cursor ∧ (s'.fence.holder ≠ s.fence.holder → s.fence.epoch < s'.fence.epoch) ∧
      (∀ i, (s'.cluster.stores i).requests ≠ (s.cluster.stores i).requests →
        s.fence.holder = some i ∧ ∃ w, s.writer = some w ∧ w.store = i ∧ w.draft.held i s.clock = true) ∧
      ∀ w result, s.writer = some w → w.result = some result → ∃ row, rowOf result (s.log w.store) = some row) ∧
    ∀ s, (tidyLeadership c).Reachable s → ∀ row ∈ s.acked, ∀ i, s.fence.holder = some i →
      (s.log i)[row.change.seq - 1]? = some row := by
  refine ⟨fun s hreachable tidy s' hstep => ?_, fun s hreachable row hrow i hholder => ?_⟩
  · have hs := leadership_sound hreachable
    obtain ⟨hcursor, hepoch⟩ := hstep.forward hs
    exact ⟨hcursor, hepoch, fun i hrequests => hstep.commits hs hrequests, fun w result hwriter => (hs.writer w hwriter).result result⟩
  · obtain ⟨hs, h⟩ := tidyLeadership_oneHistory hreachable
    obtain ⟨hcursor, hpositive, j, hj⟩ := h.acked row hrow
    have hreach := hcursor.trans (hs.reach i hholder)
    have hlength : row.change.seq ≤ (s.cluster.logs i).length := by exact_mod_cast hreach
    exact h.logs.agree hj (by omega)

/-! ### A request made again -/

theorem update_again (huser : isIdentifier user = true) (hbody : body.validate = .ok ())
    (htopology : store.topology = none)
    (hrequest : store.requests.get? (user, body.requestId) = some (body.fingerprint, result)) :
    store.update user body = .ok (store, result, none) := by
  simp [Store.update, identifier, huser, hbody, Store.checkPartition, htopology, hrequest, require, bind, Except.bind, pure, Except.pure]

theorem firstBody_valid : firstBody.validate = .ok () := by
  have hid : isIdentifier "r" = true := by decide
  have hname : "n".length ≤ 128 ∧ "c".length ≤ 128 := by decide
  simp [UpdateBody.validate, firstBody, integer, identifier, Profile.validate, hid, hname, require, bind, Except.bind]

def wholeSeconds : LeaseClock := ⟨fun now seconds => now + seconds⟩

def lab : System := ⟨twoStores, 0, ⟨0, none, -1, 0⟩, none, []⟩

theorem lab_fresh : lab.Fresh := ⟨⟨fun _ => ⟨rfl, rfl, rfl, rfl⟩, rfl⟩, rfl, rfl, rfl⟩

/-- The fence while the first store holds it. -/
def heldFence (cursor : ℤ) : Fence := ⟨1, some 0, cursor, wholeSeconds.later 0 2⟩

theorem heldFence_writing : (heldFence 0).writing wholeSeconds 0 0 = .ok (heldFence 0) :=
  bind_eq_ok.mpr ⟨(), require_eq_ok.mpr (by decide +kernel), rfl⟩

theorem heldFence_publish : (heldFence 0).publishIf wholeSeconds 0 (some 1) 0 = .ok (heldFence 1) :=
  bind_eq_ok.mpr ⟨(), rfl, bind_eq_ok.mpr ⟨(), require_eq_ok.mpr (by decide +kernel), rfl⟩⟩

theorem heldFence_promote : (heldFence 0).promote wholeSeconds 1 0 2 5 = .ok ⟨2, some 1, 0, wholeSeconds.later 5 2⟩ :=
  bind_eq_ok.mpr ⟨(), rfl, bind_eq_ok.mpr ⟨(), rfl, bind_eq_ok.mpr ⟨(), rfl, bind_eq_ok.mpr
    ⟨(), require_eq_ok.mpr (.inr (by decide +kernel)), rfl⟩⟩⟩⟩

/-- The process ends between its two commits; the client asks again and is answered without a publication. -/
theorem answer_lost : ∃ s, (leadership wholeSeconds).Reachable s ∧ s.acked = [firstRow 1 "alice"] ∧ s.fence.holder = some 1 ∧ s.log 1 = [] := by
  have h0 : (leadership wholeSeconds).Reachable lab := .start lab_fresh
  have h1 := h0.step ⟨_, .heartbeat 0 0 2 rfl le_rfl rfl⟩
  have h2 := h1.step ⟨_, .writing 0 rfl heldFence_writing⟩
  have h3 := h2.step ⟨_, .commit 0 (heldFence 0) rfl "alice" firstBody rfl heldFence_publish⟩
  have h4 := h3.step ⟨_, .abort⟩
  have h5 := h4.step ⟨_, .writing 0 rfl heldFence_writing⟩
  have h6 := h5.step ⟨_, .commit 0 (heldFence 0) rfl "alice" firstBody
    (update_again (by decide) firstBody_valid rfl rfl) rfl⟩
  have h7 := h6.step ⟨_, .close 0 _ _ rfl⟩
  have h8 := h7.step ⟨_, .tick 5 (by norm_num [lab])⟩
  have h9 := h8.step ⟨_, .promote 1 0 2 rfl le_rfl heldFence_promote⟩
  exact ⟨_, h9, rfl, rfl, rfl⟩

theorem answered_lost : ¬ ∀ s, (leadership wholeSeconds).Reachable s → ∀ row ∈ s.acked, ∀ i, s.fence.holder = some i →
    (s.log i)[row.change.seq - 1]? = some row := by
  intro hall
  obtain ⟨s, hreachable, hacked, hholder, hlog⟩ := answer_lost
  have hrow := hall s hreachable (firstRow 1 "alice") (by rw [hacked]; exact mem_cons_self) 1 hholder
  rw [hlog] at hrow
  cases hrow

theorem failover_keeps_first : ∃ s, (tidyLeadership wholeSeconds).Reachable s ∧ s.acked = [firstRow 1 "alice"] ∧ s.fence.holder = some 0 ∧
    (s.log 0)[(firstRow 1 "alice").change.seq - 1]? = some (firstRow 1 "alice") := by
  have h0 : (tidyLeadership wholeSeconds).Reachable lab := .start lab_fresh
  have h1 := h0.step ⟨_, .heartbeat 0 0 2 rfl le_rfl rfl, trivial⟩
  have h2 := h1.step ⟨_, .writing 0 rfl heldFence_writing, trivial⟩
  have h3 := h2.step ⟨_, .commit 0 (heldFence 0) rfl "alice" firstBody rfl heldFence_publish, fun _ _ => le_rfl, nofun⟩
  have h4 := h3.step ⟨_, .close 0 _ _ rfl, trivial⟩
  exact ⟨_, h4, rfl, rfl, failover_keeps.2 _ h4 (firstRow 1 "alice") mem_cons_self 0 rfl⟩

end SystemDesign.ScaleFromZero
