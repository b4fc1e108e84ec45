import SystemDesign.Lib.Histories
import SystemDesign.Lib.Transitions
import SystemDesign.ScaleFromZero.Profiles

/-!
Replicas that follow a feed.

The users of a store are always what its change log makes of them. That a replica's log is a prefix of its
source's needs more than the checks of `apply_feed`, which compare one row: it holds as long as only a longest
log is written to and what is replicated comes out of a feed.
-/

namespace SystemDesign.ScaleFromZero

open List hiding le_refl

variable {s s' : Store} {row : Row} {user : String}

/-! ### The log and the users -/

/-- The users that a change log makes. -/
def fold (changes : List Row) : Dict String (ℕ × Profile) :=
  changes.foldl (fun users row => users.set row.change.record.user (row.change.record.version, row.change.record.profile)) .empty

structure Store.Folded (s : Store) : Prop where
  users : s.users = fold s.changes
  seqs : s.changes.map (fun row => row.change.seq) = List.range' 1 s.changes.length
  versions : ∀ user, (s.changes.filter fun row => row.change.record.user = user).map (fun row => row.change.record.version) =
    List.range' 1 (s.version user)

theorem Store.Folded.seq_eq (h : s.Folded) {k : ℕ} (hrow : s.changes[k]? = some row) : row.change.seq = k + 1 := by
  have hseq := congrArg (fun l : List ℕ => l[k]?) h.seqs
  have hlt := (List.getElem?_eq_some_iff.mp hrow).1
  simp only [getElem?_map, hrow, Option.map_some, getElem?_range' hlt] at hseq
  have := Option.some.inj hseq
  omega

theorem Store.Folded.lastSeq_eq (h : s.Folded) : s.lastSeq = s.changes.length := by
  unfold Store.lastSeq
  rw [getLast?_eq_getElem?]
  cases hlast : s.changes[s.changes.length - 1]? with
  | none =>
    rw [List.getElem?_eq_none_iff] at hlast
    simp only [Option.elim]
    omega
  | some row =>
    have hlt := (List.getElem?_eq_some_iff.mp hlast).1
    simp only [Option.elim, h.seq_eq hlast]
    omega

theorem Store.Folded.append (h : s.Folded) (hseq : row.change.seq = s.lastSeq + 1)
    (hversion : row.change.record.version = s.version row.change.record.user + 1) : (s.append row).Folded where
  users := by
    rw [Store.append, h.users, fold, fold, foldl_append]
    rfl
  seqs := by
    rw [h.lastSeq_eq] at hseq
    rw [Store.append, map_append, h.seqs, length_append, length_singleton, range'_1_concat, map_singleton,
      hseq, add_comm]
  versions user := by
    simp only [Store.append, Store.version, filter_append, map_append, h.versions user, Dict.get?_set]
    by_cases hsame : user = row.change.record.user
    · subst hsame
      simp only [if_pos, Option.elim_some, hversion, filter_cons_of_pos, decide_true, filter_nil, map_singleton]
      rw [range'_1_concat, add_comm 1]
      rfl
    · rw [if_neg hsame, filter_cons_of_neg (by simpa using Ne.symm hsame), filter_nil, map_nil, append_nil]

theorem Store.Folded.congr (h : s.Folded) (husers : s'.users = s.users) (hchanges : s'.changes = s.changes) : s'.Folded where
  users := by rw [husers, hchanges, h.users]
  seqs := by rw [hchanges, h.seqs]
  versions user := by rw [hchanges, h.versions, Store.version, Store.version, husers]

/-- The rows behind a cursor are the rest of the log. -/
theorem Store.Folded.filter_eq_drop (h : s.Folded) (after : ℕ) :
    (s.changes.filter fun row => after < row.change.seq) = s.changes.drop after := by
  have hsplit : s.changes = s.changes.take after ++ s.changes.drop after := (take_append_drop _ _).symm
  rw [hsplit, filter_append, filter_eq_nil_iff.mpr, filter_eq_self.mpr, nil_append, ← hsplit]
  · intro row hrow
    obtain ⟨k, hk⟩ := mem_iff_getElem?.mp hrow
    rw [getElem?_drop] at hk
    rw [h.seq_eq hk]
    exact decide_eq_true (by omega)
  · intro row hrow
    obtain ⟨k, hk⟩ := mem_iff_getElem?.mp hrow
    rw [getElem?_take] at hk
    split at hk
    · rw [h.seq_eq hk, decide_eq_true_eq]
      omega
    · cases hk

/-! ### What a call that returns has done -/

/-- A row that follows. -/
structure Store.Appends (s s' : Store) (row : Row) : Prop where
  seq : row.change.seq = s.lastSeq + 1
  version : row.change.record.version = s.version row.change.record.user + 1
  users : s'.users = (s.append row).users
  changes : s'.changes = s.changes ++ [row]

theorem Store.Appends.folded (h : s.Appends s' row) (hs : s.Folded) : s'.Folded :=
  (hs.append h.seq h.version).congr h.users h.changes

theorem update_cases {body : UpdateBody} {result : Record} {published : Option ℕ}
    (h : s.update user body = .ok (s', result, published)) : (published = none ∧ s' = s) ∨
      ∃ row, s.Appends s' row ∧ row.change.record = result ∧ published = some row.change.seq := by
  unfold Store.update at h
  obtain ⟨_, -, h⟩ := of_bind h
  obtain ⟨_, -, h⟩ := of_bind h
  obtain ⟨_, -, h⟩ := of_bind h
  split at h
  · obtain ⟨_, -, h⟩ := of_bind h
    cases h
    exact .inl ⟨rfl, rfl⟩
  · unfold Store.write at h
    obtain ⟨_, -, h⟩ := of_bind h
    obtain ⟨_, -, h⟩ := of_bind h
    cases h
    exact .inr ⟨_, ⟨rfl, rfl, rfl, rfl⟩, rfl, rfl⟩

theorem replicateRow_cases (h : s.replicateRow row = .ok s') :
    (s' = s ∧ row.change.seq ≤ s.lastSeq) ∨ s.Appends s' row := by
  unfold Store.replicateRow at h
  obtain ⟨_, -, h⟩ := of_bind h
  split at h
  · rename_i hold
    obtain ⟨_, -, h⟩ := of_bind h
    cases h
    exact .inl ⟨rfl, hold⟩
  · obtain ⟨_, hseq, h⟩ := of_bind h
    obtain ⟨_, hversion, h⟩ := of_bind h
    cases h
    exact .inr ⟨require_eq_ok.mp hseq, require_eq_ok.mp hversion, rfl, rfl⟩

theorem replicate_cases (h : s.replicate row = .ok s') : s' = s ∨ s.Appends s' row := by
  unfold Store.replicate at h
  split at h
  · cases h
  · exact (replicateRow_cases h).imp_left And.left

/-- Rows that follow one another are all appended. -/
theorem replicateRows_ok {rows : List Row} (hs : s.Folded)
    (hseqs : rows.map (fun row => row.change.seq) = List.range' (s.changes.length + 1) rows.length)
    (h : rows.foldlM Store.replicateRow s = .ok s') : s'.Folded ∧ s'.changes = s.changes ++ rows := by
  induction rows generalizing s with
  | nil =>
    cases h
    exact ⟨hs, (append_nil _).symm⟩
  | cons row rows ih =>
    rw [foldlM_cons, bind_eq_ok] at h
    obtain ⟨next, hrow, hrest⟩ := h
    rw [map_cons, length_cons, range'_succ, List.cons.injEq] at hseqs
    obtain ⟨-, hold⟩ | happends := replicateRow_cases hrow
    · rw [hs.lastSeq_eq] at hold
      omega
    · have hlength : next.changes.length = s.changes.length + 1 := by rw [happends.changes, length_append, length_singleton]
      obtain ⟨hfolded, hchanges⟩ := ih (happends.folded hs) (by rw [hlength]; exact hseqs.2) hrest
      exact ⟨hfolded, by rw [hchanges, happends.changes, append_assoc, singleton_append]⟩

theorem applyFeed_ok {feed : Feed} {n : ℕ} (hs : s.Folded) (h : s.applyFeed feed = .ok (s', n)) :
    s'.Folded ∧ feed.after = s.changes.length ∧ s'.changes = s.changes ++ feed.changes := by
  unfold Store.applyFeed at h
  obtain ⟨_, -, h⟩ := of_bind h
  obtain ⟨_, -, h⟩ := of_bind h
  obtain ⟨_, -, h⟩ := of_bind h
  obtain ⟨_, -, h⟩ := of_bind h
  obtain ⟨_, -, h⟩ := of_bind h
  obtain ⟨_, hseqs, h⟩ := of_bind h
  obtain ⟨_, -, h⟩ := of_bind h
  obtain ⟨_, hinitial, h⟩ := of_bind h
  obtain ⟨written, hwritten, h⟩ := of_bind h
  obtain ⟨_, -, h⟩ := of_bind h
  cases h
  have hafter : feed.after = s.changes.length := by rw [← hs.lastSeq_eq]; exact (require_eq_ok.mp hinitial).1
  have hseqs := require_eq_ok.mp hseqs
  have hlength := congrArg List.length hseqs
  rw [length_map, length_range'] at hlength
  rw [← hlength, hafter] at hseqs
  obtain ⟨hfolded, hchanges⟩ := replicateRows_ok hs hseqs hwritten
  exact ⟨hfolded.congr rfl rfl, hafter, hchanges⟩

/-- A feed holds at most a hundred rows of a log, from its cursor on. -/
def Served (log : List Row) (feed : Feed) : Prop :=
  feed.after ≤ log.length ∧ feed.changes = (log.drop feed.after).take 100

theorem feed_served {after : ℕ} {feed : Feed} (hs : s.Folded) (h : s.feed after = .ok feed) : Served s.changes feed := by
  unfold Store.feed at h
  obtain ⟨_, -, h⟩ := of_bind h
  obtain ⟨_, hafter, h⟩ := of_bind h
  cases h
  refine ⟨?_, ?_⟩
  · rw [← hs.lastSeq_eq]
    exact require_eq_ok.mp hafter
  · exact congrArg (List.take 100) (hs.filter_eq_drop after)

/-! ### Stores that follow each other -/

/-- Stores and the replies of `changes` that were sent; a reply may arrive at any time and any number of times. -/
structure Cluster where
  stores : ℕ → Store
  feeds : List (ℕ × Feed)

def Cluster.logs (s : Cluster) (i : ℕ) : List Row := (s.stores i).changes

/-- A call that returns, labelled with what keeps the logs copies of one history: who writes has a longest log, and
what is replicated came in a feed. -/
inductive Acts (s : Cluster) : Prop → Cluster → Prop
  | update (i : ℕ) (user : String) (body : UpdateBody) {store : Store} {result : Record} {published : Option ℕ}
      (h : (s.stores i).update user body = .ok (store, result, published)) :
      Acts s (published ≠ none → ∀ j, (s.logs j).length ≤ (s.logs i).length)
        { s with stores := Function.update s.stores i store }
  | changes (i after : ℕ) {feed : Feed} (h : (s.stores i).feed after = .ok feed) :
      Acts s True { s with feeds := s.feeds ++ [(i, feed)] }
  | applyFeed (j source : ℕ) (feed : Feed) (hfeed : (source, feed) ∈ s.feeds) {store : Store} {n : ℕ}
      (h : (s.stores j).applyFeed feed = .ok (store, n)) : Acts s True { s with stores := Function.update s.stores j store }
  | replicate (j : ℕ) (row : Row) {store : Store} (h : (s.stores j).replicate row = .ok store) :
      Acts s (∃ e ∈ s.feeds, row ∈ e.2.changes) { s with stores := Function.update s.stores j store }

def Store.Fresh (s : Store) : Prop := s.users = .empty ∧ s.changes = [] ∧ s.requests = .empty ∧ s.source = none

def Cluster.Fresh (s : Cluster) : Prop := (∀ i, (s.stores i).Fresh) ∧ s.feeds = []

def profiles : Transitions Cluster where
  start := Cluster.Fresh
  step s s' := ∃ tidy, Acts s tidy s'

def tidyProfiles : Transitions Cluster where
  start := Cluster.Fresh
  step s s' := ∃ tidy, Acts s tidy s' ∧ tidy

/-- What holds in any run: users are what logs make of them, and feeds are parts of logs. -/
structure Cluster.Sound (s : Cluster) : Prop where
  folded : ∀ i, (s.stores i).Folded
  served : ∀ e ∈ s.feeds, ∃ log, log <+: s.logs e.1 ∧ Served log e.2

theorem Cluster.Sound.put {s : Cluster} (h : s.Sound) {i : ℕ} {store : Store} (hfolded : store.Folded)
    (hgrows : (s.stores i).changes <+: store.changes) : Cluster.Sound { s with stores := Function.update s.stores i store } where
  folded j := by
    simp only [Function.update_apply]
    split
    · exact hfolded
    · exact h.folded j
  served e he := by
    obtain ⟨log, hlog, hserved⟩ := h.served e he
    refine ⟨log, ?_, hserved⟩
    simp only [Cluster.logs, Function.update_apply]
    split
    · rename_i hsame
      rw [Cluster.logs, hsame] at hlog
      exact hlog.trans hgrows
    · exact hlog

theorem Acts.sound {s s' : Cluster} {tidy : Prop} (h : Acts s tidy s') (hs : s.Sound) : s'.Sound := by
  cases h with
  | update i user body hupdate =>
    obtain ⟨-, rfl⟩ | ⟨row, happends, -⟩ := update_cases hupdate
    · exact hs.put (hs.folded i) (prefix_refl _)
    · exact hs.put (happends.folded (hs.folded i)) (happends.changes ▸ prefix_append _ _)
  | changes i after hfeed =>
    refine ⟨hs.folded, fun e he => ?_⟩
    rw [mem_append, mem_singleton] at he
    obtain he | rfl := he
    · exact hs.served e he
    · exact ⟨_, prefix_refl _, feed_served (hs.folded i) hfeed⟩
  | applyFeed j source feed hfeed happly =>
    obtain ⟨hfolded, -, hchanges⟩ := applyFeed_ok (hs.folded j) happly
    exact hs.put hfolded (hchanges ▸ prefix_append _ _)
  | replicate j row hreplicate =>
    obtain rfl | happends := replicate_cases hreplicate
    · exact hs.put (hs.folded j) (prefix_refl _)
    · exact hs.put (happends.folded (hs.folded j)) (happends.changes ▸ prefix_append _ _)

theorem Store.Fresh.folded (h : s.Fresh) : s.Folded := by
  obtain ⟨husers, hchanges, -⟩ := h
  refine ⟨?_, ?_, fun user => ?_⟩
  · rw [husers, hchanges]
    rfl
  · rw [hchanges]
    rfl
  · rw [hchanges, Store.version, husers]
    rfl

theorem Cluster.Fresh.sound {s : Cluster} (h : s.Fresh) : s.Sound where
  folded i := (h.1 i).folded
  served e he := by
    rw [h.2] at he
    cases he

theorem profiles_sound {s : Cluster} (h : profiles.Reachable s) : s.Sound := by
  refine h.invariant (P := Cluster.Sound) ?_ ?_
  · intro s hstart
    exact Cluster.Fresh.sound hstart
  · rintro s s' - hs ⟨tidy, hstep⟩
    exact hstep.sound hs

/-! ### Copies of one history -/

/-- A log that a feed continues becomes a prefix of what the feed was taken from. -/
theorem Served.continues {ι : Type} {logs : ι → List Row} (hlogs : Comparable logs) {i j : ι} {log : List Row} {feed : Feed}
    (hlog : log <+: logs i) (hserved : Served log feed) (hafter : feed.after = (logs j).length) :
    logs j ++ feed.changes <+: log := by
  obtain ⟨hle, hchanges⟩ := hserved
  rw [hafter] at hle hchanges
  have hj := hlogs.prefix_of_length_le (hle.trans hlog.length_le)
  obtain ⟨rest, rfl⟩ := prefix_of_prefix_length_le hj hlog hle
  rw [hchanges, drop_left, prefix_append_right_inj]
  exact take_prefix _ _

/-- One row of a feed that follows a log. -/
theorem Served.next {s : Cluster} (hs : s.Sound) (hlogs : Comparable s.logs) {i j : ℕ} {log : List Row} {feed : Feed}
    (hlog : log <+: s.logs i) (hserved : Served log feed) (hrow : row ∈ feed.changes)
    (hseq : row.change.seq = (s.logs j).length + 1) : s.logs j ++ [row] <+: s.logs i := by
  obtain ⟨-, hchanges⟩ := hserved
  rw [hchanges] at hrow
  obtain ⟨k, hk⟩ := mem_iff_getElem?.mp (hlog.subset (mem_of_mem_drop (mem_of_mem_take hrow)))
  have hposition := (hs.folded i).seq_eq hk
  have hlt := (List.getElem?_eq_some_iff.mp hk).1
  have hkj : k = (s.logs j).length := by omega
  subst hkj
  obtain ⟨rest, hrest⟩ := hlogs.prefix_of_length_le hlt.le
  rw [← hrest, getElem?_append_right (le_refl _), Nat.sub_self] at hk
  cases rest with
  | nil => cases hk
  | cons next rest =>
    cases hk
    exact ⟨rest, by rw [append_assoc, singleton_append, hrest]⟩

theorem Cluster.logs_put (s : Cluster) (i : ℕ) (store : Store) :
    Cluster.logs { s with stores := Function.update s.stores i store } = Function.update s.logs i store.changes := by
  funext j
  simp only [Cluster.logs, Function.update_apply]
  split <;> rfl

theorem Acts.comparable {s s' : Cluster} {tidy : Prop} (h : Acts s tidy s') (htidy : tidy) (hs : s.Sound)
    (hlogs : Comparable s.logs) : Comparable s'.logs := by
  have hsame : ∀ i, Function.update s.logs i (s.logs i) = s.logs := fun i => Function.update_eq_self i s.logs
  cases h with
  | update i user body hupdate =>
    rw [Cluster.logs_put]
    obtain ⟨-, rfl⟩ | ⟨row, happends, -, rfl⟩ := update_cases hupdate
    · exact (hsame i).symm ▸ hlogs
    · rw [happends.changes]
      exact hlogs.append (htidy nofun) row
  | changes i after hfeed => exact hlogs
  | applyFeed j source feed hfeed happly =>
    obtain ⟨-, hafter, hchanges⟩ := applyFeed_ok (hs.folded j) happly
    obtain ⟨log, hlog, hserved⟩ := hs.served _ hfeed
    rw [Cluster.logs_put, hchanges]
    exact hlogs.copy ((hserved.continues hlogs hlog hafter).trans hlog)
  | replicate j row hreplicate =>
    rw [Cluster.logs_put]
    obtain rfl | happends := replicate_cases hreplicate
    · exact (hsame j).symm ▸ hlogs
    · obtain ⟨e, he, hrow⟩ := htidy
      obtain ⟨log, hlog, hserved⟩ := hs.served e he
      rw [happends.changes]
      refine hlogs.copy (hserved.next hs hlogs hlog hrow ?_)
      rw [happends.seq, (hs.folded j).lastSeq_eq]
      rfl

theorem tidyProfiles_comparable {s : Cluster} (h : tidyProfiles.Reachable s) : s.Sound ∧ Comparable s.logs := by
  refine h.invariant (P := fun s => s.Sound ∧ Comparable s.logs) ?_ ?_
  · intro s hstart
    refine ⟨Cluster.Fresh.sound hstart, fun i j => .inl ?_⟩
    rw [Cluster.logs, (hstart.1 i).2.1]
    exact nil_prefix
  · rintro s s' - ⟨hs, hlogs⟩ ⟨tidy, hstep, htidy⟩
    exact ⟨hstep.sound hs, hstep.comparable htidy hs hlogs⟩

/-- In every run users are what the log makes of them and a refused feed changes nothing. In a run whose writers
have a longest log and whose replicated rows came in feeds, an accepted feed leaves a prefix of the source's log. -/
theorem replica_follows (s : Cluster) :
    (profiles.Reachable s → ∀ i, (s.stores i).Folded ∧ ∀ feed e,
      (transaction (s.stores i) (Store.applyFeed feed)).2 = .error e →
        (transaction (s.stores i) (Store.applyFeed feed)).1 = s.stores i) ∧
    (tidyProfiles.Reachable s → ∀ i j feed store n, (i, feed) ∈ s.feeds →
      (s.stores j).applyFeed feed = .ok (store, n) → store.changes <+: (s.stores i).changes) := by
  refine ⟨fun hreachable i => ⟨(profiles_sound hreachable).folded i, fun feed e herror => ?_⟩,
    fun hreachable i j feed store n hfeed happly => ?_⟩
  · obtain ⟨store, n, -, hrun⟩ | ⟨e', -, hrun⟩ := transaction_cases (s.stores i) (Store.applyFeed feed)
    · rw [hrun] at herror
      cases herror
    · rw [hrun]
  · obtain ⟨hs, hlogs⟩ := tidyProfiles_comparable hreachable
    obtain ⟨-, hafter, hchanges⟩ := applyFeed_ok (hs.folded j) happly
    obtain ⟨log, hlog, hserved⟩ := hs.served _ hfeed
    rw [hchanges]
    exact (hserved.continues hlogs hlog hafter).trans hlog

/-! ### One row alike -/

/-- The last row of its source passes every check of a store that has the same row before it. -/
theorem applyFeed_last (s : Store) (row : Row) (i : String) (htopology : s.topology = none) (hsource : s.source = none) (hid : isSourceId i = true)
    (hrow : row.validate = .ok ()) (hseq : row.change.seq = s.lastSeq + 1) (hlast : s.lastSeq < 1000)
    (hversion : row.change.record.version = s.version row.change.record.user + 1) :
    s.applyFeed ⟨[row], i, s.lastSeq, s.head, s.lastSeq + 1, row.hash⟩ = .ok ({ s.append row with source := some i }, 1) := by
  have hone : s.lastSeq ≤ 1000000000000 := by omega
  have hnext : s.replicateRow row = .ok (s.append row) := by
    simp [Store.replicateRow, Store.checkPartition, htopology, hseq, hversion, require, bind, Except.bind, pure, Except.pure]
  simp [Store.applyFeed, integer, hrow, hid, hseq, hone, hnext, hsource, Nat.succ_le_of_lt hlast, require, bind, Except.bind,
    pure, Except.pure, Store.append]

def freshStore (identity : String) : Store := ⟨identity, none, none, .empty, [], .empty⟩

def twoStores : Cluster := ⟨fun _ => freshStore (String.ofList (List.replicate 32 '0')), []⟩

def firstBody : UpdateBody := ⟨"r", 0, "n", "c"⟩

/-- The row of a first update. -/
def firstRow (seq : ℕ) (user : String) : Row :=
  let change : Change := ⟨seq, ⟨user, 1, ⟨"n", "c"⟩⟩⟩
  ⟨change, change.checksum⟩

theorem firstRow_valid {seq : ℕ} (hseq : 1 ≤ seq ∧ seq ≤ 1000) : (firstRow seq "dave").validate = .ok () := by
  have hid : isIdentifier "dave" = true := by decide
  have hname : "n".length ≤ 128 ∧ "c".length ≤ 128 := by decide
  simp [Row.validate, firstRow, integer, identifier, Profile.validate, hseq, hid, hname, require, bind, Except.bind]

/-- Stores in which these users were updated once. -/
def updated (users : List String) : Store :=
  users.foldl (fun s user => { s.append (firstRow (s.lastSeq + 1) user) with
    requests := s.requests.set (user, "r") (firstBody.fingerprint, ⟨user, 1, ⟨"n", "c"⟩⟩) }) (freshStore (String.ofList (List.replicate 32 '0')))

def firstFeed : Feed :=
  ⟨[firstRow 1 "dave"], String.ofList (List.replicate 32 '0'), 0, zeros, 1, (firstRow 1 "dave").hash⟩

def lastFeed : Feed :=
  ⟨[firstRow 3 "dave"], String.ofList (List.replicate 32 '0'), 2, (firstRow 2 "carol").hash, 3, (firstRow 3 "dave").hash⟩

/-- Two logs with one row alike, and a feed behind that row. -/
theorem same_row : ∃ s, profiles.Reachable s ∧ ∃ feed, (0, feed) ∈ s.feeds ∧ ∃ store n,
    (s.stores 1).applyFeed feed = .ok (store, n) ∧ store.changes = [firstRow 1 "bob", firstRow 2 "carol", firstRow 3 "dave"] ∧
    (s.stores 0).changes = [firstRow 1 "alice", firstRow 2 "carol", firstRow 3 "dave"] := by
  have h0 : profiles.Reachable twoStores := .start ⟨fun _ => ⟨rfl, rfl, rfl, rfl⟩, rfl⟩
  have h1 := h0.step ⟨_, .update 0 "alice" firstBody rfl⟩
  have h2 := h1.step ⟨_, .update 0 "carol" firstBody rfl⟩
  have h3 := h2.step ⟨_, .update 0 "dave" firstBody rfl⟩
  have h4 := h3.step ⟨_, .update 1 "bob" firstBody rfl⟩
  have h5 := h4.step ⟨_, .update 1 "carol" firstBody rfl⟩
  have hfeed : (updated ["alice", "carol", "dave"]).feed 2 = .ok lastFeed := rfl
  have h6 := h5.step ⟨_, .changes 0 2 hfeed⟩
  have hid : isSourceId lastFeed.sourceId = true := by decide
  have hlast : (updated ["bob", "carol"]).lastSeq = 2 := rfl
  have hhead : (updated ["bob", "carol"]).head = lastFeed.previousHash := rfl
  have hversion : (updated ["bob", "carol"]).version "dave" = 0 := rfl
  have happly := applyFeed_last (updated ["bob", "carol"]) (firstRow 3 "dave") _ rfl rfl hid (firstRow_valid (by decide))
    (by rw [hlast]; rfl) (by rw [hlast]; decide) (by rw [show (firstRow 3 "dave").change.record.user = "dave" from rfl, hversion]; rfl)
  rw [hlast, hhead] at happly
  exact ⟨_, h6, lastFeed, mem_append_right _ mem_cons_self, _, _, happly, rfl, rfl⟩

theorem prefix_missed : ¬ ∀ s, profiles.Reachable s → ∀ i j feed store n, (i, feed) ∈ s.feeds →
    (s.stores j).applyFeed feed = .ok (store, n) → store.changes <+: (s.stores i).changes := by
  intro hall
  obtain ⟨s, hreachable, feed, hfeed, store, n, happly, hstore, hsource⟩ := same_row
  have hinitial := hall s hreachable 0 1 feed store n hfeed happly
  rw [hstore, hsource] at hinitial
  obtain ⟨_, hsame⟩ := hinitial
  have hrow : firstRow 1 "bob" = firstRow 1 "alice" := by
    rw [cons_append, List.cons.injEq] at hsame
    exact hsame.1
  have huser : "bob" = "alice" := congrArg (fun row : Row => row.change.record.user) hrow
  exact absurd huser (by decide)

/-- A replica that follows from the beginning. -/
theorem replica_follows_first : ∃ s, tidyProfiles.Reachable s ∧ ∃ store n, ∃ feed, (0, feed) ∈ s.feeds ∧
    (s.stores 1).applyFeed feed = .ok (store, n) ∧ store.changes = [firstRow 1 "dave"] ∧ store.changes <+: (s.stores 0).changes := by
  have hfeed : (updated ["dave"]).feed 0 = .ok firstFeed := rfl
  have happly := applyFeed_last (updated []) (firstRow 1 "dave") firstFeed.sourceId rfl rfl (by decide) (firstRow_valid (by decide)) rfl (by decide) rfl
  have h0 : tidyProfiles.Reachable twoStores := .start ⟨fun _ => ⟨rfl, rfl, rfl, rfl⟩, rfl⟩
  have h1 := h0.step ⟨_, .update 0 "dave" firstBody rfl, fun _ _ => le_rfl⟩
  have h2 := h1.step ⟨_, .changes 0 0 hfeed, trivial⟩
  have hsent := mem_append_right [] (mem_singleton_self (0, firstFeed))
  exact ⟨_, h2, _, _, firstFeed, hsent, happly, rfl, (replica_follows _).2 h2 0 1 firstFeed _ _ hsent happly⟩

end SystemDesign.ScaleFromZero
