import SystemDesign.NearbyFriends.Invariants

/-!
What a snapshot discloses.

`snapshot_discloses` says which reports a snapshot contains, in terms of the log at its last
read, and compares two runs. They may differ in what the cache holds and in how its repair
goes, in sweeps, and in the reports and history of users who are no friends of the viewer.
-/

namespace SystemDesign.NearbyFriends

open List hiding le_antisymm le_total not_lt
open Tables

variable {c : Setup}

/-! ### Reading the tables -/

theorem Sound.unexpired {s : State} (h : Sound c s) (id : String) (report : Report) :
    s.db.unexpired s.now id = some report ↔ latest id s.log = some report ∧ s.now < c.plus report.receivedAt c.ttl := by
  unfold Tables.unexpired
  constructor
  · intro hread
    split at hread
    · rename_i row hrow
      split at hread
      · rename_i hfresh
        cases hread
        obtain ⟨hlatest, hexpires⟩ := h.presence.current id row hrow
        exact ⟨hlatest, hexpires ▸ hfresh⟩
      · cases hread
    · cases hread
  · rintro ⟨hlatest, hfresh⟩
    obtain ⟨row, hrow⟩ | hexpired := h.presence.kept id report hlatest
    · obtain ⟨hbody, hexpires⟩ := h.presence.current id row hrow
      cases hlatest.symm.trans hbody
      rw [hrow]
      dsimp only
      rw [if_pos (hexpires ▸ hfresh)]
    · exact absurd hfresh (not_lt.mpr hexpired)

theorem Sound.sharing {s : State} (h : Sound c s) (id : String) : sharingOn id s.log = true ↔
    ∃ row, s.db.users.get? id = some row ∧ row.sharing = true := by
  rw [h.presence.sharing]
  cases s.db.users.get? id with
  | none => simp
  | some row => simp

/-- The friend in a row. -/
def friendIn (actor : String) (row : String × String) : String := if row.1 = actor then row.2 else row.1

variable {actor : String}

theorem pair_friendIn {row : String × String} (hrow : row.1 < row.2) (hactor : row.1 = actor ∨ row.2 = actor) :
    actor ≠ friendIn actor row ∧ pair actor (friendIn actor row) = row := by
  unfold friendIn
  obtain ⟨a, b⟩ := row
  by_cases ha : a = actor
  · subst ha
    rw [if_pos rfl]
    refine ⟨hrow.ne, ?_⟩
    unfold pair
    rw [if_neg hrow.not_gt]
  · obtain rfl := hactor.resolve_left ha
    rw [if_neg ha]
    refine ⟨hrow.ne', ?_⟩
    unfold pair
    rw [if_pos hrow]

theorem friendIn_pair {friend : String} (h : actor ≠ friend) :
    ((pair actor friend).1 = actor ∨ (pair actor friend).2 = actor) ∧ friendIn actor (pair actor friend) = friend := by
  unfold friendIn pair
  split
  · dsimp only
    rw [if_neg h.symm]
    exact ⟨.inr rfl, rfl⟩
  · dsimp only
    rw [if_pos rfl]
    exact ⟨.inl rfl, rfl⟩

theorem friendReport_eq_some {db : Tables} {now : ℚ} {row : String × String} {report : Report} :
    db.friendReport now actor row = some report ↔ (row.1 = actor ∨ row.2 = actor) ∧
      (∃ user, db.users.get? (friendIn actor row) = some user ∧ user.sharing = true) ∧
      db.unexpired now (friendIn actor row) = some report := by
  unfold friendReport
  by_cases hactor : row.1 = actor ∨ row.2 = actor
  · rw [if_pos hactor]
    unfold friendIn
    generalize (if row.1 = actor then row.2 else row.1) = friend
    dsimp only
    cases db.users.get? friend with
    | none => simp
    | some user =>
      dsimp only
      cases hsharing : user.sharing with
      | false => simp [hsharing]
      | true => simp [hsharing, hactor]
  · rw [if_neg hactor]
    simp [hactor]

variable {s : State}

/-- The reports of the friends who share. -/
theorem Sound.mem_reports (h : Sound c s) (actor : String) (report : Report) :
    report ∈ (c.scan s.db.friends).filterMap (s.db.friendReport s.now actor) ↔
      Befriended s.log actor report.id ∧ sharingOn report.id s.log = true ∧
        latest report.id s.log = some report ∧ s.now < c.plus report.receivedAt c.ttl := by
  rw [mem_filterMap]
  constructor
  · rintro ⟨row, hrow, hread⟩
    obtain ⟨hactor, hshares, hreport⟩ := friendReport_eq_some.mp hread
    obtain ⟨hlatest, hfresh⟩ := (h.unexpired _ _).mp hreport
    have hid := latest_id hlatest
    have hmem := (c.scan_perm _).mem_iff.mp hrow
    obtain ⟨hne, hpair⟩ := pair_friendIn (h.friendships.ordered row hmem) hactor
    have hbefriended := (h.friendships.friends actor _ hne).mp (hpair.symm ▸ hmem)
    rw [hid]
    exact ⟨hbefriended, (h.sharing _).mpr hshares, hlatest, hfresh⟩
  · rintro ⟨hbefriended, hsharing, hlatest, hfresh⟩
    have hne : actor ≠ report.id := by
      intro hsame
      exact h.friendships.distinct actor (hsame.symm ▸ hbefriended : Befriended s.log actor actor)
    obtain ⟨hactor, hfriend⟩ := friendIn_pair hne
    refine ⟨pair actor report.id, (c.scan_perm _).mem_iff.mpr ((h.friendships.friends _ _ hne).mpr hbefriended), ?_⟩
    rw [friendReport_eq_some, hfriend]
    exact ⟨hactor, (h.sharing _).mp hsharing, (h.unexpired _ _).mpr ⟨hlatest, hfresh⟩⟩

theorem Sound.reports_nodup (h : Sound c s) (actor : String) :
    (((c.scan s.db.friends).filterMap (s.db.friendReport s.now actor)).map (·.id)).Nodup := by
  have hrows : (c.scan s.db.friends).Nodup := (c.scan_perm _).nodup_iff.mpr h.friendships.nodup
  unfold List.Nodup
  rw [pairwise_map]
  refine Pairwise.filterMap _ ?_ (Pairwise.and_mem.mp hrows)
  rintro row row' ⟨hmem, hmem', hne⟩ report hread report' hread' hsame
  -- the user of the report and the viewer are the row
  have hrow : ∀ row ∈ c.scan s.db.friends, ∀ report, s.db.friendReport s.now actor row = some report →
      pair actor report.id = row := by
    intro row hmem report hread
    obtain ⟨hactor, -, hreport⟩ := friendReport_eq_some.mp hread
    have hid := latest_id ((h.unexpired _ _).mp hreport).1
    rw [hid]
    exact (pair_friendIn (h.friendships.ordered row ((c.scan_perm _).mem_iff.mp hmem)) hactor).2
  apply hne
  rw [← hrow row hmem report hread, ← hrow row' hmem' report' hread', hsame]

/-! ### One snapshot -/

variable (c) in
/-- The viewer may see the report. -/
structure Authorised (s : State) (viewer : String) (radius : ℚ) (own report : Report) : Prop where
  viewerSharing : sharingOn viewer s.log = true
  viewerLatest : latest viewer s.log = some own
  viewerFresh : s.now < c.plus own.receivedAt c.ttl
  friends : Befriended s.log viewer report.id
  sharing : sharingOn report.id s.log = true
  shown : latest report.id s.log = some report
  fresh : s.now < c.plus report.receivedAt c.ttl
  near : distance c own report ≤ c.plus radius (1 / 1000000)

/-- What a read finds. -/
def State.moment (s : State) : Moment := ⟨s.db, s.now⟩

variable (c) in
/-- The last read of a snapshot: without an own report there is only one. -/
def lastRead (viewer : String) (first last : State) : State :=
  match first.db.reports c first.now viewer with
  | .ok (some _, _) => last
  | _ => first

def contents : Except Error (List Nearby) → List Nearby
  | .ok rows => rows
  | .error _ => []

variable (c) in
/-- The result of the last read. -/
def answer (s : State) (viewer : String) (radius : ℚ) : List Nearby :=
  match s.db.reports c s.now viewer with
  | .ok (some own, reports) => select c radius own reports
  | _ => []

variable {viewer : String} {radius : ℚ}

theorem contents_snapshot {first last : State} (hradius : 0 < radius ∧ radius ≤ 100000) (weather : Weather)
    (cache : Cache) :
    contents (snapshot c viewer radius first.moment last.moment weather cache).1 =
      answer c (lastRead c viewer first last) viewer radius := by
  unfold snapshot lastRead
  rw [if_neg (not_not.mpr hradius)]
  unfold State.moment
  dsimp only
  cases hfirst : first.db.reports c first.now viewer with
  | error err =>
    unfold answer
    rw [hfirst]
    rfl
  | ok found =>
    obtain ⟨_ | own, reports⟩ := found
    · unfold answer
      rw [hfirst]
      rfl
    · unfold answer
      dsimp only
      cases last.db.reports c last.now viewer with
      | error err => rfl
      | ok found =>
        obtain ⟨_ | own, reports⟩ := found
        · rfl
        · rfl

theorem Sound.reports_own (h : Sound c s) {own : Report} {reports : List Report} :
    s.db.reports c s.now viewer = .ok (some own, reports) ↔
      (sharingOn viewer s.log = true ∧ latest viewer s.log = some own ∧ s.now < c.plus own.receivedAt c.ttl) ∧
      reports = (c.scan s.db.friends).filterMap (s.db.friendReport s.now viewer) := by
  rw [h.sharing, ← h.unexpired]
  unfold Tables.reports
  cases hrow : s.db.users.get? viewer with
  | none =>
    have huser : ∀ row, s.db.user viewer ≠ .ok row := by
      intro row hok
      rw [user_ok hok] at hrow
      cases hrow
    cases hresult : s.db.user viewer with
    | error err => simp [bind, Except.bind]
    | ok row => exact absurd hresult (huser row)
  | some row =>
    have huser : s.db.user viewer = .ok row := by
      unfold Tables.user
      rw [h.presence.named viewer row hrow, hrow]
      rfl
    rw [huser]
    simp only [bind, Except.bind]
    by_cases hsharing : row.sharing = true
    · rw [if_pos hsharing]
      cases hown : s.db.unexpired s.now viewer with
      | none => simp
      | some own' =>
        constructor
        · intro heq
          cases heq
          exact ⟨⟨⟨row, rfl, hsharing⟩, rfl⟩, rfl⟩
        · rintro ⟨⟨-, hsame⟩, rfl⟩
          cases hsame
          rfl
    · rw [if_neg hsharing]
      simp [hsharing]

theorem Sound.mem_answer (h : Sound c s) {row : Nearby} :
    row ∈ answer c s viewer radius ↔ ∃ own report, Authorised c s viewer radius own report ∧ row = nearby c own report := by
  have hselect : ∀ own, row ∈ select c radius own ((c.scan s.db.friends).filterMap (s.db.friendReport s.now viewer)) ↔
      ∃ report, (Befriended s.log viewer report.id ∧ sharingOn report.id s.log = true ∧
        latest report.id s.log = some report ∧ s.now < c.plus report.receivedAt c.ttl) ∧
        distance c own report ≤ c.plus radius (1 / 1000000) ∧ row = nearby c own report := by
    intro own
    unfold select
    rw [mem_mergeSort, mem_map]
    constructor
    · rintro ⟨report, hreport, rfl⟩
      obtain ⟨hread, hnear⟩ := mem_filter.mp hreport
      exact ⟨report, (h.mem_reports viewer report).mp hread, of_decide_eq_true hnear, rfl⟩
    · rintro ⟨report, hread, hnear, rfl⟩
      exact ⟨report, mem_filter.mpr ⟨(h.mem_reports viewer report).mpr hread, decide_eq_true hnear⟩, rfl⟩
  unfold answer
  constructor
  · intro hrow
    split at hrow
    · rename_i own reports heq
      obtain ⟨⟨hsharing, hlatest, hfresh⟩, rfl⟩ := h.reports_own.mp heq
      obtain ⟨report, ⟨hbefriended, hshares, hshown, hunexpired⟩, hnear, rfl⟩ := (hselect own).mp hrow
      exact ⟨own, report, ⟨hsharing, hlatest, hfresh, hbefriended, hshares, hshown, hunexpired, hnear⟩, rfl⟩
    · cases hrow
  · rintro ⟨own, report, hauth, rfl⟩
    have heq := h.reports_own.mpr ⟨⟨hauth.viewerSharing, hauth.viewerLatest, hauth.viewerFresh⟩, rfl⟩
    rw [heq]
    exact (hselect own).mpr ⟨report, ⟨hauth.friends, hauth.sharing, hauth.shown, hauth.fresh⟩, hauth.near, rfl⟩

theorem Sound.answer_nodup (h : Sound c s) (viewer : String) (radius : ℚ) :
    ((answer c s viewer radius).map (·.id)).Nodup := by
  unfold answer
  split
  · rename_i own reports heq
    obtain ⟨-, rfl⟩ := h.reports_own.mp heq
    unfold select
    refine (Perm.map _ (List.mergeSort_perm _ _)).nodup_iff.mpr ?_
    rw [map_map]
    exact Nodup.sublist (Sublist.map _ filter_sublist) (h.reports_nodup viewer)
  · exact nodup_nil

theorem answer_sorted (s : State) (viewer : String) (radius : ℚ) :
    (answer c s viewer radius).Pairwise fun row row' => row.key ≤ row'.key := by
  unfold answer
  split
  · unfold select
    have hsorted := @List.pairwise_mergeSort Nearby (fun row row' => decide (row.key ≤ row'.key))
      (fun a b c hab hbc => by
        rw [decide_eq_true_eq] at hab hbc ⊢
        exact hab.trans hbc)
      (fun a b => by
        rw [Bool.or_eq_true, decide_eq_true_eq, decide_eq_true_eq]
        exact le_total _ _)
    exact (hsorted _).imp fun hle => of_decide_eq_true hle
  · exact List.Pairwise.nil

/-! ### Two runs -/

/-- All but the sweeps and the reports and history settings of hidden users. -/
def visible (hidden : String → Bool) : Entry → Bool
  | .swept => false
  | .history id _ => !hidden id
  | .updated report => !hidden report.id
  | _ => true

theorem neutral_of_not_visible {hidden : String → Bool} {entry : Entry} (h : ¬ visible hidden entry = true) :
    entry.Neutral := by
  cases entry with
  | requested actor target => exact h rfl
  | accepted actor target => exact h rfl
  | removed actor target => exact h rfl
  | provisioned user => trivial
  | sharing user enabled => trivial
  | history user enabled => trivial
  | updated report => trivial
  | swept => trivial

theorem requested_visible (hidden : String → Bool) (log : List Entry) (x y : String) :
    Requested (log.filter (visible hidden)) x y ↔ Requested log x y := by
  induction log with
  | nil => exact Iff.rfl
  | cons entry log ih =>
    by_cases hvisible : visible hidden entry = true
    · rw [filter_cons_of_pos hvisible, requested_cons, requested_cons, ih]
    · rw [filter_cons_of_neg hvisible, requested_neutral (neutral_of_not_visible hvisible), ih]

theorem befriended_visible (hidden : String → Bool) (log : List Entry) (a b : String) :
    Befriended (log.filter (visible hidden)) a b ↔ Befriended log a b := by
  induction log with
  | nil => exact Iff.rfl
  | cons entry log ih =>
    by_cases hvisible : visible hidden entry = true
    · rw [filter_cons_of_pos hvisible, befriended_cons, befriended_cons, ih]
      simp only [requested_visible]
    · rw [filter_cons_of_neg hvisible, befriended_neutral (neutral_of_not_visible hvisible), ih]

theorem sharingOn_visible (hidden : String → Bool) (log : List Entry) (id : String) :
    sharingOn id (log.filter (visible hidden)) = sharingOn id log := by
  induction log with
  | nil => rfl
  | cons entry log ih =>
    by_cases hvisible : visible hidden entry = true
    · rw [filter_cons_of_pos hvisible]
      cases entry with
      | sharing id' enabled =>
        change (if id' = id then enabled else _) = if id' = id then enabled else _
        rw [ih]
      | _ => exact ih
    · rw [filter_cons_of_neg hvisible]
      cases entry with
      | sharing id' enabled => exact absurd rfl hvisible
      | _ => exact ih

theorem latest_visible {hidden : String → Bool} (log : List Entry) {id : String} (hid : hidden id = false) :
    latest id (log.filter (visible hidden)) = latest id log := by
  induction log with
  | nil => rfl
  | cons entry log ih =>
    by_cases hvisible : visible hidden entry = true
    · rw [filter_cons_of_pos hvisible]
      cases entry with
      | updated report =>
        change (if report.id = id then some report else _) = if report.id = id then some report else _
        rw [ih]
      | sharing id' enabled =>
        cases enabled with
        | false =>
          change (if id' = id then none else _) = if id' = id then none else _
          rw [ih]
        | true => exact ih
      | _ => exact ih
    · rw [filter_cons_of_neg hvisible]
      cases entry with
      | updated report =>
        have hne : report.id ≠ id := by
          rintro rfl
          apply hvisible
          change (!hidden report.id) = true
          rw [hid]
          rfl
        change _ = if report.id = id then some report else latest id log
        rw [if_neg hne]
        exact ih
      | sharing id' enabled => exact absurd rfl hvisible
      | _ => exact ih

/-- What is hidden from the viewer does not matter to what the viewer may see. -/
theorem Authorised.hidden {s s' : State} {viewer : String} {radius : ℚ} {own report : Report}
    (h : Authorised c s viewer radius own report) {hidden : String → Bool} (hnow : s'.now = s.now)
    (hlog : s'.log.filter (visible hidden) = s.log.filter (visible hidden)) (hviewer : hidden viewer = false)
    (hreport : hidden report.id = false) : Authorised c s' viewer radius own report := by
  have hsharing : ∀ id, sharingOn id s'.log = sharingOn id s.log := by
    intro id
    rw [← sharingOn_visible hidden s'.log, hlog, sharingOn_visible]
  have hlatest : ∀ id, hidden id = false → latest id s'.log = latest id s.log := by
    intro id hid
    rw [← latest_visible s'.log hid, hlog, latest_visible _ hid]
  constructor
  · rw [hsharing]
    exact h.viewerSharing
  · rw [hlatest viewer hviewer]
    exact h.viewerLatest
  · rw [hnow]
    exact h.viewerFresh
  · rw [← befriended_visible hidden, hlog, befriended_visible]
    exact h.friends
  · rw [hsharing]
    exact h.sharing
  · rw [hlatest _ hreport]
    exact h.shown
  · rw [hnow]
    exact h.fresh
  · exact h.near

theorem answer_hidden {s' : State} (h : Sound c s) (h' : Sound c s') {hidden : String → Bool} (hnow : s'.now = s.now)
    (hlog : s'.log.filter (visible hidden) = s.log.filter (visible hidden)) (hviewer : hidden viewer = false)
    (hfriends : ∀ id, Befriended s.log viewer id → hidden id = false) :
    answer c s' viewer radius = answer c s viewer radius := by
  have hmem : ∀ row, row ∈ answer c s' viewer radius ↔ row ∈ answer c s viewer radius := by
    intro row
    rw [h'.mem_answer, h.mem_answer]
    constructor
    · rintro ⟨own, report, hauth, rfl⟩
      have hbefriended : Befriended s.log viewer report.id := by
        rw [← befriended_visible hidden, ← hlog, befriended_visible]
        exact hauth.friends
      exact ⟨own, report, hauth.hidden hnow.symm hlog.symm hviewer (hfriends _ hbefriended), rfl⟩
    · rintro ⟨own, report, hauth, rfl⟩
      exact ⟨own, report, hauth.hidden hnow hlog hviewer (hfriends _ hauth.friends), rfl⟩
  have hperm := (perm_ext_iff_of_nodup (Nodup.of_map _ (h'.answer_nodup viewer radius))
    (Nodup.of_map _ (h.answer_nodup viewer radius))).mpr hmem
  -- both are sorted, and an entry is known by its user
  refine Perm.eq_of_pairwise ?_ (answer_sorted s' viewer radius) (answer_sorted s viewer radius) hperm
  intro row row' hrow hrow' hle hge
  have hkey : row.key = row'.key := le_antisymm hle hge
  have hid : row.id = row'.id := congrArg (fun key => (ofLex key).2) hkey
  exact inj_on_of_nodup_map (h.answer_nodup viewer radius) ((hmem row).mp hrow) hrow' hid

/-! ### Every run -/

theorem reachable_steps {s' : State} (h : (system c).Reachable s) (hsteps : Relation.ReflTransGen (State.Step c) s s') :
    (system c).Reachable s' := by
  induction hsteps with
  | refl => exact h
  | tail _ hstep ih => exact ih.step hstep

theorem reachable_lastRead {first last : State} (hfirst : (system c).Reachable first)
    (hlast : Relation.ReflTransGen (State.Step c) first last) (viewer : String) :
    (system c).Reachable (lastRead c viewer first last) := by
  unfold lastRead
  split
  · exact reachable_steps hfirst hlast
  · exact hfirst

/-- A snapshot contains what its last read authorises and no more, whatever the cache does;
it is the same in a run that differs in what does not concern the viewer. Revisions and time
stamps of a user increase and no user has more than 5000 friends. -/
theorem snapshot_discloses {first last : State} (hfirst : (system c).Reachable first)
    (hlast : Relation.ReflTransGen (State.Step c) first last) {viewer : String} {radius : ℚ}
    (hradius : 0 < radius ∧ radius ≤ 100000) (weather : Weather) (cache : Cache) :
    let rows := contents (snapshot c viewer radius first.moment last.moment weather cache).1
    let s := lastRead c viewer first last
    (∀ row, row ∈ rows ↔ ∃ own report, Authorised c s viewer radius own report ∧ row = nearby c own report) ∧
      (rows.map (·.id)).Nodup ∧ (rows.Pairwise fun row row' => row.key ≤ row'.key) ∧
      (∀ first' last' : State, (system c).Reachable first' → Relation.ReflTransGen (State.Step c) first' last' →
        ∀ (weather' : Weather) (cache' : Cache) (hidden : String → Bool),
        let s' := lastRead c viewer first' last'
        s'.now = s.now → s'.log.filter (visible hidden) = s.log.filter (visible hidden) → hidden viewer = false →
        (∀ id, Befriended s.log viewer id → hidden id = false) →
        contents (snapshot c viewer radius first'.moment last'.moment weather' cache').1 = rows) ∧
      last.log.Pairwise Later ∧ ∀ id, last.db.friendCount id ≤ 5000 := by
  have hs := reachable_sound (reachable_lastRead hfirst hlast viewer)
  have hend := reachable_sound (reachable_steps hfirst hlast)
  dsimp only
  rw [contents_snapshot hradius]
  refine ⟨fun _ => hs.mem_answer, hs.answer_nodup viewer radius, answer_sorted _ viewer radius, ?_,
    hend.revisions.increasing, hend.friendships.limit⟩
  intro first' last' hfirst' hlast' weather' cache' hidden hnow hlog hviewer hfriends
  rw [contents_snapshot hradius]
  exact answer_hidden hs (reachable_sound (reachable_lastRead hfirst' hlast' viewer)) hnow hlog hviewer hfriends

/-! ### A run -/

/-- Exact arithmetic, and distances of nothing for one place. -/
def unrounded : Setup where
  ttl := 600
  retention := 86400
  plus := (· + ·)
  minus := (· - ·)
  meters a b := if a = b then 0 else 1000
  sha256 := id
  scan := id
  scan_perm _ := .refl _
  cacheNamespace := "nearby"
  dumps report := report.id
  cachedRevision _ := none

def running (calls : List Call) : State := calls.foldl (State.perform unrounded) ⟨.empty, 1000, .empty, []⟩

theorem running_reachable (calls : List Call) : (system unrounded).Reachable (running calls) := by
  unfold running
  suffices hfold : ∀ s, (system unrounded).Reachable s →
      (system unrounded).Reachable (calls.foldl (State.perform unrounded) s) from hfold _ (.start ⟨rfl, rfl⟩)
  intro s hs
  induction calls generalizing s with
  | nil => exact hs
  | cons call calls ih => exact ih _ (hs.step (.call s call))

def here : Dict String Field :=
  ((Dict.empty.set "latitude" (.number 0)).set "longitude" (.number 0)).set "timestamp" (.number 1000)

/-- Two friends who share report one place. -/
def together : State := running [.provision "alice" "alice-token", .provision "bob" "bob-token",
  .friendship "alice" "bob" "friend.request", .friendship "bob" "alice" "friend.accept",
  .setting "alice" "sharing" true, .setting "bob" "sharing" true, .update "alice" here, .update "bob" here]

theorem snapshot_discloses_together :
    (snapshot unrounded "alice" 100 together.moment together.moment ⟨none, fun _ => false, fun _ => 0, fun _ => false, 1000⟩
      .empty).1 = .ok [⟨"bob", 0, 0, 1000, 2, 0⟩] ∧
      ∀ row, row ∈ contents (snapshot unrounded "alice" 100 together.moment together.moment
        ⟨none, fun _ => false, fun _ => 0, fun _ => false, 1000⟩ .empty).1 ↔
          ∃ own report, Authorised unrounded (lastRead unrounded "alice" together together) "alice" 100 own report ∧
            row = nearby unrounded own report :=
  ⟨by decide +kernel, (snapshot_discloses (running_reachable _) .refl ⟨by norm_num, by norm_num⟩ _ _).1⟩

end SystemDesign.NearbyFriends
