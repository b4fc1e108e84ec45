import SystemDesign.NearbyFriends.System

/-!
The tables in terms of the log: friends and requests, settings and current reports, and the
revisions and time stamps of the reports.
-/

namespace SystemDesign.NearbyFriends

open List hiding le_refl le_trans not_lt
open Dict
open Tables

variable {c : Setup}

/-! ### Pairs of users -/

theorem pair_comm {a b : String} (h : a ≠ b) : pair a b = pair b a := by
  unfold pair
  obtain hlt | hlt := lt_or_gt_of_ne h
  · rw [if_neg hlt.not_gt, if_pos hlt]
  · rw [if_pos hlt, if_neg hlt.not_gt]

theorem pair_lt {a b : String} (h : a ≠ b) : (pair a b).1 < (pair a b).2 := by
  unfold pair
  split
  · assumption
  · rename_i hlt
    exact lt_of_le_of_ne (not_lt.mp hlt) h

theorem pair_eq {a b x y : String} (hab : a ≠ b) : pair a b = pair x y ↔ x = a ∧ y = b ∨ x = b ∧ y = a := by
  constructor
  · intro heq
    unfold pair at heq
    split at heq
    · split at heq
      · exact .inl ⟨(congrArg Prod.snd heq).symm, (congrArg Prod.fst heq).symm⟩
      · exact .inr ⟨(congrArg Prod.fst heq).symm, (congrArg Prod.snd heq).symm⟩
    · split at heq
      · exact .inr ⟨(congrArg Prod.snd heq).symm, (congrArg Prod.fst heq).symm⟩
      · exact .inl ⟨(congrArg Prod.fst heq).symm, (congrArg Prod.snd heq).symm⟩
  · rintro (⟨rfl, rfl⟩ | ⟨rfl, rfl⟩)
    · rfl
    · exact pair_comm hab

theorem mem_insertOrIgnore {row row' : String × String} {rows : List (String × String)} :
    row' ∈ insertOrIgnore row rows ↔ row' ∈ rows ∨ row' = row := by
  unfold insertOrIgnore
  split
  · constructor
    · exact Or.inl
    · rintro (h | rfl)
      · exact h
      · assumption
  · simp

/-! ### Friendships -/

/-- The tables of requests and of friends, in terms of the log. -/
structure Friendships (s : State) : Prop where
  requests : ∀ x y, (x, y) ∈ s.db.requests → Requested s.log x y
  friends : ∀ a b, a ≠ b → (pair a b ∈ s.db.friends ↔ Befriended s.log a b)
  ordered : ∀ row ∈ s.db.friends, row.1 < row.2
  nodup : s.db.friends.Nodup
  distinct : ∀ a, ¬ Befriended s.log a a
  limit : ∀ id, s.db.friendCount id ≤ 5000

variable {s : State}

theorem Friendships.neutral (h : Friendships s) {entry : Entry} (hneutral : entry.Neutral) {db : Tables}
    (hrequests : db.requests = s.db.requests) (hfriends : db.friends = s.db.friends) :
    Friendships { s with db := db, log := entry :: s.log } := by
  constructor
  · intro x y hmem
    rw [hrequests] at hmem
    exact (requested_neutral hneutral).mpr (h.requests x y hmem)
  · intro a b hab
    change pair a b ∈ db.friends ↔ _
    rw [hfriends, befriended_neutral hneutral]
    exact h.friends a b hab
  · intro row hrow
    rw [hfriends] at hrow
    exact h.ordered row hrow
  · change db.friends.Nodup
    rw [hfriends]
    exact h.nodup
  · intro a hbefriended
    exact h.distinct a ((befriended_neutral hneutral).mp hbefriended)
  · intro id
    unfold friendCount
    rw [hfriends]
    exact h.limit id

theorem friendCount_insert {db : Tables} {row : String × String} {id : String} :
    (insertOrIgnore row db.friends).countP (fun row => row.1 = id ∨ row.2 = id) ≤
      db.friendCount id + if row.1 = id ∨ row.2 = id then 1 else 0 := by
  unfold insertOrIgnore
  split
  · exact Nat.le_add_right _ _
  · rw [countP_append, countP_singleton]
    simp only [decide_eq_true_eq]
    exact Nat.le_refl _

theorem Friendships.friendship {s : State} (h : Friendships s) (actor target operation : String) :
    Friendships (s.commit (friendEntry actor target operation) (s.db.friendship actor target operation)) := by
  cases hresult : s.db.friendship actor target operation with
  | error err => exact h
  | ok db =>
    obtain ⟨hne, hcase⟩ := friendship_ok hresult
    obtain ⟨rfl, rfl⟩ | ⟨rfl, hpresent, hactor, htarget, rfl⟩ | ⟨rfl, rfl⟩ := hcase
    · change Friendships { s with
        db := { s.db with requests := insertOrIgnore (actor, target) s.db.requests }
        log := .requested actor target :: s.log }
      have hkeep : ∀ a b, Befriended (.requested actor target :: s.log) a b ↔ Befriended s.log a b := by
        intro a b
        rw [befriended_cons]
        simp [removes]
      refine ⟨?_, fun a b hab => (h.friends a b hab).trans (hkeep a b).symm, h.ordered, h.nodup,
        fun a hbefriended => h.distinct a ((hkeep a a).mp hbefriended), h.limit⟩
      intro x y hmem
      rw [requested_cons]
      obtain hmem | hmem := mem_insertOrIgnore.mp hmem
      · exact .inr ⟨by simp [removes], h.requests x y hmem⟩
      · cases hmem
        exact .inl rfl
    · change Friendships { s with
        db := { s.db with
          friends := insertOrIgnore (pair actor target) s.db.friends
          requests := withoutRequests actor target s.db.requests }
        log := .accepted actor target :: s.log }
      have hrequested := h.requests _ _ hpresent
      have hbefriended : ∀ a b, Befriended (.accepted actor target :: s.log) a b ↔
          (target = a ∧ actor = b ∨ target = b ∧ actor = a) ∨ Befriended s.log a b := by
        intro a b
        rw [befriended_cons]
        constructor
        · rintro (⟨sender, recipient, heq, hpair, -⟩ | ⟨-, hold⟩)
          · cases heq
            exact .inl hpair
          · exact .inr hold
        · rintro (hpair | hold)
          · exact .inl ⟨target, actor, rfl, hpair, hrequested⟩
          · exact .inr ⟨by simp [removes], hold⟩
      constructor
      · intro x y hmem
        rw [requested_cons]
        exact .inr ⟨by simp [removes], h.requests x y (mem_filter.mp hmem).1⟩
      · intro a b hab
        change pair a b ∈ insertOrIgnore (pair actor target) s.db.friends ↔ _
        rw [mem_insertOrIgnore, hbefriended, h.friends a b hab, pair_eq hab]
        tauto
      · intro row hrow
        obtain hrow | rfl := mem_insertOrIgnore.mp hrow
        · exact h.ordered row hrow
        · exact pair_lt hne
      · change (insertOrIgnore (pair actor target) s.db.friends).Nodup
        unfold insertOrIgnore
        split
        · exact h.nodup
        · rename_i hnew
          exact h.nodup.append (nodup_singleton _) (by simpa using hnew)
      · intro a hself
        obtain (⟨rfl, rfl⟩ | ⟨rfl, rfl⟩) | hold := (hbefriended a a).mp hself
        · exact hne rfl
        · exact hne rfl
        · exact h.distinct a hold
      · intro id
        refine friendCount_insert.trans ?_
        have hlimit := h.limit id
        split
        · -- only the counts of the two grow, and both were below the limit
          rename_i hid
          have hcase : id = actor ∨ id = target := by
            unfold pair at hid
            split at hid
            · exact hid.symm.imp Eq.symm Eq.symm
            · exact hid.imp Eq.symm Eq.symm
          obtain rfl | rfl := hcase
          · exact hactor
          · exact htarget
        · exact hlimit
    · change Friendships { s with
        db := { s.db with
          friends := s.db.friends.filter fun row => row ≠ pair actor target
          requests := withoutRequests actor target s.db.requests }
        log := .removed actor target :: s.log }
      have hremoves : ∀ a b, removes a b (.removed actor target) ↔
          (actor = a ∧ target = b ∨ actor = b ∧ target = a) := by
        intro a b
        unfold removes
        simp
      have hkeep : ∀ a b, Befriended (.removed actor target :: s.log) a b ↔
          ¬ (actor = a ∧ target = b ∨ actor = b ∧ target = a) ∧ Befriended s.log a b := by
        intro a b
        rw [befriended_cons, hremoves]
        simp
      constructor
      · intro x y hmem
        obtain ⟨hmem, hother⟩ := mem_filter.mp hmem
        rw [requested_cons, hremoves]
        refine .inr ⟨?_, h.requests x y hmem⟩
        simp only [ne_eq, Prod.mk.injEq, decide_eq_true_eq] at hother
        tauto
      · intro a b hab
        change pair a b ∈ s.db.friends.filter _ ↔ _
        rw [mem_filter, decide_eq_true_eq, hkeep, h.friends a b hab, Ne, pair_eq hab]
        tauto
      · exact fun row hrow => h.ordered row (mem_filter.mp hrow).1
      · exact h.nodup.filter _
      · exact fun a hself => h.distinct a ((hkeep a a).mp hself).2
      · exact fun id => (Sublist.countP_le filter_sublist).trans (h.limit id)

/-! ### Presence -/

theorem latest_id {id : String} {log : List Entry} {report : Report} (h : latest id log = some report) :
    report.id = id := by
  fun_induction latest id log with
  | case1 => cases h
  | case2 log report' hid =>
    cases h
    exact hid
  | case3 log report' hne ih => exact ih h
  | case4 => cases h
  | case5 log id' hne ih => exact ih h
  | case6 entry log _ _ ih => exact ih h

variable (c) in
/-- Settings and current reports, in terms of the log. -/
structure Presence (s : State) : Prop where
  named : ∀ id row, s.db.users.get? id = some row → userId id = .ok ()
  sharing : ∀ id, sharingOn id s.log = ((s.db.users.get? id).map (·.sharing)).getD false
  current : ∀ id row, s.db.current.get? id = some row →
    latest id s.log = some row.body ∧ row.expires = c.plus row.body.receivedAt c.ttl
  kept : ∀ id report, latest id s.log = some report →
    (∃ row, s.db.current.get? id = some row) ∨ c.plus report.receivedAt c.ttl ≤ s.now

theorem Presence.provision {s : State} (h : Presence c s) (id token : String) :
    Presence c (s.commit (.provisioned id) (s.db.provision c id token)) := by
  cases hresult : s.db.provision c id token with
  | error err => exact h
  | ok db =>
    obtain ⟨hvalid, hnew, rfl⟩ := provision_ok c hresult
    refine ⟨fun id' row hrow => ?_, fun id' => ?_, h.current, h.kept⟩
    · obtain ⟨rfl, -⟩ | ⟨-, hrow⟩ := get?_set_cases hrow
      · exact hvalid
      · exact h.named id' row hrow
    change sharingOn id' s.log = (((s.db.users.set id _).get? id').map (·.sharing)).getD false
    rw [get?_set, h.sharing]
    split
    · rename_i heq
      subst heq
      rw [hnew]
      rfl
    · rfl

theorem Presence.friendship {s : State} (h : Presence c s) (actor target operation : String) :
    Presence c (s.commit (friendEntry actor target operation) (s.db.friendship actor target operation)) := by
  cases hresult : s.db.friendship actor target operation with
  | error err => exact h
  | ok db =>
    have hentry : ∀ id log, sharingOn id (friendEntry actor target operation :: log) = sharingOn id log ∧
        latest id (friendEntry actor target operation :: log) = latest id log := by
      intro id log
      unfold friendEntry
      split
      · exact ⟨rfl, rfl⟩
      · split
        · exact ⟨rfl, rfl⟩
        · exact ⟨rfl, rfl⟩
    have hdb : db.users = s.db.users ∧ db.current = s.db.current := by
      obtain ⟨-, ⟨-, rfl⟩ | ⟨-, -, -, -, rfl⟩ | ⟨-, rfl⟩⟩ := friendship_ok hresult
      · exact ⟨rfl, rfl⟩
      · exact ⟨rfl, rfl⟩
      · exact ⟨rfl, rfl⟩
    unfold State.commit
    constructor
    · exact fun id row hrow => h.named id row (hdb.1 ▸ hrow)
    · intro id
      change sharingOn id (_ :: s.log) = ((db.users.get? id).map (·.sharing)).getD false
      rw [(hentry id s.log).1, hdb.1]
      exact h.sharing id
    · intro id row hrow
      change latest id (_ :: s.log) = _ ∧ _
      rw [(hentry id s.log).2]
      exact h.current id row (hdb.2 ▸ hrow)
    · intro id report hreport
      change latest id (_ :: s.log) = _ at hreport
      rw [(hentry id s.log).2] at hreport
      change (∃ row, db.current.get? id = some row) ∨ _
      rw [hdb.2]
      exact h.kept id report hreport

theorem Presence.setting {s : State} (h : Presence c s) (actor kind : String) (enabled : Bool) :
    Presence c (s.commit (settingEntry actor kind enabled) (s.db.setting actor kind enabled)) := by
  cases hresult : s.db.setting actor kind enabled with
  | error err => exact h
  | ok db =>
    obtain ⟨row, hrow, hcase⟩ := setting_ok hresult
    have hnamed : ∀ id row', db.users.get? id = some row' → userId id = .ok () := by
      intro id row' hrow'
      obtain ⟨-, rfl⟩ | ⟨-, rfl⟩ := hcase
      · obtain ⟨rfl, -⟩ | ⟨-, hrow'⟩ := get?_set_cases hrow'
        · exact h.named _ _ hrow
        · exact h.named id row' hrow'
      · obtain ⟨rfl, -⟩ | ⟨-, hrow'⟩ := get?_set_cases hrow'
        · exact h.named _ _ hrow
        · exact h.named id row' hrow'
    obtain ⟨rfl, rfl⟩ | ⟨rfl, rfl⟩ := hcase
    · have hsharing : ∀ id, sharingOn id (.sharing actor enabled :: s.log) =
          (((s.db.users.set actor { row with sharing := enabled, revision := row.revision + 1 }).get? id).map
            (·.sharing)).getD false := by
        intro id
        rw [get?_set]
        change (if actor = id then enabled else sharingOn id s.log) = _
        by_cases heq : id = actor
        · subst heq
          rw [if_pos rfl, if_pos rfl]
          rfl
        · rw [if_neg (Ne.symm heq), if_neg heq]
          exact h.sharing id
      cases enabled with
      | true => exact ⟨hnamed, hsharing, h.current, h.kept⟩
      | false =>
        have hlatest : ∀ id, latest id (.sharing actor false :: s.log) =
            if actor = id then none else latest id s.log := fun _ => rfl
        refine ⟨hnamed, hsharing, ?_, ?_⟩
        · intro id row' hrow'
          change (s.db.current.erase actor).get? id = _ at hrow'
          rw [get?_erase] at hrow'
          split at hrow'
          · cases hrow'
          · rename_i hne
            change latest id (.sharing actor false :: s.log) = _ ∧ _
            rw [hlatest, if_neg (Ne.symm hne)]
            exact h.current id row' hrow'
        · intro id report hreport
          change latest id (.sharing actor false :: s.log) = _ at hreport
          rw [hlatest] at hreport
          split at hreport
          · cases hreport
          · rename_i hne
            change (∃ row, (s.db.current.erase actor).get? id = some row) ∨ _
            rw [get?_erase, if_neg (Ne.symm hne)]
            exact h.kept id report hreport
    · refine ⟨hnamed, fun id => ?_, h.current, h.kept⟩
      change sharingOn id s.log = (((s.db.users.set actor { row with history := enabled }).get? id).map
        (·.sharing)).getD false
      rw [get?_set, h.sharing]
      split
      · rename_i heq
        subst heq
        rw [hrow]
        rfl
      · rfl

theorem Presence.update (h : Presence c s) (actor : String) (body : Dict String Field) :
    Presence c (s.perform c (.update actor body)) := by
  unfold State.perform
  dsimp only
  split
  · rename_i report db hresult
    obtain ⟨row, hrow, hshares, -, hid, hreceived, -, husers, hcurrent, -, -⟩ := update_ok c hresult
    have hlatest : ∀ id, latest id (.updated report :: s.log) =
        if actor = id then some report else latest id s.log := by
      intro id
      rw [← hid]
      rfl
    constructor
    · intro id row' hrow'
      change db.users.get? id = _ at hrow'
      rw [husers] at hrow'
      obtain ⟨rfl, -⟩ | ⟨-, hrow'⟩ := get?_set_cases hrow'
      · exact h.named _ _ hrow
      · exact h.named id row' hrow'
    · intro id
      change sharingOn id s.log = ((db.users.get? id).map (·.sharing)).getD false
      rw [husers, get?_set, h.sharing]
      split
      · rename_i heq
        subst heq
        rw [hrow]
        rfl
      · rfl
    · intro id row' hrow'
      change db.current.get? id = _ at hrow'
      rw [hcurrent] at hrow'
      change latest id (.updated report :: s.log) = _ ∧ _
      rw [hlatest]
      obtain ⟨rfl, rfl⟩ | ⟨hne, hrow'⟩ := get?_set_cases hrow'
      · rw [if_pos rfl, hreceived]
        exact ⟨rfl, rfl⟩
      · rw [if_neg (Ne.symm hne)]
        exact h.current id row' hrow'
    · intro id report' hreport'
      change latest id (.updated report :: s.log) = _ at hreport'
      rw [hlatest] at hreport'
      change (∃ row, db.current.get? id = some row) ∨ _
      rw [hcurrent, get?_set]
      split at hreport'
      · rename_i heq
        rw [if_pos heq.symm]
        exact .inl ⟨_, rfl⟩
      · rename_i hne
        rw [if_neg (Ne.symm hne)]
        exact h.kept id report' hreport'
  · exact h

/-- A sweep takes nothing that could still be shown. -/
theorem Presence.sweep {s : State} (h : Presence c s) : Presence c (s.perform c .sweep) := by
  constructor
  · exact h.named
  · exact h.sharing
  · intro id row hrow
    change (s.db.sweep c s.now).current.get? id = _ at hrow
    rw [get?_sweep] at hrow
    split at hrow
    · rename_i row' hget
      split at hrow
      · cases hrow
      · cases hrow
        exact h.current id row hget
    · cases hrow
  · intro id report hreport
    change (∃ row, (s.db.sweep c s.now).current.get? id = some row) ∨ _
    rw [get?_sweep]
    obtain ⟨row, hrow⟩ | hexpired := h.kept id report hreport
    · rw [hrow]
      dsimp only
      split
      · rename_i hexpired
        obtain ⟨hlatest, hexpires⟩ := h.current id row hrow
        rw [hexpires] at hexpired
        have hsame : report = row.body := Option.some.inj (hreport.symm.trans hlatest)
        exact .inr (hsame ▸ hexpired)
      · exact .inl ⟨row, rfl⟩
    · exact .inr hexpired

/-! ### Revisions -/

/-- Of two reports of one user the later has the greater revision and time stamp. -/
def Later (entry entry' : Entry) : Prop :=
  ∀ report report', entry = .updated report → entry' = .updated report' → report.id = report'.id →
    report'.revision < report.revision ∧ report'.timestamp < report.timestamp

structure Revisions (s : State) : Prop where
  known : ∀ report, .updated report ∈ s.log → ∃ row, s.db.users.get? report.id = some row ∧
    report.revision ≤ row.revision ∧ report.timestamp ≤ row.lastTs
  increasing : s.log.Pairwise Later

/-- Users stay, with at least their revision and the time stamp they had. -/
theorem Revisions.commit (h : Revisions s) {entry : Entry} {db : Tables} (hentry : ∀ report, entry ≠ .updated report)
    (husers : ∀ id row, s.db.users.get? id = some row → ∃ row', db.users.get? id = some row' ∧
      row.revision ≤ row'.revision ∧ row.lastTs ≤ row'.lastTs) :
    Revisions { s with db := db, log := entry :: s.log } := by
  constructor
  · intro report hmem
    obtain hsame | hmem := mem_cons.mp hmem
    · exact absurd hsame.symm (hentry report)
    · obtain ⟨row, hrow, hrevision, hstamp⟩ := h.known report hmem
      obtain ⟨row', hrow', hrevision', hstamp'⟩ := husers _ _ hrow
      exact ⟨row', hrow', hrevision.trans hrevision', hstamp.trans hstamp'⟩
  · exact pairwise_cons.mpr ⟨fun _ _ report _ hsame => absurd hsame (hentry report), h.increasing⟩

theorem Revisions.perform {s : State} (h : Revisions s) (call : Call) : Revisions (s.perform c call) := by
  cases call with
  | provision id token =>
    unfold State.perform
    dsimp only
    cases hresult : s.db.provision c id token with
    | error err => exact h
    | ok db =>
      obtain ⟨-, hnew, rfl⟩ := provision_ok c hresult
      refine h.commit (fun _ => nofun) fun id' row hrow => ⟨row, ?_, Nat.le_refl _, le_refl _⟩
      rw [get?_set, if_neg]
      · exact hrow
      · rintro rfl
        rw [hnew] at hrow
        cases hrow
  | friendship actor target operation =>
    unfold State.perform
    dsimp only
    cases hresult : s.db.friendship actor target operation with
    | error err => exact h
    | ok db =>
      refine h.commit (fun _ => ?_) fun id row hrow => ⟨row, ?_, Nat.le_refl _, le_refl _⟩
      · unfold friendEntry
        split
        · exact nofun
        · split
          · exact nofun
          · exact nofun
      · obtain ⟨-, ⟨-, rfl⟩ | ⟨-, -, -, -, rfl⟩ | ⟨-, rfl⟩⟩ := friendship_ok hresult
        · exact hrow
        · exact hrow
        · exact hrow
  | setting actor kind enabled =>
    unfold State.perform
    dsimp only
    cases hresult : s.db.setting actor kind enabled with
    | error err => exact h
    | ok db =>
      refine h.commit (fun _ => ?_) fun id row hrow => ?_
      · unfold settingEntry
        split
        · exact nofun
        · exact nofun
      · obtain ⟨row', hrow', ⟨-, rfl⟩ | ⟨-, rfl⟩⟩ := setting_ok hresult
        · rw [get?_set]
          split
          · rename_i heq
            subst heq
            rw [hrow'] at hrow
            cases hrow
            exact ⟨_, rfl, Nat.le_succ _, le_refl _⟩
          · exact ⟨row, hrow, Nat.le_refl _, le_refl _⟩
        · rw [get?_set]
          split
          · rename_i heq
            subst heq
            rw [hrow'] at hrow
            cases hrow
            exact ⟨_, rfl, Nat.le_refl _, le_refl _⟩
          · exact ⟨row, hrow, Nat.le_refl _, le_refl _⟩
  | update actor body =>
    unfold State.perform
    dsimp only
    split
    · rename_i report db hresult
      obtain ⟨row, hrow, -, hstamp, hid, -, hrevision, husers, -, -, -⟩ := update_ok c hresult
      -- the user's earlier reports have at most the revision and the stamp of the row
      have hearlier : ∀ report', .updated report' ∈ s.log → report'.id = actor →
          report'.revision < report.revision ∧ report'.timestamp < report.timestamp := by
        intro report' hmem hid'
        obtain ⟨row', hrow', hrevision', hstamp'⟩ := h.known report' hmem
        rw [hid', hrow] at hrow'
        cases hrow'
        exact ⟨by omega, hstamp'.trans_lt hstamp⟩
      constructor
      · intro report' hmem
        change ∃ row, db.users.get? report'.id = some row ∧ _
        rw [husers, get?_set]
        obtain hsame | hmem := mem_cons.mp hmem
        · cases hsame
          rw [if_pos hid]
          exact ⟨_, rfl, Nat.le_refl _, le_refl _⟩
        · split
          · rename_i heq
            obtain ⟨hrev, hts⟩ := hearlier report' hmem heq
            exact ⟨_, rfl, hrev.le, hts.le⟩
          · exact h.known report' hmem
      · refine pairwise_cons.mpr ⟨?_, h.increasing⟩
        rintro entry hmem _ report' ⟨⟩ rfl hsame
        exact hearlier report' hmem (hsame.symm.trans hid)
    · exact h
  | sweep => exact h.commit (fun _ => nofun) fun id row hrow => ⟨row, hrow, Nat.le_refl _, le_refl _⟩

/-! ### Every run -/

theorem Friendships.perform {s : State} (h : Friendships s) (call : Call) : Friendships (s.perform c call) := by
  cases call with
  | provision id token =>
    unfold State.perform
    dsimp only
    cases hresult : s.db.provision c id token with
    | error err => exact h
    | ok db =>
      obtain ⟨-, -, rfl⟩ := provision_ok c hresult
      have hneutral : (Entry.provisioned id).Neutral := trivial
      exact h.neutral hneutral rfl rfl
  | friendship actor target operation => exact h.friendship actor target operation
  | setting actor kind enabled =>
    unfold State.perform
    dsimp only
    cases hresult : s.db.setting actor kind enabled with
    | error err => exact h
    | ok db =>
      have hneutral : (settingEntry actor kind enabled).Neutral := by
        unfold settingEntry
        split
        · trivial
        · trivial
      obtain ⟨-, -, ⟨-, rfl⟩ | ⟨-, rfl⟩⟩ := setting_ok hresult
      · exact h.neutral hneutral rfl rfl
      · exact h.neutral hneutral rfl rfl
  | update actor body =>
    unfold State.perform
    dsimp only
    split
    · rename_i report db hresult
      obtain ⟨-, -, -, -, -, -, -, -, -, hrequests, hfriends⟩ := update_ok c hresult
      have hneutral : (Entry.updated report).Neutral := trivial
      exact h.neutral hneutral hrequests hfriends
    · exact h
  | sweep =>
    have hneutral : Entry.swept.Neutral := trivial
    exact h.neutral hneutral rfl rfl

theorem Presence.perform (h : Presence c s) (call : Call) : Presence c (s.perform c call) := by
  cases call with
  | provision id token => exact h.provision id token
  | friendship actor target operation => exact h.friendship actor target operation
  | setting actor kind enabled => exact h.setting actor kind enabled
  | update actor body => exact h.update actor body
  | sweep => exact h.sweep

variable (c) in
structure Sound (s : State) : Prop where
  friendships : Friendships s
  presence : Presence c s
  revisions : Revisions s

theorem Sound.step {s' : State} (h : Sound c s) (hstep : s.Step c s') : Sound c s' := by
  cases hstep with
  | call call => exact ⟨h.friendships.perform call, h.presence.perform call, h.revisions.perform call⟩
  | clock now hnow =>
    obtain ⟨⟨hrequests, hfriends, hordered, hnodup, hdistinct, hlimit⟩, ⟨hnamed, hsharing, hcurrent, hkept⟩,
      ⟨hknown, hincreasing⟩⟩ := h
    exact ⟨⟨hrequests, hfriends, hordered, hnodup, hdistinct, hlimit⟩,
      ⟨hnamed, hsharing, hcurrent, fun id report hreport => (hkept id report hreport).imp_right (le_trans · hnow)⟩,
      ⟨hknown, hincreasing⟩⟩
  | cache cache =>
    obtain ⟨⟨hrequests, hfriends, hordered, hnodup, hdistinct, hlimit⟩, ⟨hnamed, hsharing, hcurrent, hkept⟩,
      ⟨hknown, hincreasing⟩⟩ := h
    exact ⟨⟨hrequests, hfriends, hordered, hnodup, hdistinct, hlimit⟩, ⟨hnamed, hsharing, hcurrent, hkept⟩,
      ⟨hknown, hincreasing⟩⟩

theorem reachable_sound (h : (system c).Reachable s) : Sound c s := by
  refine h.invariant (P := Sound c) ?_ fun s s' _ hs hstep => hs.step hstep
  rintro ⟨_, now, cache, _⟩ ⟨rfl, rfl⟩
  have hnone : ∀ a b, ¬ Befriended [] a b := by
    rintro a b ⟨newer, older, sender, recipient, heq, -⟩
    cases newer with
    | nil => cases heq
    | cons _ _ => cases heq
  exact ⟨⟨fun _ _ h => (nomatch h), fun a b _ => ⟨fun h => (nomatch h), fun h => (hnone a b h).elim⟩,
      fun _ h => (nomatch h), nodup_nil, fun a => hnone a a, fun _ => Nat.zero_le _⟩,
    ⟨fun _ _ h => (nomatch h), fun _ => rfl, fun _ _ h => (nomatch h), fun _ _ h => (nomatch h)⟩,
    ⟨fun _ h => (nomatch h), List.Pairwise.nil⟩⟩

end SystemDesign.NearbyFriends
