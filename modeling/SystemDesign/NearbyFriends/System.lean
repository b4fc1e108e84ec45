import SystemDesign.NearbyFriends.Store

/-!
The store over time: transactions in any order, a clock that does not go back and a cache
that may hold anything.

`log` records what was committed, the latest first. What a snapshot may disclose is said of
the log alone: who is befriended, who shares, which report is the latest. `Friendships`,
`Presence` and `Revisions` relate it to the tables.
-/

namespace SystemDesign.NearbyFriends

/-- A transaction that was committed. -/
inductive Entry where
  | provisioned (user : String)
  | requested (actor target : String)
  | accepted (actor target : String)
  | removed (actor target : String)
  | sharing (user : String) (enabled : Bool)
  | history (user : String) (enabled : Bool)
  | updated (report : Report)
  | swept

structure State where
  db : Tables
  now : ℚ
  cache : Cache
  log : List Entry

inductive Call where
  | provision (id token : String)
  | friendship (actor target operation : String)
  | setting (actor kind : String) (enabled : Bool)
  | update (actor : String) (body : Dict String Field)
  | sweep

/-! ### What the log says -/

/-- The entry ends what was between the two users. -/
def removes (a b : String) (entry : Entry) : Prop := entry = .removed a b ∨ entry = .removed b a

/-- A request that no removal of the pair has followed. -/
def Requested (log : List Entry) (sender recipient : String) : Prop :=
  ∃ newer older, log = newer ++ .requested sender recipient :: older ∧ ∀ entry ∈ newer, ¬ removes sender recipient entry

/-- Since the last removal of the pair, one requested and the other later accepted. -/
def Befriended (log : List Entry) (a b : String) : Prop :=
  ∃ newer older sender recipient, log = newer ++ .accepted recipient sender :: older ∧
    (sender = a ∧ recipient = b ∨ sender = b ∧ recipient = a) ∧
    (∀ entry ∈ newer, ¬ removes a b entry) ∧ Requested older sender recipient

/-- The latest setting. -/
def sharingOn (user : String) : List Entry → Bool
  | [] => false
  | .sharing id enabled :: log => if id = user then enabled else sharingOn user log
  | _ :: log => sharingOn user log

/-- The latest accepted update since the user last turned sharing off. -/
def latest (user : String) : List Entry → Option Report
  | [] => none
  | .updated report :: log => if report.id = user then some report else latest user log
  | .sharing id false :: log => if id = user then none else latest user log
  | _ :: log => latest user log

/-! ### The system -/

variable (c : Setup)

def friendEntry (actor target operation : String) : Entry :=
  if operation = "friend.request" then .requested actor target
  else if operation = "friend.accept" then .accepted actor target
  else .removed actor target

def settingEntry (actor kind : String) (enabled : Bool) : Entry :=
  if kind = "sharing" then .sharing actor enabled else .history actor enabled

/-- A transaction that fails is rolled back. -/
def State.commit (s : State) (entry : Entry) : Except Error Tables → State
  | .ok db => { s with db := db, log := entry :: s.log }
  | .error _ => s

def State.perform (s : State) : Call → State
  | .provision id token => s.commit (.provisioned id) (s.db.provision c id token)
  | .friendship actor target operation =>
    s.commit (friendEntry actor target operation) (s.db.friendship actor target operation)
  | .setting actor kind enabled => s.commit (settingEntry actor kind enabled) (s.db.setting actor kind enabled)
  | .update actor body => match s.db.update c s.now actor body with
    | .ok (report, db) => { s with db := db, log := .updated report :: s.log }
    | .error _ => s
  | .sweep => { s with db := s.db.sweep c s.now, log := .swept :: s.log }

inductive State.Step : State → State → Prop
  | call (s : State) (call : Call) : Step s (s.perform c call)
  | clock (s : State) (now : ℚ) : s.now ≤ now → Step s { s with now := now }
  | cache (s : State) (cache : Cache) : Step s { s with cache := cache }

def Tables.empty : Tables := ⟨.empty, [], [], .empty, []⟩

def system : Transitions State where
  start s := s.db = .empty ∧ s.log = []
  step := State.Step c

/-! ### Lists of entries -/

variable {entry : Entry} {log : List Entry}

theorem requested_cons {x y : String} :
    Requested (entry :: log) x y ↔ entry = .requested x y ∨ ¬ removes x y entry ∧ Requested log x y := by
  constructor
  · rintro ⟨newer, older, heq, hnewer⟩
    cases newer with
    | nil => exact .inl (List.cons.inj heq).1
    | cons first newer =>
      obtain ⟨rfl, rfl⟩ := List.cons.inj heq
      exact .inr ⟨hnewer _ (List.mem_cons_self ..), newer, older, rfl, fun e he => hnewer e (List.mem_cons_of_mem _ he)⟩
  · rintro (rfl | ⟨hnot, newer, older, rfl, hnewer⟩)
    · exact ⟨[], log, rfl, fun _ h => nomatch h⟩
    · exact ⟨entry :: newer, older, rfl, List.forall_mem_cons.mpr ⟨hnot, hnewer⟩⟩

theorem befriended_cons {a b : String} : Befriended (entry :: log) a b ↔
      (∃ sender recipient, entry = .accepted recipient sender ∧
        (sender = a ∧ recipient = b ∨ sender = b ∧ recipient = a) ∧ Requested log sender recipient) ∨
      ¬ removes a b entry ∧ Befriended log a b := by
  constructor
  · rintro ⟨newer, older, sender, recipient, heq, hpair, hnewer, hrequested⟩
    cases newer with
    | nil =>
      obtain ⟨rfl, rfl⟩ := List.cons.inj heq
      exact .inl ⟨sender, recipient, rfl, hpair, hrequested⟩
    | cons first newer =>
      obtain ⟨rfl, rfl⟩ := List.cons.inj heq
      exact .inr ⟨hnewer _ (List.mem_cons_self ..), newer, older, sender, recipient, rfl, hpair,
        fun e he => hnewer e (List.mem_cons_of_mem _ he), hrequested⟩
  · rintro (⟨sender, recipient, rfl, hpair, hrequested⟩ | ⟨hnot, newer, older, sender, recipient, rfl, hpair, hnewer, hrequested⟩)
    · exact ⟨[], log, sender, recipient, rfl, hpair, fun _ h => (nomatch h), hrequested⟩
    · exact ⟨entry :: newer, older, sender, recipient, rfl, hpair, List.forall_mem_cons.mpr ⟨hnot, hnewer⟩, hrequested⟩

/-- An entry about no friendship. -/
def Entry.Neutral : Entry → Prop
  | .requested _ _ | .accepted _ _ | .removed _ _ => False
  | _ => True

theorem requested_neutral (h : entry.Neutral) {x y : String} : Requested (entry :: log) x y ↔ Requested log x y := by
  rw [requested_cons]
  cases entry <;> simp_all [Entry.Neutral, removes]

theorem befriended_neutral (h : entry.Neutral) {a b : String} : Befriended (entry :: log) a b ↔ Befriended log a b := by
  rw [befriended_cons]
  cases entry <;> simp_all [Entry.Neutral, removes]

/-! ### What a transaction does -/

namespace Tables

variable {db : Tables}

theorem user_ok {id : String} {row : User} (h : db.user id = .ok row) : db.users.get? id = some row := by
  unfold user at h
  cases hid : userId id with
  | error err =>
    rw [hid] at h
    cases h
  | ok _ =>
    rw [hid] at h
    dsimp only [bind, Except.bind] at h
    split at h
    · rename_i hget
      cases h
      exact hget
    · cases h

variable {actor : String} {db' : Tables}

/-- A transaction on a friendship that is committed. -/
theorem friendship_ok {target operation : String} (h : db.friendship actor target operation = .ok db') :
    actor ≠ target ∧
      ((operation = "friend.request" ∧ db' = { db with requests := insertOrIgnore (actor, target) db.requests }) ∨
       (operation = "friend.accept" ∧ (target, actor) ∈ db.requests ∧
        db.friendCount actor < 5000 ∧ db.friendCount target < 5000 ∧
        db' = { db with
          friends := insertOrIgnore (pair actor target) db.friends
          requests := withoutRequests actor target db.requests }) ∨
       (operation = "friend.remove" ∧ db' = { db with
          friends := db.friends.filter fun row => row ≠ pair actor target
          requests := withoutRequests actor target db.requests })) := by
  unfold friendship at h
  cases hactor : userId actor with
  | error err =>
    rw [hactor] at h
    cases h
  | ok _ =>
    cases htarget : userId target with
    | error err =>
      rw [hactor, htarget] at h
      cases h
    | ok _ =>
      rw [hactor, htarget] at h
      simp only [bind, Except.bind] at h
      split at h
      · cases h
      · rename_i hop
        split at h
        · cases h
        · rename_i hne
          refine ⟨hne, ?_⟩
          cases hrow : db.user actor with
          | error err =>
            rw [hrow] at h
            cases h
          | ok row =>
            cases hrow' : db.user target with
            | error err =>
              rw [hrow, hrow'] at h
              cases h
            | ok row' =>
              rw [hrow, hrow'] at h
              dsimp only at h
              split at h
              · rename_i hrequest
                cases h
                exact .inl ⟨hrequest, rfl⟩
              · split at h
                · rename_i haccept
                  split at h
                  · cases h
                  · rename_i hpresent
                    split at h
                    · cases h
                    · rename_i hcount
                      cases h
                      rw [not_or, not_le, not_le] at hcount
                      exact .inr (.inl ⟨haccept, not_not.mp hpresent, hcount.1, hcount.2, rfl⟩)
                · rename_i hnot hnot'
                  cases h
                  refine .inr (.inr ⟨?_, rfl⟩)
                  simpa [hnot, hnot'] using hop

theorem setting_ok {kind : String} {enabled : Bool} (h : db.setting actor kind enabled = .ok db') :
    ∃ row, db.users.get? actor = some row ∧ ((kind = "sharing" ∧ db' = { db with
          users := db.users.set actor { row with sharing := enabled, revision := row.revision + 1 }
          current := if enabled then db.current else db.current.erase actor }) ∨
       (kind = "history" ∧ db' = { db with
          users := db.users.set actor { row with history := enabled }
          history := if enabled then db.history else db.history.filter fun past => past.user ≠ actor })) := by
  unfold setting at h
  split at h
  · cases h
  · rename_i hkind
    cases hrow : db.user actor with
    | error err =>
      rw [hrow] at h
      cases h
    | ok row =>
      rw [hrow] at h
      simp only [bind, Except.bind] at h
      refine ⟨row, user_ok hrow, ?_⟩
      split at h
      · rename_i hsharing
        cases h
        exact .inl ⟨hsharing, rfl⟩
      · rename_i hnot
        cases h
        refine .inr ⟨?_, rfl⟩
        simpa [hnot] using hkind

theorem update_ok {now : ℚ} {body : Dict String Field} {report : Report}
    (h : db.update c now actor body = .ok (report, db')) : ∃ row, db.users.get? actor = some row ∧
      row.sharing = true ∧ row.lastTs < report.timestamp ∧ report.id = actor ∧
      report.receivedAt = now ∧ report.revision = row.revision + 1 ∧
      db'.users = db.users.set actor { row with revision := report.revision, lastTs := report.timestamp } ∧
      db'.current = db.current.set actor ⟨report, c.plus now c.ttl⟩ ∧
      db'.requests = db.requests ∧ db'.friends = db.friends := by
  unfold update at h
  cases hactor : userId actor with
  | error err =>
    rw [hactor] at h
    cases h
  | ok _ =>
    cases hplace : location body with
    | error err =>
      rw [hactor, hplace] at h
      cases h
    | ok place =>
      cases hrow : db.user actor with
      | error err =>
        rw [hactor, hplace, hrow] at h
        cases h
      | ok row =>
        rw [hactor, hplace, hrow] at h
        simp only [bind, Except.bind] at h
        split at h
        · cases h
        · split at h
          · cases h
          · rename_i hsharing
            split at h
            · cases h
            · rename_i hstamp
              cases h
              exact ⟨row, user_ok hrow, by simpa using hsharing, not_le.mp hstamp, rfl, rfl, rfl, rfl, rfl, rfl, rfl⟩

theorem provision_ok {id token : String} (h : db.provision c id token = .ok db') :
    userId id = .ok () ∧ db.users.get? id = none ∧
      db' = { db with users := db.users.set id ⟨c.sha256 token, false, false, 0, 0⟩ } := by
  unfold provision at h
  cases hid : userId id with
  | error err =>
    rw [hid] at h
    cases h
  | ok _ =>
    rw [hid] at h
    simp only [bind, Except.bind] at h
    split at h
    · split at h
      · rename_i hfree
        cases h
        exact ⟨rfl, Option.isNone_iff_eq_none.mp hfree.1, rfl⟩
      · cases h
    · cases h

theorem get?_sweep (now : ℚ) (db : Tables) (id : String) :
    (db.sweep c now).current.get? id = match db.current.get? id with
      | some row => if row.expires ≤ now then none else some row
      | none => none := by
  suffices hfold : ∀ (ids : List String) (current : Dict String Current),
      (ids.foldl (db.dropExpired now) current).get? id =
        if id ∈ ids ∧ ∃ row, db.current.get? id = some row ∧ row.expires ≤ now then none else current.get? id by
    unfold sweep
    dsimp only
    rw [hfold]
    cases hget : db.current.get? id with
    | none => simp
    | some row =>
      have hmem : id ∈ db.current.keys := Dict.mem_keys.mpr ⟨row, hget⟩
      simp [hmem]
  intro ids
  induction ids with
  | nil => simp
  | cons first ids ih =>
    intro current
    rw [List.foldl_cons, ih]
    unfold dropExpired
    by_cases hfirst : id = first
    · subst hfirst
      cases hget : db.current.get? id with
      | none => simp
      | some row =>
        by_cases hexpired : row.expires ≤ now
        · simp [hexpired, Dict.get?_erase]
        · simp [hexpired]
    · simp only [List.mem_cons, hfirst, false_or]
      split
      · rfl
      · split
        · split
          · rw [Dict.get?_erase, if_neg hfirst]
          · rfl
        · rfl

end Tables

end SystemDesign.NearbyFriends
