import SystemDesign.Chat.Fanout

/-!
Every call leaves the four maps of the registry in agreement and the worklist empty.

Most calls are made of four parts: a user's sessions expire, a session is disconnected, a
message is put into a queue, the clock is read. What these keep (`Kept`) the calls keep.
-/

namespace SystemDesign.Chat

open List

namespace ChatService

variable {τ μ : Type} [LinearOrder τ] [Sub τ] {c : Setup τ}

/-! ### What the parts of a call keep -/

variable (c) in
structure Kept (P : ChatService τ μ → Prop) : Prop where
  tick : ∀ {s}, P s → P s.tick
  expireUser : ∀ {s} user, P s → P (s.expireUser c (publishPresence c) user)
  disconnect : ∀ {s} i, P s → P (s.disconnect c (publishPresence c) i)
  message : ∀ {s} i message, P s → P (s.enqueue c (publishPresence c) i (.message message))

section

variable {P : ChatService τ μ → Prop} (hP : Kept c P)
include hP

theorem Kept.validateSession {s : ChatService τ μ} (h : P s) (i : SessionId) : P (s.validateSession c i).2 := by
  have hexpired := hP.expireUser (s.object i).userId h
  unfold ChatService.validateSession
  dsimp only
  split
  · exact hexpired
  · split
    · exact hexpired
    · split
      · exact hexpired
      · exact hP.disconnect i hexpired

theorem Kept.expireSessions {s : ChatService τ μ} (h : P s) : P (s.expireSessions c) := by
  unfold ChatService.expireSessions
  generalize s.userSessions.keys = users
  induction users generalizing s with
  | nil => exact h
  | cons user users ih => exact ih (hP.expireUser user h)

theorem Kept.isOnline {s : ChatService τ μ} (h : P s) (user : String) : P (s.isOnline c user).2 :=
  hP.tick (hP.expireUser user h)

theorem Kept.deliverTo {acc : List String × ChatService τ μ} (h : P acc.2) (message : μ)
    (sender user : String) : P (deliverTo c message sender acc user).2 := by
  have hexpired := hP.expireUser user h
  unfold ChatService.deliverTo
  dsimp only
  generalize acc.2.expireUser c (publishPresence c) user = s at hexpired
  have hsent : P ((c.order (members s.userSessions user)).foldl
      (fun s target => s.enqueue c (publishPresence c) target (.message message)) s) := by
    generalize c.order (members s.userSessions user) = targets
    induction targets generalizing s with
    | nil => exact hexpired
    | cons target targets ih => exact ih _ (hP.message target message hexpired)
  split
  · exact hsent
  · exact hP.tick hsent

theorem Kept.deliverLive {s : ChatService τ μ} (h : P s) (message : μ) (users : List String)
    (sender : String) : P (s.deliverLive c message users sender).2 := by
  unfold ChatService.deliverLive
  suffices hfold : ∀ acc : List String × ChatService τ μ, P acc.2 →
      P (users.foldl (ChatService.deliverTo c message sender) acc).2 from hfold _ h
  intro acc hacc
  induction users generalizing acc with
  | nil => exact hacc
  | cons user users ih => exact ih _ (hP.deliverTo hacc message sender user)

/-- Subscribing also keeps what the registration and each answer keep. -/
theorem Kept.subscribePresence {s : ChatService τ μ} (h : P s) (i : SessionId) (values : List String)
    (hwatch : ∀ {s users}, P s → s.sessions.get? (s.key i) = some i → users.Nodup → P (s.watch c i users))
    (hask : ∀ {acc} user, P acc.2 → P (ask c i acc user).2) :
    P (s.subscribePresence c i values).2 := by
  have hvalid := hP.validateSession h i
  have hregistered : ∀ s', s.validateSession c i = (.ok (), s') → s'.sessions.get? (s'.key i) = some i := by
    intro s' heq
    unfold ChatService.validateSession at heq
    dsimp only at heq
    split at heq
    · cases heq
    · rename_i hopen
      split at heq
      · cases heq
      · split at heq
        · cases heq
          exact not_not.mp (not_or.mp hopen).2
        · cases heq
  unfold ChatService.subscribePresence
  split
  · rename_i heq
    rw [heq] at hvalid
    exact hvalid
  · rename_i s' heq
    rw [heq] at hvalid
    unfold userIds
    split_ifs
    · have hwatched := hwatch hvalid (hregistered s' heq) values.nodup_dedup
      suffices hfold : ∀ (users : List String) (acc : Dict String Bool × ChatService τ μ), P acc.2 →
          P (users.foldl (ask c i) acc).2 from hfold _ _ hwatched
      intro users
      induction users with
      | nil => exact fun acc hacc => hacc
      | cons user users ih => exact fun acc hacc => ih _ (hask user hacc)
    · exact hvalid

end

/-! ### Calls -/

/-- Nothing is being published. -/
structure Idle (s : ChatService τ μ) : Prop where
  events : s.presenceEvents = []
  flag : s.publishing = false

/-- A call that leaves the service in order. -/
structure Orderly (c : Setup τ) (s s' : ChatService τ μ) : Prop where
  registry : Registry c s'
  idle : Idle s'
  silent : Silent s s'

theorem Orderly.trans {s s' s'' : ChatService τ μ} (h : Orderly c s s') (h' : Orderly c s' s'') :
    Orderly c s s'' := ⟨h'.registry, h'.idle, h.silent.trans h'.silent⟩

variable {s : ChatService τ μ}

theorem Registry.orderly (h : Registry c s) (hidle : Idle s) : Orderly c s s := ⟨h, hidle, Silent.refl s⟩

theorem Registry.publishPresence {s : ChatService τ μ} (h : Registry c s) (hflag : s.publishing = false)
    (user : String) (online : Bool) : Orderly c s (s.publishPresence c user online) := by
  have hsmalls := publishPresence_smalls (c := c) user online s
  refine ⟨h.smalls hsmalls, ?_, hsmalls.silent⟩
  have hannounced : Registry c { s.announce user online with publishing := true } :=
    (h.small (.events s _)).small (.flag _ true)
  have hdrained := hannounced.drain_empties (Nat.le_refl _)
  have hne : ¬ (s.announce user online).publishing = true := by
    change ¬ s.publishing = true
    rw [hflag]
    exact Bool.false_ne_true
  unfold ChatService.publishPresence
  dsimp only
  rw [if_neg hne]
  exact ⟨hdrained, rfl⟩

theorem Registry.announceGone {s : ChatService τ μ} (h : Registry c s) (hidle : Idle s) (user : String) :
    Orderly c s (s.announceGone c (ChatService.publishPresence c) user) := by
  have htick : Orderly c s s.tick := ⟨h.small (.tick s), ⟨hidle.events, hidle.flag⟩, (Small.tick (c := c) s).silent⟩
  unfold ChatService.announceGone
  split
  · exact htick
  · exact htick.trans (htick.registry.publishPresence hidle.flag user false)

theorem Registry.closeAll (h : Registry c s) (hidle : Idle s) (ids : List SessionId) :
    Orderly c s (s.closeAll ids) := by
  have hsmalls := closeAll_smalls (c := c) s ids
  obtain ⟨-, -, hevents, hflag, -⟩ := closeAll_rest s ids
  exact ⟨h.smalls hsmalls, ⟨hevents.trans hidle.events, hflag.trans hidle.flag⟩, hsmalls.silent⟩

theorem Registry.expireUser {s : ChatService τ μ} (h : Registry c s) (hidle : Idle s) (user : String) :
    Orderly c s (s.expireUser c (ChatService.publishPresence c) user) := by
  have htick : Orderly c s s.tick := ⟨h.small (.tick s), ⟨hidle.events, hidle.flag⟩, (Small.tick (c := c) s).silent⟩
  have hclosed := htick.trans (htick.registry.closeAll htick.idle
    ((c.order (members s.userSessions user)).filter (s.tick.stale c (c.clock s.reading) user)))
  unfold ChatService.expireUser
  rw [expireAll_eq]
  dsimp only
  split
  · exact hclosed.trans (hclosed.registry.announceGone hclosed.idle user)
  · exact hclosed

theorem Registry.disconnect {s : ChatService τ μ} (h : Registry c s) (hidle : Idle s) (i : SessionId) :
    Orderly c s (s.disconnect c (ChatService.publishPresence c) i) := by
  unfold ChatService.disconnect
  split
  · have hclosed := h.closeAll hidle [i]
    exact hclosed.trans (hclosed.registry.announceGone hclosed.idle _)
  · exact h.orderly hidle

theorem Registry.enqueue {s : ChatService τ μ} (h : Registry c s) (hidle : Idle s) (i : SessionId)
    (event : LiveEvent μ) : Orderly c s (s.enqueue c (ChatService.publishPresence c) i event) := by
  unfold ChatService.enqueue
  split
  · exact h.orderly hidle
  · rename_i hclosed
    split
    · rename_i hroom
      have hput := Small.put s i event (Bool.not_eq_true _ ▸ hclosed) hroom
      exact ⟨h.small hput, ⟨hidle.events, hidle.flag⟩, hput.silent⟩
    · exact h.disconnect hidle i

/-! ### Every call -/

theorem Orderly.kept (s : ChatService τ μ) : Kept c (Orderly c s) where
  tick h := h.trans ⟨h.registry.small (.tick _), ⟨h.idle.events, h.idle.flag⟩, (Small.tick (c := c) _).silent⟩
  expireUser user h := h.trans (h.registry.expireUser h.idle user)
  disconnect i h := h.trans (h.registry.disconnect h.idle i)
  message i _ h := h.trans (h.registry.enqueue h.idle i _)

/-- Fields that the registry does not speak of may change. -/
theorem Registry.of_object (h : Registry c s) (i : SessionId) {x : Session τ μ}
    (huser : x.userId = (s.object i).userId) (hdevice : x.deviceId = (s.object i).deviceId)
    (hclosed : x.closed = (s.object i).closed) (hqueue : x.queue <:+ (s.object i).queue) :
    Registry c (s.setObject i x) := by
  have hobject : ∀ j, ((s.setObject i x).object j).userId = (s.object j).userId ∧
      ((s.setObject i x).object j).deviceId = (s.object j).deviceId ∧
      ((s.setObject i x).object j).closed = (s.object j).closed ∧
      ((s.setObject i x).object j).queue <:+ (s.object j).queue := by
    intro j
    rw [object_setObject]
    split
    · rename_i hij
      subst hij
      exact ⟨huser, hdevice, hclosed, hqueue⟩
    · exact ⟨rfl, rfl, rfl, suffix_refl _⟩
  have hkey : ∀ j, (s.setObject i x).key j = s.key j := fun j => Prod.ext (hobject j).1 (hobject j).2.1
  constructor
  · intro key j hget
    rw [(hobject j).2.2.1, hkey]
    exact h.registered hget
  · intro j hj
    rw [(hobject j).2.2.1] at hj
    rw [hkey]
    exact h.unclosed j hj
  · intro user j
    rw [(hobject j).1, hkey]
    exact h.byUser user j
  · exact h.userSets
  · exact h.watching
  · exact h.watcherSets
  · intro w users hget
    rw [hkey]
    exact h.subscriber hget
  · intro j hj
    rw [(hobject j).2.2.1] at hj
    have hread := (hobject j).2.2.2
    obtain hqueue' | hqueue' := h.shut j hj
    · rw [hqueue'] at hread
      exact (suffix_cons_iff.mp hread).imp_right suffix_nil.mp
    · rw [hqueue'] at hread
      exact .inr (suffix_nil.mp hread)
  · exact fun j => ((hobject j).2.2.2.length_le).trans (h.room j)

theorem Registry.heartbeat {s : ChatService τ μ} (h : Registry c s) (hidle : Idle s) (i : SessionId) :
    Orderly c s (s.heartbeat c i).2 := by
  have hvalid := (Orderly.kept s).validateSession (h.orderly hidle) i
  unfold ChatService.heartbeat
  split
  · rename_i heq
    rw [heq] at hvalid
    exact hvalid
  · rename_i s' heq
    rw [heq] at hvalid
    have htick := (Orderly.kept s).tick hvalid
    refine htick.trans ⟨htick.registry.of_object i rfl rfl rfl (suffix_refl _),
      ⟨htick.idle.events, htick.idle.flag⟩, silent_of_object (Nat.le_refl _) fun j _ => ?_⟩
    rw [object_setObject]
    split
    · rename_i hij
      subst hij
      exact ⟨rfl, fun _ => rfl⟩
    · exact ⟨rfl, fun _ => rfl⟩

/-- A subscription replaces the one before it. -/
theorem Registry.resubscribe (h : Registry c s) {i : SessionId} (hi : s.sessions.get? (s.key i) = some i)
    {users : List String} (hnodup : users.Nodup) :
    Registry c { s with
      subscriptions := (s.unsubscribe i).subscriptions.set i users
      watchers := (c.userOrder users).foldl (insertInto i) (s.unsubscribe i).watchers } := by
  refine ⟨h.registered, h.unclosed, h.byUser, h.userSets, ?_, ?_, ?_, h.shut, h.room⟩
  · intro w user
    change w ∈ members ((c.userOrder users).foldl (insertInto i)
      ((members s.subscriptions i).foldl (discard i) s.watchers)) user ↔
        user ∈ members ((s.subscriptions.erase i).set i users) w
    rw [mem_foldl_insertInto, mem_foldl_discard, members_set, members_erase, h.watching,
      (c.userOrder_perm users).mem_iff]
    by_cases hw : w = i
    · subst hw
      simp
    · simp [hw]
  · exact (h.watcherSets.foldl_discard _ _).foldl_insertInto _ _
  · intro w users' hget
    change ((s.subscriptions.erase i).set i users).get? w = some users' at hget
    obtain ⟨rfl, rfl⟩ | ⟨hne, hget⟩ := Dict.get?_set_cases hget
    · exact ⟨hi, hnodup⟩
    · rw [Dict.get?_erase, if_neg hne] at hget
      exact h.subscriber hget

omit [LinearOrder τ] [Sub τ] in
/-- What is known to a subscriber is written by no queue operation. -/
theorem silent_known (s : ChatService τ μ) (i : SessionId) (answer : Dict String Bool) (heard : List (String × Bool)) :
    Silent s (s.setObject i { s.object i with answer := answer, heard := heard }) := by
  refine silent_of_object (Nat.le_refl _) fun j _ => ?_
  rw [object_setObject]
  split
  · rename_i hij
    subst hij
    exact ⟨rfl, fun _ => rfl⟩
  · exact ⟨rfl, fun _ => rfl⟩

theorem Orderly.watch {s' : ChatService τ μ} (h : Orderly c s s') {i : SessionId}
    (hi : s'.sessions.get? (s'.key i) = some i) {users : List String} (hnodup : users.Nodup) :
    Orderly c s (s'.watch c i users) := by
  have hknown : Registry c (s'.setObject i { s'.object i with answer := .empty, heard := [] }) :=
    h.registry.of_object i rfl rfl rfl (suffix_refl _)
  have hkey : (s'.setObject i { s'.object i with answer := .empty, heard := [] }).key i = s'.key i := by
    unfold ChatService.key
    rw [object_setObject, if_pos rfl]
  have hregistered : (s'.setObject i { s'.object i with answer := .empty, heard := [] }).sessions.get?
      ((s'.setObject i { s'.object i with answer := .empty, heard := [] }).key i) = some i := by
    rw [hkey]
    exact hi
  exact h.trans ⟨hknown.resubscribe hregistered hnodup, ⟨h.idle.events, h.idle.flag⟩,
    ⟨(silent_known s' i .empty []).next, (silent_known s' i .empty []).closed, (silent_known s' i .empty []).closing⟩⟩

theorem Orderly.ask {s : ChatService τ μ} {acc : Dict String Bool × ChatService τ μ}
    (h : Orderly c s acc.2) (i : SessionId) (user : String) : Orderly c s (ask c i acc user).2 := by
  have hasked := (Orderly.kept s).isOnline h user
  unfold ChatService.ask
  dsimp only
  exact hasked.trans ⟨hasked.registry.of_object i rfl rfl rfl (suffix_refl _),
    ⟨hasked.idle.events, hasked.idle.flag⟩, silent_known _ i _ _⟩

/-- What `connect` adds to the maps. -/
def register (session : Session τ μ) (s : ChatService τ μ) : ChatService τ μ :=
  { s.setObject s.next session with
    next := s.next + 1
    sessions := s.sessions.set (session.userId, session.deviceId) s.next
    userSessions := insertInto s.next s.userSessions session.userId }

omit [LinearOrder τ] [Sub τ] in
theorem object_register (session : Session τ μ) (s : ChatService τ μ) (j : SessionId) :
    (s.register session).object j = if j = s.next then session else s.object j :=
  object_setObject s s.next session j

theorem Registry.register {s : ChatService τ μ} (h : Registry c s) {session : Session τ μ}
    (hopen : session.closed = false) (hqueue : session.queue = [])
    (hfree : s.sessions.get? (session.userId, session.deviceId) = none) :
    Registry c (s.register session) := by
  have hobject := object_register session s
  have hkey : ∀ j, (s.register session).key j = if j = s.next then (session.userId, session.deviceId) else s.key j := by
    intro j
    unfold ChatService.key
    rw [hobject]
    split
    · rfl
    · rfl
  have hsessions : ∀ key, (s.register session).sessions.get? key =
      if key = (session.userId, session.deviceId) then some s.next else s.sessions.get? key :=
    fun key => Dict.get?_set _ _ _ _
  -- the object was free, so no map names its number
  have hfresh : ∀ key, s.sessions.get? key ≠ some s.next := fun key hget => (h.registered hget).1.false
  have hother : ∀ j, j ≠ s.next → ((s.register session).sessions.get? ((s.register session).key j) = some j ↔
      s.sessions.get? (s.key j) = some j) := by
    intro j hj
    rw [hsessions, hkey, if_neg hj]
    split
    · rename_i hsame
      rw [hsame, hfree]
      constructor
      · exact fun heq => absurd (Option.some.inj heq).symm hj
      · rintro ⟨⟩
    · exact Iff.rfl
  have hself : (s.register session).sessions.get? ((s.register session).key s.next) = some s.next := by
    rw [hsessions, hkey, if_pos rfl, if_pos rfl]
  constructor
  · intro key j hget
    rw [hsessions] at hget
    split at hget
    · rename_i hk
      cases hget
      refine ⟨Nat.lt_succ_self _, ?_, ?_⟩
      · rw [hobject, if_pos rfl]
        exact hopen
      · rw [hkey, if_pos rfl]
        exact hk
    · obtain ⟨hlt, hclosed, hk⟩ := h.registered hget
      refine ⟨hlt.trans (Nat.lt_succ_self _), ?_, ?_⟩
      · rw [hobject, if_neg hlt.ne]
        exact hclosed
      · rw [hkey, if_neg hlt.ne]
        exact hk
  · intro j hj
    by_cases hnext : j = s.next
    · subst hnext
      exact hself
    · rw [hobject, if_neg hnext] at hj
      exact (hother j hnext).mpr (h.unclosed j hj)
  · intro user j
    change j ∈ members (insertInto s.next s.userSessions session.userId) user ↔ _
    rw [mem_insertInto, h.byUser]
    by_cases hnext : j = s.next
    · subst hnext
      rw [hobject, if_pos rfl]
      simp [hself, hfresh, eq_comm]
    · rw [hobject, if_neg hnext, hother j hnext]
      simp [hnext]
  · exact h.userSets.insertInto _ _
  · exact h.watching
  · exact h.watcherSets
  · intro w users hget
    obtain ⟨hreg, hnodup⟩ := h.subscriber hget
    have hne : w ≠ s.next := by
      rintro rfl
      exact hfresh _ hreg
    exact ⟨(hother w hne).mpr hreg, hnodup⟩
  · intro j hj
    rw [hobject] at hj ⊢
    split at hj
    · rw [hopen] at hj
      cases hj
    · rename_i hne
      rw [if_neg hne]
      exact h.shut j hj
  · intro j
    rw [hobject]
    split
    · rw [hqueue]
      exact Nat.zero_le _
    · exact h.room j

omit [LinearOrder τ] [Sub τ] in
theorem silent_register (session : Session τ μ) (s : ChatService τ μ) : Silent s (s.register session) := by
  refine silent_of_object (Nat.le_succ _) fun j hlt => ?_
  rw [object_register, if_neg hlt.ne]
  exact ⟨rfl, fun _ => rfl⟩

/-- The state in which `connect` registers: the device has no session. -/
def vacate (user deviceId : String) (s : ChatService τ μ) : ChatService τ μ :=
  match s.sessions.get? (user, deviceId) with
  | some previous => s.close previous
  | none => s

theorem Orderly.vacate {s s' : ChatService τ μ} (h : Orderly c s s') (user deviceId : String) :
    Orderly c s (s'.vacate user deviceId) ∧ (s'.vacate user deviceId).sessions.get? (user, deviceId) = none := by
  unfold ChatService.vacate
  split
  · rename_i previous hget
    obtain ⟨-, hopen, hkey⟩ := h.registry.registered hget
    refine ⟨h.trans (h.registry.closeAll h.idle [previous]), ?_⟩
    rw [(h.registry.closed hopen).sessions, if_pos hkey]
  · rename_i hget
    exact ⟨h, hget⟩

variable (c) in
/-- A connection after the checks, from the state in which the user's sessions have expired. -/
def openSession (user token deviceId : String) (s : ChatService τ μ) : ChatService τ μ :=
  (s.vacate user deviceId).tick.register
    ⟨user, deviceId, token, [], c.clock (s.vacate user deviceId).reading, false, .empty, []⟩

variable (c) in
theorem connect_eq (token deviceId : String) (s : ChatService τ μ) :
    (s.connect c token deviceId).2 = s ∨ ∃ user, s.auth token = some user ∧ validName deviceId = true ∧
      let expired := s.expireUser c (publishPresence c) user
      (s.connect c token deviceId).2 =
        if members expired.userSessions user ≠ [] then openSession c user token deviceId expired
        else (openSession c user token deviceId expired).publishPresence c user true := by
  unfold connect
  split
  · exact .inl rfl
  · rename_i user hauth
    split
    · rename_i hvalid
      refine .inr ⟨user, hauth, hvalid, ?_⟩
      dsimp only
      simp only [decide_eq_true_eq]
      rfl
    · exact .inl rfl

theorem Registry.connect (h : Registry c s) (hidle : Idle s) (token deviceId : String) :
    Orderly c s (s.connect c token deviceId).2 := by
  obtain heq | ⟨user, -, -, heq⟩ := connect_eq c token deviceId s
  · rw [heq]
    exact h.orderly hidle
  · rw [heq]
    obtain ⟨hvacated, hfree⟩ := (h.expireUser hidle user).vacate user deviceId
    have htick := (Orderly.kept s).tick hvacated
    have hadmitted : Orderly c s (openSession c user token deviceId
        (s.expireUser c (ChatService.publishPresence c) user)) :=
      htick.trans ⟨htick.registry.register rfl rfl hfree, ⟨htick.idle.events, htick.idle.flag⟩, silent_register _ _⟩
    split
    · exact hadmitted
    · exact hadmitted.trans (hadmitted.registry.publishPresence hadmitted.idle.flag user true)

theorem Registry.perform {s : ChatService τ μ} (h : Registry c s) (hidle : Idle s) (call : Call μ) :
    Registry c (s.perform c call) ∧ Idle (s.perform c call) ∧ Shuts s (s.perform c call) := by
  have hkept := Orderly.kept (c := c) s
  have horderly := h.orderly hidle
  suffices hcall : Orderly c s (s.perform c call) ∨ ∃ i, call = .receive i by
    obtain hcall | ⟨i, rfl⟩ := hcall
    · exact ⟨hcall.registry, hcall.idle, hcall.silent.shuts⟩
    · refine ⟨h.of_object i rfl rfl rfl (tail_suffix _), ⟨hidle.events, hidle.flag⟩, ?_, ?_⟩
      · intro j _ hj
        unfold ChatService.perform
        rw [object_setObject]
        split
        · rename_i hij
          subst hij
          exact ⟨hj, tail_suffix _⟩
        · exact ⟨hj, suffix_refl _⟩
      · intro j _ hj hj'
        unfold ChatService.perform at hj'
        rw [object_setObject] at hj'
        split at hj'
        · rename_i hij
          subst hij
          rw [hj] at hj'
          cases hj'
        · rw [hj] at hj'
          cases hj'
  cases call with
  | connect token deviceId => exact .inl (h.connect hidle token deviceId)
  | disconnect i => exact .inl (hkept.disconnect i horderly)
  | validate i => exact .inl (hkept.validateSession horderly i)
  | heartbeat i => exact .inl (h.heartbeat hidle i)
  | expireSessions => exact .inl (hkept.expireSessions horderly)
  | isOnline user => exact .inl (hkept.isOnline horderly user)
  | subscribe i values =>
    exact .inl (hkept.subscribePresence horderly i values (fun h hi hnodup => h.watch hi hnodup)
      fun user h => h.ask i user)
  | authenticator auth =>
    refine .inl ⟨?_, ⟨hidle.events, hidle.flag⟩, silent_of_object (Nat.le_refl _) fun _ _ => ⟨rfl, fun _ => rfl⟩⟩
    exact ⟨h.registered, h.unclosed, h.byUser, h.userSets, h.watching, h.watcherSets, h.subscriber, h.shut, h.room⟩
  | deliver message users sender => exact .inl (hkept.deliverLive horderly message users sender)
  | receive i => exact .inr ⟨i, rfl⟩

theorem Registry.init (auth : String → Option String) (start : τ) :
    Registry c (ChatService.init (μ := μ) auth start) where
  registered h := nomatch h
  unclosed _ h := nomatch h
  byUser _ _ := ⟨fun h => (nomatch h), fun h => (nomatch h.2)⟩
  userSets _ _ h := nomatch h
  watching _ _ := ⟨fun h => (nomatch h), fun h => (nomatch h)⟩
  watcherSets _ _ h := nomatch h
  subscriber h := nomatch h
  shut _ _ := .inr rfl
  room _ := Nat.zero_le _

theorem reachable_registry {start : τ} (h : (serving c start).Reachable s) : Registry c s ∧ Idle s := by
  refine h.invariant (P := fun s => Registry c s ∧ Idle s) ?_ ?_
  · rintro _ ⟨auth, rfl⟩
    exact ⟨Registry.init auth start, rfl, rfl⟩
  · rintro s _ - ⟨hregistry, hidle⟩ ⟨call, rfl⟩
    obtain ⟨hregistry', hidle', -⟩ := hregistry.perform hidle call
    exact ⟨hregistry', hidle'⟩

/-! ### The maps agree -/

/-- The four maps describe the open sessions. -/
structure Agrees (s : ChatService τ μ) : Prop where
  one : ∀ key i, s.sessions.get? key = some i → key = s.key i
  opened : ∀ i, (s.object i).closed = false ↔ s.sessions.get? (s.key i) = some i
  user : ∀ user i, i ∈ members s.userSessions user ↔ (s.object i).userId = user ∧ s.sessions.get? (s.key i) = some i
  watching : ∀ w user, w ∈ members s.watchers user ↔ user ∈ members s.subscriptions w
  nonempty : (∀ user set, s.userSessions.get? user = some set → set ≠ []) ∧
    ∀ user set, s.watchers.get? user = some set → set ≠ []
  absent : ∀ i, (s.object i).closed = true → (∀ key, s.sessions.get? key ≠ some i) ∧
    (∀ user, i ∉ members s.userSessions user) ∧ s.subscriptions.get? i = none ∧
    ∀ user, i ∉ members s.watchers user

theorem Registry.agrees (h : Registry c s) : Agrees s where
  one _ _ hget := (h.registered hget).2.2
  opened i := ⟨h.unclosed i, fun hget => (h.registered hget).2.1⟩
  user := h.byUser
  watching := h.watching
  nonempty := ⟨fun user set hget => (h.userSets user set hget).1, fun user set hget => (h.watcherSets user set hget).1⟩
  absent i hclosed := by
    have habsent : ∀ key, s.sessions.get? key ≠ some i := by
      intro key hget
      have hopen := (h.registered hget).2.1
      rw [hclosed] at hopen
      cases hopen
    have hsubscriptions : s.subscriptions.get? i = none := by
      cases hget : s.subscriptions.get? i with
      | none => rfl
      | some users => exact absurd (h.subscriber hget).1 (habsent _)
    refine ⟨habsent, fun user hmem => habsent _ ((h.byUser user i).mp hmem).2, hsubscriptions, ?_⟩
    intro user hmem
    have huser := (h.watching i user).mp hmem
    unfold members at huser
    rw [hsubscriptions] at huser
    cases huser

/-- After every call the maps agree, the worklist is empty and closed sessions are left
alone; wherever the loop starts in a call, it ends because the worklist is empty. -/
theorem registry_agrees {start : τ} {s : ChatService τ μ} (h : (serving c start).Reachable s) :
    Agrees s ∧ s.presenceEvents = [] ∧
      (∀ call, Agrees (s.perform c call) ∧ (s.perform c call).presenceEvents = [] ∧ Shuts s (s.perform c call)) ∧
      ∀ s' : ChatService τ μ, Registry c s' → ∀ user online fuel,
        (s'.announce user online).rounds ≤ fuel →
          (drain c fuel { s'.announce user online with publishing := true }).presenceEvents = [] := by
  obtain ⟨hregistry, hidle⟩ := reachable_registry h
  refine ⟨hregistry.agrees, hidle.events, ?_, ?_⟩
  · intro call
    obtain ⟨hregistry', hidle', hshuts⟩ := hregistry.perform hidle call
    exact ⟨hregistry'.agrees, hidle'.events, hshuts⟩
  · intro s' hs' user online fuel hfuel
    exact ((hs'.small (.events s' _)).small (.flag _ true)).drain_empties hfuel

/-- Every reading a second later, heartbeats for ten seconds, queues of one event. -/
def seconds : Setup ℕ where
  clock := id
  clock_mono := monotone_id
  sub_le _ _ h hle := Nat.sub_le_sub_right hle h
  heartbeatTimeout := 10
  queueSize := 1
  queue_pos := Nat.one_pos
  order := id
  order_perm _ := .refl _
  userOrder := id
  userOrder_perm _ := .refl _

/-- Tokens are user names. -/
def nobody : ChatService ℕ Unit := init some 0

def running (calls : List (Call Unit)) : ChatService ℕ Unit := calls.foldl (fun s call => s.perform seconds call) nobody

theorem running_reachable (calls : List (Call Unit)) : (serving seconds 0).Reachable (running calls) := by
  unfold running
  suffices hfold : ∀ s, (serving seconds 0).Reachable s →
      (serving seconds 0).Reachable (calls.foldl (fun s call => s.perform seconds call) s) from
    hfold _ (.start ⟨some, rfl⟩)
  intro s hs
  induction calls generalizing s with
  | nil => exact hs
  | cons call calls ih => exact ih _ (hs.step ⟨call, rfl⟩)

/-- A session, a subscriber to its user, and a disconnection that the subscriber is told of. -/
def watched : List (Call Unit) :=
  [.connect "alice" "phone", .connect "bob" "phone", .subscribe 1 ["alice"], .disconnect 0]

theorem registry_agrees_watched :
    ((running watched).object 1).queue = [.presence "alice" false] ∧
      members (running watched).watchers "alice" = [1] ∧ Agrees (running watched) :=
  ⟨by decide +kernel, by decide +kernel, (registry_agrees (running_reachable watched)).1⟩

/-- A subscription to nobody is an empty set. -/
theorem subscription_may_be_empty : ∃ s, (serving (μ := Unit) seconds 0).Reachable s ∧
    ∃ w, s.subscriptions.get? w = some [] :=
  ⟨_, running_reachable [.connect "alice" "phone", .subscribe 0 []], 0, by decide +kernel⟩

end ChatService

end SystemDesign.Chat
