import SystemDesign.Chat.Presence

/-!
Between calls the views of open subscribers agree with the sessions, in every run in which
no `connect` and no `heartbeat` straddles an expiry.
-/

namespace SystemDesign.Chat

open List

namespace ChatService

variable {τ μ : Type} [LinearOrder τ] [Sub τ] {c : Setup τ}

/-! ### Between calls -/

/-- The service between two calls. -/
structure InOrder (c : Setup τ) (s : ChatService τ μ) : Prop where
  registry : Registry c s
  idle : Idle s
  fresh : Fresh c (fun _ => []) none s

variable {s : ChatService τ μ}

theorem InOrder.tick (h : InOrder c s) : InOrder c s.tick :=
  ⟨h.registry.small (.tick s), ⟨h.idle.events, h.idle.flag⟩, h.fresh.tick⟩

variable {user : String}

theorem announceGone_inOrder (hs : Registry c s) (hidle : Idle s) (h : Fresh c (fun _ => []) (some user) s) :
    InOrder c (s.announceGone c (publishPresence c) user) := by
  have horderly := hs.announceGone hidle user
  refine ⟨horderly.registry, horderly.idle, ?_⟩
  unfold announceGone
  split
  · rename_i hlive
    exact h.live hlive
  · rename_i hgone
    exact (h.gone (Bool.not_eq_true _ ▸ hgone)).published (hs.small (.tick s)) hidle.flag

theorem InOrder.expireUser (h : InOrder c s) (user : String) : InOrder c (s.expireUser c (publishPresence c) user) := by
  rw [expireUser_eq]
  split
  · exact h.tick
  · have hclosed := h.tick.registry.closeAll h.tick.idle (s.expiring c user)
    exact announceGone_inOrder hclosed.registry hclosed.idle (h.fresh.expired h.registry user)

theorem InOrder.disconnect (h : InOrder c s) (i : SessionId) : InOrder c (s.disconnect c (publishPresence c) i) := by
  unfold ChatService.disconnect
  split
  · have hclosed := h.registry.closeAll h.idle [i]
    exact announceGone_inOrder hclosed.registry hclosed.idle (h.fresh.disconnected i)
  · exact h

theorem InOrder.message (h : InOrder c s) (i : SessionId) (message : μ) :
    InOrder c (s.enqueue c (publishPresence c) i (.message message)) := by
  have horderly := h.registry.enqueue h.idle i (.message message)
  refine ⟨horderly.registry, horderly.idle, ?_⟩
  unfold ChatService.enqueue
  split
  · exact h.fresh
  · split
    · have hview : ∀ w user, (s.put i (.message message)).view w user = s.view w user := by
        intro w user
        rw [view_put]
        split
        · rfl
        · rfl
      constructor
      · intro w user hmem howed hon
        unfold eventual at hon
        rw [hview] at hon
        exact h.fresh.online w user hmem howed hon
      · intro w user hmem hoff j hj
        unfold eventual at hoff
        rw [hview] at hoff
        unfold lapsed
        rw [(put_object s i _ j).2.2.2.1]
        exact h.fresh.offline w user hmem hoff j hj
    · exact (h.disconnect i).fresh

theorem InOrder.kept : Kept c (InOrder (μ := μ) c) where
  tick h := h.tick
  expireUser user h := h.expireUser user
  disconnect i h := h.disconnect i
  message i message h := h.message i message

/-- A subscription starts with nothing known. -/
theorem InOrder.watch (h : InOrder c s) {i : SessionId} (hi : s.sessions.get? (s.key i) = some i)
    {users : List String} (hnodup : users.Nodup) : InOrder c (s.watch c i users) := by
  have horderly := (h.registry.orderly h.idle).watch hi hnodup
  refine ⟨horderly.registry, horderly.idle, ?_⟩
  have hobject : ∀ w, (s.watch c i users).object w =
      if w = i then { s.object i with answer := .empty, heard := [] } else s.object w :=
    fun w => object_setObject _ _ _ w
  have hself : ∀ user, (s.watch c i users).eventual (fun _ => []) i user = none := by
    intro user
    unfold eventual view
    rw [hobject, if_pos rfl]
    change hear user (hear user none []) ([] ++ s.presenceEvents) = none
    rw [h.idle.events]
    rfl
  have hother : ∀ w, w ≠ i → ∀ user, (s.watch c i users).eventual (fun _ => []) w user =
      s.eventual (fun _ => []) w user := by
    intro w hw user
    unfold eventual view
    rw [hobject, if_neg hw]
    rfl
  have hmembers : ∀ w, w ≠ i → members (s.watch c i users).subscriptions w = members s.subscriptions w := by
    intro w hw
    change members ((s.subscriptions.erase i).set i users) w = _
    rw [members_set, if_neg hw, members_erase, if_neg hw]
  have hlapsed : ∀ now j, (s.watch c i users).lapsed c now j = s.lapsed c now j := by
    intro now j
    unfold lapsed
    rw [hobject]
    split
    · rename_i hj
      subst hj
      rfl
    · rfl
  constructor
  · intro w user hmem howed hon
    by_cases hw : w = i
    · subst hw
      rw [hself] at hon
      cases hon
    · rw [hother w hw] at hon
      exact h.fresh.online w user (hmembers w hw ▸ hmem) howed hon
  · intro w user hmem hoff j hj
    by_cases hw : w = i
    · subst hw
      rw [hself] at hoff
      cases hoff
    · rw [hother w hw] at hoff
      rw [hlapsed]
      exact h.fresh.offline w user (hmembers w hw ▸ hmem) hoff j hj

/-- An answer is what the sessions are at its reading, unless an event has come since. -/
theorem InOrder.ask {acc : Dict String Bool × ChatService τ μ} (h : InOrder c acc.2) (i : SessionId)
    (user : String) : InOrder c (ask c i acc user).2 := by
  have horderly := (h.registry.orderly h.idle).ask i user
  refine ⟨horderly.registry, horderly.idle, ?_⟩
  have hexpired := h.expireUser user
  unfold ChatService.ask isOnline
  dsimp only
  generalize acc.2.expireUser c (publishPresence c) user = s at hexpired
  generalize hasked : s.tick.setObject i _ = asked
  have hview : ∀ w user', asked.view w user' =
      if w = i ∧ user' = user then (hear user none (s.object i).heard).or (some (s.hasLive c user))
      else s.view w user' := by
    intro w user'
    rw [← hasked]
    unfold view
    rw [object_setObject]
    by_cases hw : w = i
    · subst hw
      rw [if_pos rfl]
      change hear user' (((s.object w).answer.set user (s.hasLive c user)).get? user') (s.object w).heard = _
      rw [Dict.get?_set]
      by_cases huser : user' = user
      · subst huser
        rw [if_pos rfl, if_pos ⟨rfl, rfl⟩, hear_eq]
      · rw [if_neg huser, if_neg fun hand => huser hand.2]
    · rw [if_neg hw, if_neg fun hand => hw hand.1]
      rfl
  have heventual : ∀ w user', asked.eventual (fun _ => []) w user' = asked.view w user' := by
    intro w user'
    unfold eventual
    rw [← hasked]
    change hear user' _ ([] ++ s.presenceEvents) = _
    rw [hexpired.idle.events]
    rfl
  have heventual' : ∀ w user', s.eventual (fun _ => []) w user' = s.view w user' := by
    intro w user'
    unfold eventual
    rw [hexpired.idle.events]
    rfl
  have hlapsed : ∀ now j, asked.lapsed c now j = s.lapsed c now j := by
    intro now j
    rw [← hasked]
    unfold lapsed
    rw [object_setObject]
    split
    · rename_i hj
      subst hj
      rfl
    · rfl
  have hsessions : asked.userSessions = s.userSessions := by
    rw [← hasked]
    rfl
  have hsubscriptions : asked.subscriptions = s.subscriptions := by
    rw [← hasked]
    rfl
  have hnow : asked.now c = c.clock s.reading := by
    rw [← hasked]
    rfl
  -- an answer counts where nothing was heard
  have hanswer : ∀ b, (hear user none (s.object i).heard).or (some (s.hasLive c user)) = some b →
      s.view i user = some b ∨ s.hasLive c user = b := by
    intro b hb
    cases hheard : hear user none (s.object i).heard with
    | none =>
      rw [hheard] at hb
      exact .inr (Option.some.inj hb)
    | some b' =>
      rw [hheard] at hb
      left
      unfold view
      rw [hear_eq, hheard]
      exact hb
  constructor
  · intro w user' hmem howed hon
    rw [heventual, hview] at hon
    rw [hsubscriptions] at hmem
    rw [hsessions]
    have hfresh := hexpired.fresh.online w user' hmem howed
    rw [heventual'] at hfresh
    split at hon
    · rename_i hand
      obtain ⟨rfl, rfl⟩ := hand
      obtain hsaid | hlive := hanswer true hon
      · exact hfresh hsaid
      · obtain ⟨j, hj, -⟩ := any_eq_true.mp hlive
        exact ne_nil_of_mem hj
    · exact hfresh hon
  · intro w user' hmem hoff j hj
    rw [heventual, hview] at hoff
    rw [hsubscriptions] at hmem
    rw [hsessions] at hj
    rw [hlapsed, hnow]
    have hfresh := hexpired.fresh.offline w user' hmem
    rw [heventual'] at hfresh
    split at hoff
    · rename_i hand
      obtain ⟨rfl, rfl⟩ := hand
      obtain hsaid | hgone := hanswer false hoff
      · exact lapsed_mono s (now_le s) (hfresh hsaid j hj)
      · unfold hasLive at hgone
        rw [any_eq_false] at hgone
        simpa using hgone j hj
    · exact lapsed_mono s (now_le s) (hfresh hoff j hj)

/-! ### The two readings of an expiry -/

variable (c) in
/-- Some session of the user goes at this reading, some stay, and those go by the next one,
while the user is watched. -/
def straddles (user : String) (s : ChatService τ μ) : Bool :=
  members s.watchers user ≠ [] &&
    (members s.userSessions user).any (s.stale c (c.clock s.reading) user) &&
    (members s.userSessions user).any (fun i => !s.stale c (c.clock s.reading) user i) &&
    (members s.userSessions user).all fun i =>
      s.stale c (c.clock s.reading) user i || s.lapsed c (c.clock (s.reading + 1)) i

/-- Nobody will be shown that the user is offline. -/
def NotGone (user : String) (s : ChatService τ μ) : Prop :=
  ∀ w, user ∈ members s.subscriptions w → s.eventual (fun _ => []) w user ≠ some false

theorem Registry.mem_close (h : Registry c s) {i j : SessionId} :
    j ∈ members (s.close i).userSessions user ↔ j ∈ members s.userSessions user ∧ j ≠ i := by
  by_cases hi : (s.object i).closed = true
  · rw [close_of_closed hi]
    refine ⟨fun hj => ⟨hj, ?_⟩, fun hj => hj.1⟩
    rintro rfl
    exact (h.agrees.absent j hi).2.1 user hj
  · rw [(h.closed (Bool.not_eq_true _ ▸ hi)).userSessions, mem_discard]
    constructor
    · rintro ⟨hj, hnot⟩
      refine ⟨hj, ?_⟩
      rintro rfl
      exact hnot ⟨(h.userId_of_mem hj).symm, rfl⟩
    · rintro ⟨hj, hne⟩
      exact ⟨hj, fun hand => hne hand.2⟩

theorem Registry.mem_closeAll (h : Registry c s) {ids : List SessionId} {j : SessionId} :
    j ∈ members (s.closeAll ids).userSessions user ↔ j ∈ members s.userSessions user ∧ j ∉ ids := by
  induction ids generalizing s with
  | nil => simp [ChatService.closeAll]
  | cons i ids ih =>
    change j ∈ members ((s.close i).closeAll ids).userSessions user ↔ _
    rw [ih (h.close i), h.mem_close, mem_cons]
    tauto

/-- The sessions that are left after an expiry were not stale. -/
theorem Registry.left (h : Registry c s) {i : SessionId}
    (hi : i ∈ members (s.expireUser c (ChatService.publishPresence c) user).userSessions user) :
    i ∈ members s.userSessions user ∧ s.stale c (c.clock s.reading) user i = false := by
  rw [expireUser_eq] at hi
  have hleft : i ∈ members (s.tick.closeAll (s.expiring c user)).userSessions user := by
    split at hi
    · rename_i hnil
      rw [hnil]
      exact hi
    · exact (announceGone_smalls publishPresence_smalls user _).shrinks.sessions user hi
  obtain ⟨hmem, hnot⟩ := (h.small (.tick s)).mem_closeAll.mp hleft
  refine ⟨hmem, Bool.not_eq_true _ ▸ fun hstale => hnot (mem_expiring.mpr ⟨hmem, hstale⟩)⟩

omit [LinearOrder τ] [Sub τ] in
theorem eventual_closeAll (front : SessionId → List (String × Bool)) (s : ChatService τ μ) (ids : List SessionId)
    (w : SessionId) (user : String) : (s.closeAll ids).eventual front w user = s.eventual front w user := by
  unfold closeAll
  induction ids generalizing s with
  | nil => rfl
  | cons i ids ih =>
    rw [foldl_cons, ih]
    unfold eventual
    rw [view_close, (close_rest s i).2.2.1]

/-- Where the readings do not straddle, a user who has sessions left is not shown offline. -/
theorem InOrder.not_gone (h : InOrder c s) (hsteady : s.straddles c user = false)
    (hleft : members (s.expireUser c (publishPresence c) user).userSessions user ≠ []) :
    NotGone user (s.expireUser c (publishPresence c) user) := by
  obtain ⟨i, hi⟩ := exists_mem_of_ne_nil _ hleft
  obtain ⟨hmem, hvalid⟩ := h.registry.left hi
  -- a session that is left was not lapsed, so nobody was shown the user offline before
  have hbefore : NotGone user s := by
    intro w hw hoff
    have hlapsed := lapsed_mono s (now_le s) (h.fresh.offline w user hw hoff i hmem)
    unfold stale at hvalid
    rw [hlapsed, Bool.or_true] at hvalid
    cases hvalid
  have hshrinks := (expireUser_smalls (c := c) publishPresence_smalls user s).shrinks
  intro w hw
  have hsubscribed := hshrinks.subscriptions w hw
  have hwatched : members s.watchers user ≠ [] := ne_nil_of_mem ((h.registry.watching w user).mpr hsubscribed)
  rw [expireUser_eq]
  split
  · exact hbefore w hsubscribed
  · rename_i hne
    have hlive : (s.tick.closeAll (s.expiring c user)).hasLive c user = true := by
      obtain ⟨j, hj⟩ := exists_mem_of_ne_nil _ hne
      obtain ⟨hjmem, hjstale⟩ := mem_expiring.mp hj
      have hsome : (members s.userSessions user).any (s.stale c (c.clock s.reading) user) = true :=
        any_eq_true.mpr ⟨j, hjmem, hjstale⟩
      have hother : (members s.userSessions user).any (fun i => !s.stale c (c.clock s.reading) user i) = true :=
        any_eq_true.mpr ⟨i, hmem, by rw [hvalid]; rfl⟩
      unfold straddles at hsteady
      rw [hsome, hother, Bool.and_true, Bool.and_true, decide_eq_true hwatched, Bool.true_and, all_eq_false] at hsteady
      obtain ⟨k, hk, hklive⟩ := hsteady
      rw [Bool.or_eq_true, not_or, Bool.not_eq_true, Bool.not_eq_true] at hklive
      refine any_eq_true.mpr ⟨k, (h.tick.registry.mem_closeAll).mpr ⟨hk, fun hkin => ?_⟩, ?_⟩
      · rw [(mem_expiring.mp hkin).2] at hklive
        cases hklive.1
      · have hreading : (s.tick.closeAll (s.expiring c user)).reading = s.reading + 1 :=
          (closeAll_rest s.tick _).2.2.2.2
        have hsame : s.tick.lapsed c (c.clock (s.reading + 1)) k = false := hklive.2
        rw [hreading, lapsed_closeAll, hsame]
        rfl
    have heq : announceGone c (publishPresence c) user (s.tick.closeAll (s.expiring c user)) =
        (s.tick.closeAll (s.expiring c user)).tick := if_pos hlive
    rw [heq]
    change (s.tick.closeAll (s.expiring c user)).eventual (fun _ => []) w user ≠ _
    rw [eventual_closeAll]
    exact hbefore w hsubscribed

/-! ### Connecting and heartbeats -/

theorem Fresh.register {user : String} (h : Fresh c (fun _ => []) (some user) s) (hs : Registry c s)
    (session : Session τ μ) (huser : session.userId = user) (hgone : NotGone user s) :
    Fresh c (fun _ => []) none (s.register session) := by
  have hsubscriber : ∀ w user', user' ∈ members s.subscriptions w → w ≠ s.next := by
    rintro w user' hmem rfl
    exact (hs.registered (hs.subscriber (get?_of_mem hmem)).1).1.false
  have heventual : ∀ w user', user' ∈ members s.subscriptions w →
      (s.register session).eventual (fun _ => []) w user' = s.eventual (fun _ => []) w user' := by
    intro w user' hmem
    unfold eventual view
    rw [object_register, if_neg (hsubscriber w user' hmem)]
    rfl
  have hmembers : ∀ user' j, j ∈ members (s.register session).userSessions user' ↔
      j ∈ members s.userSessions user' ∨ user' = user ∧ j = s.next := by
    intro user' j
    rw [← huser]
    exact mem_insertInto
  constructor
  · intro w user' hmem _ hon
    rw [heventual w user' hmem] at hon
    by_cases hsame : user' = user
    · exact ne_nil_of_mem ((hmembers user' s.next).mpr (.inr ⟨hsame, rfl⟩))
    · obtain ⟨j, hj⟩ := exists_mem_of_ne_nil _ (h.online w user' hmem (fun heq => hsame (Option.some.inj heq).symm) hon)
      exact ne_nil_of_mem ((hmembers user' j).mpr (.inl hj))
  · intro w user' hmem hoff j hj
    rw [heventual w user' hmem] at hoff
    have hother : user' ≠ user := by
      rintro rfl
      exact hgone w hmem hoff
    have hj := ((hmembers user' j).mp hj).resolve_right fun hand => hother hand.1
    have hne : j ≠ s.next := by
      rintro rfl
      exact (hs.registered ((hs.byUser user' _).mp hj).2).1.false
    unfold lapsed
    rw [object_register, if_neg hne]
    exact h.offline w user' hmem hoff j hj

theorem Fresh.announcing (h : Fresh c (fun _ => []) (some user) s) :
    Fresh c (fun _ => []) (some user) (s.announce user true) ∧ NotGone user (s.announce user true) := by
  have heventual : ∀ w user', (s.announce user true).eventual (fun _ => []) w user' =
      if user = user' then some true else s.eventual (fun _ => []) w user' := by
    intro w user'
    unfold eventual
    change hear user' (s.view w user') ([] ++ (s.presenceEvents ++ [(user, true)])) = _
    rw [← append_assoc, hear_snoc]
  refine ⟨⟨?_, ?_⟩, ?_⟩
  · intro w user' hmem howed hon
    rw [heventual, if_neg fun heq => howed (congrArg some heq)] at hon
    exact h.online w user' hmem howed hon
  · intro w user' hmem hoff
    rw [heventual] at hoff
    split at hoff
    · cases hoff
    · exact h.offline w user' hmem hoff
  · intro w _ hoff
    rw [heventual, if_pos rfl] at hoff
    cases hoff

/-- The device is free; nothing is known otherwise. -/
theorem InOrder.vacate (h : InOrder c s) (user deviceId : String) :
    Fresh c (fun _ => []) (some user) (s.vacate user deviceId) ∧
      (NotGone user s → NotGone user (s.vacate user deviceId)) := by
  unfold ChatService.vacate
  split
  · rename_i previous hget
    have huser : (s.object previous).userId = user := (congrArg Prod.fst (h.registry.registered hget).2.2).symm
    refine ⟨(h.fresh.owing user).close huser, fun hgone w hw => ?_⟩
    have heq := eventual_closeAll (fun _ => []) s [previous] w user
    change (s.close previous).eventual _ w user = _ at heq
    rw [heq]
    exact hgone w ((shrinks_close s previous).subscriptions w hw)
  · exact ⟨h.fresh.owing user, id⟩

theorem InOrder.connect (h : InOrder c s) (token deviceId : String)
    (hsteady : validName deviceId = true → ∀ user, s.auth token = some user → s.straddles c user = false) :
    InOrder c (s.connect c token deviceId).2 := by
  have horderly := h.registry.connect h.idle token deviceId
  refine ⟨horderly.registry, horderly.idle, ?_⟩
  obtain heq | ⟨user, hauth, hvalid, heq⟩ := connect_eq c token deviceId s
  · rw [heq]
    exact h.fresh
  · rw [heq]
    have hgone := h.not_gone (hsteady hvalid user hauth)
    have hexpired := h.expireUser user
    generalize s.expireUser c (publishPresence c) user = expired at hgone hexpired ⊢
    obtain ⟨hvacated, hfree⟩ := (hexpired.registry.orderly hexpired.idle).vacate user deviceId
    obtain ⟨hfresh, hnot⟩ := hexpired.vacate user deviceId
    have htick := hvacated.registry.small (.tick _)
    unfold openSession
    split
    · rename_i hleft
      exact hfresh.tick.register htick _ rfl (hnot (hgone hleft))
    · -- the announcement is made after the registration, which does not depend on it
      obtain ⟨hannounced, hshown⟩ := hfresh.tick.announcing
      have hregistered := hannounced.register (htick.small (.events _ _))
        ⟨user, deviceId, token, [], c.clock (expired.vacate user deviceId).reading, false, .empty, []⟩ rfl hshown
      exact hregistered.published (htick.register rfl rfl hfree) hvacated.idle.flag

theorem validateSession_ok {i : SessionId} {s' : ChatService τ μ} (h : s.validateSession c i = (.ok (), s')) :
    s' = s.expireUser c (publishPresence c) (s.object i).userId ∧ s'.sessions.get? (s'.key i) = some i := by
  unfold validateSession at h
  dsimp only at h
  split at h
  · cases h
  · rename_i hopen
    split at h
    · cases h
    · split at h
      · cases h
        exact ⟨rfl, not_not.mp (not_or.mp hopen).2⟩
      · cases h

theorem InOrder.heartbeat (h : InOrder c s) (i : SessionId) (hsteady : s.sessions.get? (s.key i) = some i →
      s.stale c (c.clock s.reading) (s.object i).userId i = false →
        s.straddles c (s.object i).userId = false) : InOrder c (s.heartbeat c i).2 := by
  have horderly := h.registry.heartbeat h.idle i
  refine ⟨horderly.registry, horderly.idle, ?_⟩
  have hvalidated := InOrder.kept.validateSession h i
  unfold ChatService.heartbeat
  split
  · rename_i heq
    rw [heq] at hvalidated
    exact hvalidated.fresh
  · rename_i s' heq
    rw [heq] at hvalidated
    obtain ⟨hs', hregistered⟩ := validateSession_ok heq
    have huser : (s'.object i).userId = (s.object i).userId := by
      rw [hs']
      exact (expireUser_smalls publishPresence_smalls _ s).shrinks.owner i
    have hmem : i ∈ members s'.userSessions (s.object i).userId :=
      (hvalidated.registry.byUser _ i).mpr ⟨huser, hregistered⟩
    have hleft : i ∈ members (s.expireUser c (publishPresence c) (s.object i).userId).userSessions
        (s.object i).userId := hs' ▸ hmem
    obtain ⟨hbefore, hstale⟩ := h.registry.left hleft
    have hgone := h.not_gone (hsteady ((h.registry.byUser _ i).mp hbefore).2 hstale) (ne_nil_of_mem hleft)
    rw [← hs'] at hgone
    have hobject : ∀ j, (s'.tick.setObject i { s'.object i with lastHeartbeat := c.clock s'.reading }).object j =
        if j = i then { s'.object i with lastHeartbeat := c.clock s'.reading } else s'.object j :=
      fun j => object_setObject _ _ _ j
    have heventual : ∀ w user, (s'.tick.setObject i { s'.object i with lastHeartbeat := c.clock s'.reading }).eventual
        (fun _ => []) w user = s'.eventual (fun _ => []) w user := by
      intro w user
      unfold eventual view
      rw [hobject]
      split
      · rename_i hw
        subst hw
        rfl
      · rfl
    constructor
    · intro w user hw howed hon
      rw [heventual] at hon
      exact hvalidated.fresh.online w user hw howed hon
    · intro w user hw hoff j hj
      rw [heventual] at hoff
      have hne : j ≠ i := by
        rintro rfl
        have hsame := hvalidated.registry.userId_of_mem hj
        rw [huser] at hsame
        subst hsame
        exact hgone w hw hoff
      unfold lapsed
      rw [hobject, if_neg hne]
      exact hvalidated.fresh.tick.offline w user hw hoff j hj

theorem Fresh.read (h : Fresh c (fun _ => []) none s) (i : SessionId) (queue : List (LiveEvent μ)) :
    Fresh c (fun _ => []) none (s.setObject i { s.object i with queue := queue }) := by
  have hobject : ∀ j, ((s.setObject i { s.object i with queue := queue }).object j).answer = (s.object j).answer ∧
      ((s.setObject i { s.object i with queue := queue }).object j).heard = (s.object j).heard ∧
      ((s.setObject i { s.object i with queue := queue }).object j).lastHeartbeat = (s.object j).lastHeartbeat := by
    intro j
    rw [object_setObject]
    split
    · rename_i hj
      subst hj
      exact ⟨rfl, rfl, rfl⟩
    · exact ⟨rfl, rfl, rfl⟩
  constructor
  · intro w user hw howed hon
    unfold eventual view at hon
    rw [(hobject w).1, (hobject w).2.1] at hon
    exact h.online w user hw howed hon
  · intro w user hw hoff j hj
    unfold eventual view at hoff
    rw [(hobject w).1, (hobject w).2.1] at hoff
    unfold lapsed
    rw [(hobject j).2.2]
    exact h.offline w user hw hoff j hj

/-! ### Every run -/

variable (c) in
/-- No connection and no heartbeat comes between the two readings. -/
def Steady (s : ChatService τ μ) : Call μ → Prop
  | .connect token deviceId =>
    validName deviceId = true → ∀ user, s.auth token = some user → s.straddles c user = false
  | .heartbeat i =>
    s.sessions.get? (s.key i) = some i → s.stale c (c.clock s.reading) (s.object i).userId i = false →
      s.straddles c (s.object i).userId = false
  | _ => True

theorem InOrder.perform (h : InOrder c s) {call : Call μ} (hsteady : s.Steady c call) :
    InOrder c (s.perform c call) := by
  have hkept := InOrder.kept (μ := μ) (c := c)
  cases call with
  | connect token deviceId => exact h.connect token deviceId hsteady
  | disconnect i => exact hkept.disconnect i h
  | validate i => exact hkept.validateSession h i
  | heartbeat i => exact h.heartbeat i hsteady
  | expireSessions => exact hkept.expireSessions h
  | isOnline user => exact hkept.isOnline h user
  | subscribe i values =>
    exact hkept.subscribePresence h i values (fun h hi hnodup => h.watch hi hnodup) fun user h => h.ask i user
  | authenticator auth =>
    obtain ⟨hregistry, hidle, -⟩ := h.registry.perform h.idle (.authenticator auth)
    exact ⟨hregistry, hidle, h.fresh.online, h.fresh.offline⟩
  | deliver message users sender => exact hkept.deliverLive h message users sender
  | receive i =>
    obtain ⟨hregistry, hidle, -⟩ := h.registry.perform h.idle (.receive i)
    exact ⟨hregistry, hidle, h.fresh.read i _⟩

variable (c) in
/-- The service where every call is steady. -/
def steadily (start : τ) : Transitions (ChatService τ μ) where
  start s := ∃ auth, s = init auth start
  step s s' := ∃ call, s.Steady c call ∧ s' = s.perform c call

theorem reachable_inOrder {start : τ} (h : (steadily c start).Reachable s) : InOrder c s := by
  refine h.invariant (P := InOrder c) ?_ ?_
  · rintro _ ⟨auth, rfl⟩
    exact ⟨Registry.init auth start, ⟨rfl, rfl⟩, fun _ _ hw => (nomatch hw), fun _ _ hw => (nomatch hw)⟩
  · rintro s _ - hs ⟨call, hsteady, rfl⟩
    exact hs.perform hsteady

/-- In a run of steady calls, who is shown online has an open session, and who is shown
offline has none that was not too old at the latest reading. -/
theorem views_agree {start : τ} (h : (steadily c start).Reachable s) {w : SessionId} {user : String}
    (hw : user ∈ members s.subscriptions w) :
    (s.view w user = some true → ∃ i ∈ members s.userSessions user, (s.object i).closed = false) ∧
      (s.view w user = some false → ∀ i ∈ members s.userSessions user, s.lapsed c (s.now c) i = true) := by
  have hs := reachable_inOrder h
  have heventual : s.eventual (fun _ => []) w user = s.view w user := by
    unfold eventual
    rw [hs.idle.events]
    rfl
  rw [← heventual]
  refine ⟨fun hon => ?_, hs.fresh.offline w user hw⟩
  obtain ⟨i, hi⟩ := exists_mem_of_ne_nil _ (hs.fresh.online w user hw nofun hon)
  exact ⟨i, hi, (hs.registry.registered ((hs.registry.byUser user i).mp hi).2).2.1⟩

theorem watched_steady : (steadily seconds 0).Reachable (running watched) := by
  have hempty : (steadily seconds 0).Reachable (running []) := .start ⟨some, rfl⟩
  have halice : (steadily seconds 0).Reachable (running [.connect "alice" "phone"]) := by
    refine hempty.step ⟨.connect "alice" "phone", fun _ user hauth => ?_, rfl⟩
    cases hauth
    decide +kernel
  have hbob : (steadily seconds 0).Reachable (running [.connect "alice" "phone", .connect "bob" "phone"]) := by
    refine halice.step ⟨.connect "bob" "phone", fun _ user hauth => ?_, rfl⟩
    have hsame : (running [.connect "alice" "phone"]).auth "bob" = some "bob" := by decide +kernel
    rw [hsame] at hauth
    cases hauth
    decide +kernel
  exact (hbob.step ⟨.subscribe 1 ["alice"], trivial, rfl⟩).step ⟨.disconnect 0, trivial, rfl⟩

theorem views_agree_watched : (running watched).view 1 "alice" = some false ∧
    ((running watched).view 1 "alice" = some false →
      ∀ i ∈ members (running watched).userSessions "alice",
        (running watched).lapsed seconds ((running watched).now seconds) i = true) :=
  ⟨by decide +kernel, (views_agree watched_steady (by decide +kernel)).2⟩

/-- One of two sessions expires, the other does so before the second reading, and a third
connects: the subscriber is told that the user is offline and nothing after that. -/
def straddled : List (Call Unit) :=
  [.connect "alice" "phone", .connect "alice" "tablet", .connect "bob" "phone", .subscribe 2 ["alice"],
    .isOnline "carol", .validate 2, .connect "alice" "laptop"]

theorem views_may_be_stale : ∃ s, (serving (μ := Unit) seconds 0).Reachable s ∧
    ∃ w user i, (s.object w).closed = false ∧ user ∈ members s.subscriptions w ∧
      s.view w user = some false ∧ i ∈ members s.userSessions user ∧
      s.lapsed seconds (s.now seconds) i = false :=
  ⟨_, running_reachable straddled, 2, "alice", 3, by decide +kernel, by decide +kernel, by decide +kernel,
    by decide +kernel, by decide +kernel⟩

end ChatService

end SystemDesign.Chat
