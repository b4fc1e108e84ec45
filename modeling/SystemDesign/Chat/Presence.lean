import SystemDesign.Chat.Calls

/-!
What a subscriber is shown.

An event reaches subscribers in stages: it stands in the worklist, then the loop has told
some of them, then it is in every queue. `eventual` is what a subscriber will be shown once
all that is announced has arrived. A part of a call that closes a user's last live session
owes an announcement until it makes it; in between, everything else is `Fresh`.

`_expire_user` reads the clock twice. When one session of a user expires and the others do so
only between the two readings, it announces the user offline and leaves sessions registered.
`connect` then announces nothing and `heartbeat` prolongs such a session (`straddles`).
-/

namespace SystemDesign.Chat

open List

/-- An answer or nothing, after the events about the user. -/
def hear (user : String) (said : Option Bool) (events : List (String × Bool)) : Option Bool :=
  events.foldl (fun said event => if event.1 = user then some event.2 else said) said

theorem hear_append (user : String) (said : Option Bool) (events events' : List (String × Bool)) :
    hear user said (events ++ events') = hear user (hear user said events) events' := foldl_append

theorem hear_snoc (user : String) (said : Option Bool) (events : List (String × Bool)) (event : String × Bool) :
    hear user said (events ++ [event]) = if event.1 = user then some event.2 else hear user said events :=
  hear_append user said events [event]

/-- An event about the user overrides what was said before. -/
theorem hear_eq (user : String) (said : Option Bool) (events : List (String × Bool)) :
    hear user said events = (hear user none events).or said := by
  induction events using List.reverseRecOn with
  | nil => rfl
  | append_singleton events event ih =>
    rw [hear_snoc, hear_snoc]
    split
    · rfl
    · exact ih

namespace ChatService

variable {τ μ : Type} [LinearOrder τ] [Sub τ] {c : Setup τ}

/-! ### Views -/

/-- The answer of the latest subscription, overridden by the events since. -/
def view (s : ChatService τ μ) (w : SessionId) (user : String) : Option Bool :=
  hear user ((s.object w).answer.get? user) (s.object w).heard

/-- The view after what is left of an event that is being told, and after the worklist. -/
def eventual (front : SessionId → List (String × Bool)) (s : ChatService τ μ) (w : SessionId)
    (user : String) : Option Bool := hear user (s.view w user) (front w ++ s.presenceEvents)

/-- The latest reading of the clock. -/
def now (c : Setup τ) (s : ChatService τ μ) : τ := c.clock (s.reading - 1)

/-- Views agree with the sessions, but for a user of whom an announcement is owed. -/
structure Fresh (c : Setup τ) (front : SessionId → List (String × Bool)) (owed : Option String)
    (s : ChatService τ μ) : Prop where
  online : ∀ w user, user ∈ members s.subscriptions w → owed ≠ some user →
    s.eventual front w user = some true → members s.userSessions user ≠ []
  offline : ∀ w user, user ∈ members s.subscriptions w → s.eventual front w user = some false →
    ∀ i ∈ members s.userSessions user, s.lapsed c (s.now c) i = true

theorem Fresh.owing {front : SessionId → List (String × Bool)} {s : ChatService τ μ} (h : Fresh c front none s)
    (user : String) : Fresh c front (some user) s :=
  ⟨fun w user' hmem _ => h.online w user' hmem nofun, h.offline⟩

theorem lapsed_mono (s : ChatService τ μ) {a b : τ} (hab : a ≤ b) {i : SessionId}
    (h : s.lapsed c a i = true) : s.lapsed c b i = true := by
  unfold lapsed at h ⊢
  rw [decide_eq_true_eq] at h ⊢
  exact h.trans (c.sub_le _ _ _ hab)

theorem now_le (s : ChatService τ μ) : s.now c ≤ c.clock s.reading := c.clock_mono (Nat.sub_le _ _)

theorem lapsed_close (now : τ) (s : ChatService τ μ) (i j : SessionId) :
    (s.close i).lapsed c now j = s.lapsed c now j := by
  unfold lapsed
  rw [(close_object s i j).2.2.2.1]

theorem lapsed_closeAll (now : τ) (s : ChatService τ μ) (ids : List SessionId) (j : SessionId) :
    (s.closeAll ids).lapsed c now j = s.lapsed c now j := by
  unfold closeAll
  induction ids generalizing s with
  | nil => rfl
  | cons i ids ih => exact (ih _).trans (lapsed_close now s i j)

omit [LinearOrder τ] [Sub τ] in
theorem view_close (s : ChatService τ μ) (i w : SessionId) (user : String) :
    (s.close i).view w user = s.view w user := by
  unfold view
  rw [(close_object s i w).2.2.2.2.1, (close_object s i w).2.2.2.2.2]

/-! ### Sessions only go -/

/-- Nobody gains a session or a subscription. -/
structure Shrinks (s s' : ChatService τ μ) : Prop where
  owner : ∀ i, (s'.object i).userId = (s.object i).userId
  sessions : ∀ user, members s'.userSessions user ⊆ members s.userSessions user
  subscriptions : ∀ w, members s'.subscriptions w ⊆ members s.subscriptions w

section
omit [LinearOrder τ] [Sub τ]

theorem Shrinks.refl (s : ChatService τ μ) : Shrinks s s :=
  ⟨fun _ => rfl, fun _ => Subset.refl _, fun _ => Subset.refl _⟩

theorem Shrinks.trans {s s' s'' : ChatService τ μ} (h : Shrinks s s') (h' : Shrinks s' s'') : Shrinks s s'' where
  owner i := (h'.owner i).trans (h.owner i)
  sessions user _ hi := h.sessions user (h'.sessions user hi)
  subscriptions w _ huser := h.subscriptions w (h'.subscriptions w huser)

theorem shrinks_close (s : ChatService τ μ) (i : SessionId) : Shrinks s (s.close i) := by
  refine ⟨fun j => (close_object s i j).1, ?_, ?_⟩
  · intro user j hj
    unfold close at hj
    split at hj
    · exact hj
    · exact (mem_discard.mp hj).1
  · intro w user huser
    unfold close at huser
    split at huser
    · exact huser
    · change user ∈ members (s.subscriptions.erase i) w at huser
      rw [members_erase] at huser
      split at huser
      · cases huser
      · exact huser

end

theorem Smalls.shrinks {s s' : ChatService τ μ} (h : Smalls c s s') : Shrinks s s' := by
  induction h with
  | refl => exact Shrinks.refl s
  | tail _ hsmall ih =>
    refine ih.trans ?_
    cases hsmall with
    | close i => exact shrinks_close _ i
    | tick => exact ⟨fun _ => rfl, fun _ => Subset.refl _, fun _ => Subset.refl _⟩
    | events events => exact ⟨fun _ => rfl, fun _ => Subset.refl _, fun _ => Subset.refl _⟩
    | flag publishing => exact ⟨fun _ => rfl, fun _ => Subset.refl _, fun _ => Subset.refl _⟩
    | put i event hi hroom =>
      exact ⟨fun j => (put_object _ i event j).1, fun _ => Subset.refl _, fun _ => Subset.refl _⟩

/-! ### What the parts of a publication keep -/

section

variable {front : SessionId → List (String × Bool)} {owed : Option String} {s : ChatService τ μ}

theorem Fresh.tick (h : Fresh c front owed s) : Fresh c front owed s.tick :=
  ⟨h.online, fun w user hmem hoff i hi => lapsed_mono s (now_le s) (h.offline w user hmem hoff i hi)⟩

/-- Closing sessions of a user of whom an announcement is owed. -/
theorem Fresh.close {user : String} (h : Fresh c front (some user) s) {i : SessionId}
    (hi : (s.object i).userId = user) : Fresh c front (some user) (s.close i) := by
  have hshrinks := shrinks_close s i
  have heventual : ∀ w user', (s.close i).eventual front w user' = s.eventual front w user' := by
    intro w user'
    unfold eventual
    rw [view_close, (close_rest s i).2.2.1]
  constructor
  · intro w user' hmem hne hon
    rw [heventual] at hon
    have hsessions := h.online w user' (hshrinks.subscriptions w hmem) hne hon
    -- the sessions of other users are the same
    have hsame : members (s.close i).userSessions user' = members s.userSessions user' := by
      unfold ChatService.close
      split
      · rfl
      · change members (discard i s.userSessions (s.object i).userId) user' = _
        rw [hi]
        have hother : user' ≠ user := fun heq => hne (congrArg some heq.symm)
        unfold discard
        cases s.userSessions.get? user with
        | none => rfl
        | some set =>
          dsimp only
          split
          · rw [members_erase, if_neg hother]
          · rw [members_set, if_neg hother]
    rw [hsame]
    exact hsessions
  · intro w user' hmem hoff j hj
    rw [heventual] at hoff
    have hnow : (s.close i).now c = s.now c := by
      unfold ChatService.now
      rw [(close_rest s i).2.2.2.2]
    rw [lapsed_close, hnow]
    exact h.offline w user' (hshrinks.subscriptions w hmem) hoff j (hshrinks.sessions user' hj)

variable {ids : List SessionId}

theorem Fresh.closeAll {user : String} (h : Fresh c front (some user) s)
    (hids : ∀ i ∈ ids, (s.object i).userId = user) : Fresh c front (some user) (s.closeAll ids) := by
  unfold ChatService.closeAll
  induction ids generalizing s with
  | nil => exact h
  | cons i ids ih =>
    apply ih (h.close (hids i (mem_cons_self ..)))
    intro j hj
    rw [(close_object s i j).1]
    exact hids j (mem_cons_of_mem i hj)

variable {user : String}

theorem Fresh.gone (h : Fresh c front (some user) s) (hgone : s.hasLive c user = false) :
    Fresh c front none (s.tick.announce user false) := by
  have heventual : ∀ w user', (s.tick.announce user false).eventual front w user' =
      if user = user' then some false else s.eventual front w user' := by
    intro w user'
    unfold eventual
    change hear user' (s.view w user') (front w ++ (s.presenceEvents ++ [(user, false)])) = _
    rw [← append_assoc, hear_snoc]
  constructor
  · intro w user' hmem _ hon
    rw [heventual] at hon
    split at hon
    · cases hon
    · rename_i hne
      exact h.online w user' hmem (fun heq => hne (Option.some.inj heq)) hon
  · intro w user' hmem hoff i hi
    rw [heventual] at hoff
    change s.lapsed c (c.clock s.reading) i = true
    split at hoff
    · rename_i heq
      subst heq
      unfold hasLive at hgone
      rw [any_eq_false] at hgone
      simpa using hgone i hi
    · exact lapsed_mono s (now_le s) (h.offline w user' hmem hoff i hi)

theorem Fresh.live (h : Fresh c front (some user) s) (hlive : s.hasLive c user = true) : Fresh c front none s.tick := by
  refine ⟨fun w user' hmem _ hon => ?_, h.tick.offline⟩
  by_cases heq : user = user'
  · subst heq
    obtain ⟨i, hi, -⟩ := any_eq_true.mp hlive
    exact ne_nil_of_mem hi
  · exact h.online w user' hmem (fun heq' => heq (Option.some.inj heq')) hon

theorem Fresh.announceGone {user : String} (h : Fresh c front (some user) s) :
    Fresh c front none (s.announceGone c announce user) := by
  unfold ChatService.announceGone
  split
  · rename_i hlive
    exact h.live hlive
  · rename_i hgone
    exact h.gone (Bool.not_eq_true _ ▸ hgone)

variable {i : SessionId}

theorem Registry.userId_of_mem (h : Registry c s) (hi : i ∈ members s.userSessions user) :
    (s.object i).userId = user := ((h.byUser user i).mp hi).1

variable (c) in
/-- What `_expire_user` closes. -/
def expiring (user : String) (s : ChatService τ μ) : List SessionId :=
  (c.order (members s.userSessions user)).filter (s.stale c (c.clock s.reading) user)

theorem mem_expiring : i ∈ s.expiring c user ↔
    i ∈ members s.userSessions user ∧ s.stale c (c.clock s.reading) user i = true := by
  unfold expiring
  rw [mem_filter, (c.order_perm _).mem_iff]

theorem expireUser_eq (publish : String → Bool → ChatService τ μ → ChatService τ μ) (user : String)
    (s : ChatService τ μ) : s.expireUser c publish user =
      if s.expiring c user = [] then s.tick
      else announceGone c publish user (s.tick.closeAll (s.expiring c user)) := by
  unfold expireUser
  rw [expireAll_eq]
  dsimp only
  change (if (c.order (members s.userSessions user)).any (s.stale c (c.clock s.reading) user) = true then
    announceGone c publish user (s.tick.closeAll (s.expiring c user)) else
      s.tick.closeAll (s.expiring c user)) = _
  by_cases hnil : s.expiring c user = []
  · rw [if_pos hnil, hnil, if_neg]
    · rfl
    · intro hany
      obtain ⟨i, hi, hstale⟩ := any_eq_true.mp hany
      have hmem : i ∈ s.expiring c user := mem_filter.mpr ⟨hi, hstale⟩
      rw [hnil] at hmem
      cases hmem
  · rw [if_neg hnil, if_pos]
    obtain ⟨i, hi⟩ := exists_mem_of_ne_nil _ hnil
    exact any_eq_true.mpr ⟨i, (mem_filter.mp hi).1, (mem_filter.mp hi).2⟩

theorem Fresh.expired (h : Fresh c front none s) (hs : Registry c s) (user : String) :
    Fresh c front (some user) (s.tick.closeAll (s.expiring c user)) :=
  (h.tick.owing user).closeAll fun _ hi => hs.userId_of_mem (mem_expiring.mp hi).1

theorem Fresh.expireUser (h : Fresh c front none s) (hs : Registry c s) (user : String) :
    Fresh c front none (s.expireUser c announce user) := by
  rw [expireUser_eq]
  split
  · exact h.tick
  · exact (h.expired hs user).announceGone

theorem Fresh.disconnected (h : Fresh c front none s) (i : SessionId) :
    Fresh c front (some (s.object i).userId) (s.close i) := (h.owing _).close rfl

theorem Fresh.disconnect (h : Fresh c front none s) (i : SessionId) :
    Fresh c front none (s.disconnect c announce i) := by
  unfold ChatService.disconnect
  split
  · exact (h.disconnected i).announceGone
  · exact h

/-! ### The loop -/

/-- An event that the sessions in the list are still to be told. -/
def pending (event : String × Bool) (ids : List SessionId) : SessionId → List (String × Bool) :=
  fun w => if w ∈ ids then [event] else []

theorem Fresh.congr {front' : SessionId → List (String × Bool)} (h : Fresh c front owed s)
    (hfront : ∀ w, members s.subscriptions w ≠ [] → front' w = front w) : Fresh c front' owed s := by
  have heventual : ∀ w user, user ∈ members s.subscriptions w → s.eventual front' w user = s.eventual front w user := by
    intro w user hmem
    unfold eventual
    rw [hfront w (ne_nil_of_mem hmem)]
  constructor
  · intro w user hmem howed hon
    exact h.online w user hmem howed (heventual w user hmem ▸ hon)
  · intro w user hmem hoff
    exact h.offline w user hmem (heventual w user hmem ▸ hoff)

theorem Registry.unsubscribed (h : Registry c s) (hi : (s.object i).closed = true) :
    members s.subscriptions i = [] := by
  unfold members
  rw [(h.agrees.absent i hi).2.2.1]
  rfl

/-- A session that has no subscription is told nothing any more. -/
theorem Fresh.skip {event : String × Bool} (h : Fresh c (pending event (i :: ids)) owed s)
    (hi : members s.subscriptions i = []) : Fresh c (pending event ids) owed s := by
  apply h.congr
  intro w hw
  have hne : w ≠ i := by
    rintro rfl
    exact hw hi
  unfold pending
  simp [hne]

theorem disconnect_closed (hs : Registry c s) (hi : (s.object i).closed = false) :
    members (s.disconnect c announce i).subscriptions i = [] := by
  have hs' := hs.smalls (disconnect_smalls announce_publishes i s)
  apply hs'.unsubscribed
  unfold ChatService.disconnect
  rw [if_pos (hs.unclosed i hi)]
  have hclosed : ((s.close i).object i).closed = true := by
    rw [(hs.closed hi).object, if_pos rfl]
  unfold announceGone
  split
  · exact hclosed
  · exact hclosed

omit [LinearOrder τ] [Sub τ] in
theorem view_put (s : ChatService τ μ) (i : SessionId) (event : LiveEvent μ) (w : SessionId) (user : String) :
    (s.put i event).view w user = if w = i then hear user (s.view w user) (told event) else s.view w user := by
  unfold view put
  rw [object_setObject]
  split
  · rename_i hwi
    subst hwi
    exact hear_append _ _ _ _
  · rfl

theorem Fresh.enqueue {target : String} {state : Bool} {i : SessionId}
    (h : Fresh c (pending (target, state) (i :: ids)) none s) (hs : Registry c s) (hi : i ∉ ids) :
    Fresh c (pending (target, state) ids) none (s.enqueue c announce i (.presence target state)) := by
  unfold ChatService.enqueue
  split
  · rename_i hclosed
    exact h.skip (hs.unsubscribed hclosed)
  · rename_i hopen
    split
    · have heventual : ∀ w user, (s.put i (.presence target state)).eventual (pending (target, state) ids) w user =
          s.eventual (pending (target, state) (i :: ids)) w user := by
        intro w user
        unfold eventual pending
        rw [view_put]
        by_cases hw : w = i
        · subst hw
          simp only [if_true, hi, if_false, mem_cons_self, nil_append]
          rw [hear_append]
          rfl
        · simp only [hw, if_false, mem_cons, false_or]
          rfl
      have hlapsed : ∀ now j, (s.put i (.presence target state)).lapsed c now j = s.lapsed c now j := by
        intro now j
        unfold lapsed
        rw [(put_object s i _ j).2.2.2.1]
      constructor
      · intro w user hmem howed hon
        rw [heventual] at hon
        exact h.online w user hmem howed hon
      · intro w user hmem hoff j hj
        rw [heventual] at hoff
        rw [hlapsed]
        exact h.offline w user hmem hoff j hj
    · exact (h.disconnect i).skip (disconnect_closed hs (Bool.not_eq_true _ ▸ hopen))

theorem Fresh.foldl_tell {target : String} {state : Bool} (h : Fresh c (pending (target, state) ids) none s)
    (hs : Registry c s) (hids : ids.Nodup) :
    Fresh c (pending (target, state) []) none (ids.foldl (tell c target state) s) := by
  induction ids generalizing s with
  | nil => exact h
  | cons i ids ih =>
    obtain ⟨hi, hids⟩ := nodup_cons.mp hids
    have hexpired := h.expireUser hs (s.object i).userId
    have hs' := hs.smalls (expireUser_smalls announce_publishes (s.object i).userId s)
    exact ih (hexpired.enqueue hs' hi) (hs.smalls (tell_smalls target state s i)) hids

theorem Fresh.drain (h : Fresh c (fun _ => []) none s) (hs : Registry c s) (fuel : ℕ) :
    Fresh c (fun _ => []) none (drain c fuel s) := by
  induction fuel generalizing s with
  | zero => exact h
  | succ fuel ih =>
    unfold ChatService.drain
    split
    · exact h
    · rename_i target state rest hevents
      have hrest := hs.small (.events s rest)
      have hids : (c.order (members s.watchers target)).Nodup := by
        rw [(c.order_perm _).nodup_iff]
        unfold members
        cases hget : s.watchers.get? target with
        | none => exact nodup_nil
        | some set => exact (hs.watcherSets target set hget).2
      -- the first event of the worklist now stands before those who watch its user
      have hstarted : Fresh c (pending (target, state) (c.order (members s.watchers target))) none
          { s with presenceEvents := rest } := by
        have heventual : ∀ w user, user ∈ members s.subscriptions w →
            ({ s with presenceEvents := rest } : ChatService τ μ).eventual
              (pending (target, state) (c.order (members s.watchers target))) w user =
              s.eventual (fun _ => []) w user := by
          intro w user hmem
          unfold eventual pending
          rw [hevents]
          change hear user (s.view w user) _ = hear user (s.view w user) ((target, state) :: rest)
          split
          · rfl
          · rename_i hw
            have hne : target ≠ user := by
              rintro rfl
              exact hw ((c.order_perm _).mem_iff.mpr ((hs.watching w target).mpr hmem))
            change hear user (s.view w user) rest = hear user (if target = user then _ else _) rest
            rw [if_neg hne]
        constructor
        · intro w user hmem howed hon
          exact h.online w user hmem howed (heventual w user hmem ▸ hon)
        · intro w user hmem hoff
          exact h.offline w user hmem (heventual w user hmem ▸ hoff)
      have htold := hstarted.foldl_tell hrest hids
      exact ih (htold.congr fun _ _ => rfl) (hrest.smalls (foldl_tell_smalls target state _ _))

theorem Fresh.published {online : Bool} (h : Fresh c (fun _ => []) none (s.announce user online)) (hs : Registry c s)
    (hflag : s.publishing = false) : Fresh c (fun _ => []) none (s.publishPresence c user online) := by
  have hstarted : Fresh c (fun _ => []) none { s.announce user online with publishing := true } := ⟨h.online, h.offline⟩
  have hdrained := hstarted.drain ((hs.small (.events s _)).small (.flag _ true))
    ((s.announce user online).presenceEvents.length + (s.announce user online).openCount)
  have hne : ¬ (s.announce user online).publishing = true := by
    change ¬ s.publishing = true
    rw [hflag]
    exact Bool.false_ne_true
  unfold publishPresence
  dsimp only
  rw [if_neg hne]
  exact ⟨hdrained.online, hdrained.offline⟩

end

end ChatService

end SystemDesign.Chat
