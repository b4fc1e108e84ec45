import SystemDesign.Chat.Service

/-!
The four maps of the registry describe one set of open sessions.

Every function of the service is made of a few small changes: a session is closed, an
event is put into a queue, the clock is read, the worklist or its flag changes
(`Small`). Each keeps `Registry`, and a closed session's queue is never written again.
-/

namespace SystemDesign.Chat

open List

/-! ### Sets in dictionaries -/

section

variable {κ α : Type} [DecidableEq κ] [DecidableEq α]

/-- No set is empty or lists an element twice. -/
def Proper (d : Dict κ (List α)) : Prop := ∀ k set, d.get? k = some set → set ≠ [] ∧ set.Nodup

variable {d : Dict κ (List α)}

variable {k : κ}

omit [DecidableEq α] in
theorem members_of_get? {set : List α} (h : d.get? k = some set) : members d k = set := by
  unfold members
  rw [h]
  rfl

variable {a : α}

section
omit [DecidableEq α]

theorem get?_of_mem (h : a ∈ members d k) : d.get? k = some (members d k) := by
  unfold members at h ⊢
  cases hget : d.get? k with
  | none =>
    rw [hget] at h
    cases h
  | some set => rfl

theorem members_set (d : Dict κ (List α)) (k : κ) (set : List α) (k' : κ) :
    members (d.set k set) k' = if k' = k then set else members d k' := by
  unfold members
  rw [Dict.get?_set]
  split
  · rfl
  · rfl

theorem members_erase (d : Dict κ (List α)) (k k' : κ) :
    members (d.erase k) k' = if k' = k then [] else members d k' := by
  unfold members
  rw [Dict.get?_erase]
  split
  · rfl
  · rfl

end

variable {k' : κ}

variable {b : α}

theorem mem_insertInto : b ∈ members (insertInto a d k) k' ↔ b ∈ members d k' ∨ k' = k ∧ b = a := by
  unfold insertInto
  rw [members_set]
  by_cases hk : k' = k
  · subst hk
    by_cases ha : a ∈ members d k'
    · simp only [if_true, ha, true_and]
      constructor
      · exact Or.inl
      · rintro (hb | rfl)
        · exact hb
        · exact ha
    · simp [ha]
  · simp [hk]

theorem Proper.insertInto {d : Dict κ (List α)} (h : Proper d) (a : α) (k : κ) : Proper (Chat.insertInto a d k) := by
  intro k' set hget
  unfold Chat.insertInto at hget
  obtain ⟨rfl, rfl⟩ | ⟨-, hget⟩ := Dict.get?_set_cases hget
  · split
    · rename_i ha
      exact h _ _ (get?_of_mem ha)
    · rename_i ha
      refine ⟨by simp, ?_⟩
      apply Nodup.append _ (nodup_singleton a)
      · simpa using ha
      · unfold members
        cases hget' : d.get? k' with
        | none => exact nodup_nil
        | some set => exact (h _ _ hget').2
  · exact h _ _ hget

theorem mem_discard : b ∈ members (discard a d k) k' ↔ b ∈ members d k' ∧ ¬ (k' = k ∧ b = a) := by
  unfold discard
  cases hget : d.get? k with
  | none =>
    have hnil : members d k = [] := by
      unfold members
      rw [hget]
      rfl
    constructor
    · refine fun hb => ⟨hb, ?_⟩
      rintro ⟨rfl, -⟩
      rw [hnil] at hb
      cases hb
    · exact fun h => h.1
  | some set =>
    have hset := members_of_get? hget
    have hfilter : ∀ b, b ∈ set.filter (fun b => decide (b ≠ a)) ↔ b ∈ members d k ∧ b ≠ a := by
      intro b
      rw [mem_filter, decide_eq_true_eq, hset]
    dsimp only
    split
    · rename_i hempty
      rw [members_erase]
      by_cases hk : k' = k
      · subst hk
        have hnot := (hfilter b).not.mp (by rw [hempty]; exact not_mem_nil)
        simp only [if_true, true_and]
        constructor
        · exact fun h => nomatch h
        · exact fun h => absurd h hnot
      · simp [hk]
    · rw [members_set]
      by_cases hk : k' = k
      · subst hk
        simp only [if_true, true_and]
        exact hfilter b
      · simp [hk]

theorem Proper.discard {d : Dict κ (List α)} (h : Proper d) (a : α) (k : κ) : Proper (Chat.discard a d k) := by
  unfold Chat.discard
  cases hget : d.get? k with
  | none => exact h
  | some set =>
    dsimp only
    split
    · intro k' set' hget'
      rw [Dict.get?_erase] at hget'
      split at hget'
      · cases hget'
      · exact h _ _ hget'
    · rename_i hne
      intro k' set' hget'
      obtain ⟨rfl, rfl⟩ | ⟨-, hget'⟩ := Dict.get?_set_cases hget'
      · exact ⟨hne, (h _ _ hget).2.filter _⟩
      · exact h _ _ hget'

theorem mem_foldl_discard {ks : List κ} :
    b ∈ members (ks.foldl (discard a) d) k' ↔ b ∈ members d k' ∧ ¬ (k' ∈ ks ∧ b = a) := by
  induction ks generalizing d with
  | nil => simp
  | cons k ks ih =>
    rw [foldl_cons, ih, mem_discard, mem_cons]
    tauto

theorem Proper.foldl_discard (h : Proper d) (a : α) (ks : List κ) : Proper (ks.foldl (Chat.discard a) d) := by
  induction ks generalizing d with
  | nil => exact h
  | cons k ks ih => exact ih (h.discard a k)

theorem mem_foldl_insertInto {ks : List κ} :
    b ∈ members (ks.foldl (insertInto a) d) k' ↔ b ∈ members d k' ∨ k' ∈ ks ∧ b = a := by
  induction ks generalizing d with
  | nil => simp
  | cons k ks ih =>
    rw [foldl_cons, ih, mem_insertInto, mem_cons]
    tauto

theorem Proper.foldl_insertInto (h : Proper d) (a : α) (ks : List κ) : Proper (ks.foldl (Chat.insertInto a) d) := by
  induction ks generalizing d with
  | nil => exact h
  | cons k ks ih => exact ih (h.insertInto a k)

end

namespace ChatService

variable {τ μ : Type} [LinearOrder τ] [Sub τ] {c : Setup τ}

/-! ### The invariant -/

structure Registry (c : Setup τ) (s : ChatService τ μ) : Prop where
  registered : ∀ {key : String × String} {i : SessionId}, s.sessions.get? key = some i →
    i < s.next ∧ (s.object i).closed = false ∧ key = s.key i
  unclosed : ∀ i, (s.object i).closed = false → s.sessions.get? (s.key i) = some i
  byUser : ∀ user i, i ∈ members s.userSessions user ↔ (s.object i).userId = user ∧ s.sessions.get? (s.key i) = some i
  userSets : Proper s.userSessions
  watching : ∀ w user, w ∈ members s.watchers user ↔ user ∈ members s.subscriptions w
  watcherSets : Proper s.watchers
  subscriber : ∀ {w users}, s.subscriptions.get? w = some users → s.sessions.get? (s.key w) = some w ∧ users.Nodup
  shut : ∀ i, (s.object i).closed = true → (s.object i).queue = [closedEvent] ∨ (s.object i).queue = []
  room : ∀ i, (s.object i).queue.length ≤ c.queueSize

omit [LinearOrder τ] [Sub τ] in
theorem object_setObject (s : ChatService τ μ) (i : SessionId) (x : Session τ μ) (j : SessionId) :
    (s.setObject i x).object j = if j = i then x else s.object j := Function.update_apply _ _ _ _

variable {s : ChatService τ μ}

variable {i : SessionId}

section
omit [LinearOrder τ] [Sub τ]

theorem close_of_closed (h : (s.object i).closed = true) : s.close i = s := if_pos h

theorem close_object (s : ChatService τ μ) (i j : SessionId) : ((s.close i).object j).userId = (s.object j).userId ∧
      ((s.close i).object j).deviceId = (s.object j).deviceId ∧
      ((s.close i).object j).token = (s.object j).token ∧
      ((s.close i).object j).lastHeartbeat = (s.object j).lastHeartbeat ∧
      ((s.close i).object j).answer = (s.object j).answer ∧
      ((s.close i).object j).heard = (s.object j).heard := by
  by_cases h : (s.object i).closed = true
  · rw [close_of_closed h]
    exact ⟨rfl, rfl, rfl, rfl, rfl, rfl⟩
  · unfold close
    rw [if_neg h]
    dsimp only
    rw [object_setObject]
    split
    · rename_i hij
      subst hij
      exact ⟨rfl, rfl, rfl, rfl, rfl, rfl⟩
    · exact ⟨rfl, rfl, rfl, rfl, rfl, rfl⟩

theorem key_close (s : ChatService τ μ) (i j : SessionId) : (s.close i).key j = s.key j :=
  Prod.ext (close_object s i j).1 (close_object s i j).2.1

end

/-- What closing an open session leaves. -/
structure Closed (s : ChatService τ μ) (i : SessionId) (s' : ChatService τ μ) : Prop where
  object : ∀ j, s'.object j = if j = i then { s.object i with closed := true, queue := [closedEvent] } else s.object j
  sessions : ∀ key, s'.sessions.get? key = if key = s.key i then none else s.sessions.get? key
  userSessions : s'.userSessions = discard i s.userSessions (s.object i).userId
  subscriptions : s'.subscriptions = s.subscriptions.erase i
  watchers : s'.watchers = (members s.subscriptions i).foldl (discard i) s.watchers

theorem Registry.closed {s : ChatService τ μ} (h : Registry c s) (hi : (s.object i).closed = false) :
    Closed s i (s.close i) := by
  have hkey := h.unclosed i hi
  have hne : ¬ (s.object i).closed = true := by
    rw [hi]
    exact Bool.false_ne_true
  unfold close
  rw [if_neg hne, if_pos hkey]
  constructor
  · intro j
    exact object_setObject _ _ _ _
  · intro key
    exact Dict.get?_erase _ _ _
  · rfl
  · rfl
  · rfl

theorem Registry.close {s : ChatService τ μ} (h : Registry c s) (i : SessionId) : Registry c (s.close i) := by
  by_cases hi : (s.object i).closed = true
  · rw [close_of_closed hi]
    exact h
  · have hopen : (s.object i).closed = false := Bool.not_eq_true _ ▸ hi
    have hc := h.closed hopen
    have hkey := h.unclosed i hopen
    have hkeys := key_close s i
    have hregistered : ∀ j, (s.close i).sessions.get? ((s.close i).key j) = some j ↔
        j ≠ i ∧ s.sessions.get? (s.key j) = some j := by
      intro j
      rw [hc.sessions, hkeys]
      by_cases hj : j = i
      · subst hj
        simp
      · by_cases hsame : s.key j = s.key i
        · rw [if_pos hsame, hsame, hkey]
          constructor
          · rintro ⟨⟩
          · rintro ⟨-, heq⟩
            exact absurd (Option.some.inj heq).symm hj
        · rw [if_neg hsame]
          exact ⟨fun h => ⟨hj, h⟩, fun h => h.2⟩
    constructor
    · intro key j hget
      rw [hc.sessions] at hget
      split at hget
      · cases hget
      · rename_i hne
        obtain ⟨hlt, hclosed, hk⟩ := h.registered hget
        have hj : j ≠ i := by
          rintro rfl
          exact hne hk
        refine ⟨?_, ?_, ?_⟩
        · unfold ChatService.close
          split
          · exact hlt
          · exact hlt
        · rw [hc.object, if_neg hj]
          exact hclosed
        · rw [hkeys]
          exact hk
    · intro j hj
      rw [hc.object] at hj
      split at hj
      · cases hj
      · rename_i hne
        exact (hregistered j).mpr ⟨hne, h.unclosed j hj⟩
    · intro user j
      rw [hregistered, (close_object s i j).1, hc.userSessions, mem_discard, h.byUser]
      constructor
      · rintro ⟨⟨huser, hget⟩, hnot⟩
        refine ⟨huser, ?_, hget⟩
        rintro rfl
        exact hnot ⟨huser.symm, rfl⟩
      · rintro ⟨huser, hne, hget⟩
        exact ⟨⟨huser, hget⟩, fun hand => hne hand.2⟩
    · rw [hc.userSessions]
      exact h.userSets.discard _ _
    · intro w user
      rw [hc.watchers, hc.subscriptions, mem_foldl_discard, members_erase, h.watching]
      by_cases hw : w = i
      · subst hw
        simp
      · simp [hw]
    · rw [hc.watchers]
      exact h.watcherSets.foldl_discard _ _
    · intro w users hget
      rw [hc.subscriptions, Dict.get?_erase] at hget
      split at hget
      · cases hget
      · rename_i hne
        obtain ⟨hreg, hnodup⟩ := h.subscriber hget
        exact ⟨(hregistered w).mpr ⟨hne, hreg⟩, hnodup⟩
    · intro j hj
      rw [hc.object] at hj ⊢
      split at hj
      · rename_i heq
        rw [if_pos heq]
        exact .inl rfl
      · rename_i hne
        rw [if_neg hne]
        exact h.shut j hj
    · intro j
      rw [hc.object]
      split
      · exact c.queue_pos
      · exact h.room j

/-! ### Small changes -/

variable (c) in
inductive Small : ChatService τ μ → ChatService τ μ → Prop
  | close (s : ChatService τ μ) (i : SessionId) : Small s (s.close i)
  | tick (s : ChatService τ μ) : Small s s.tick
  | events (s : ChatService τ μ) (events : List (String × Bool)) :
      Small s { s with presenceEvents := events }
  | flag (s : ChatService τ μ) (publishing : Bool) : Small s { s with publishing := publishing }
  | put (s : ChatService τ μ) (i : SessionId) (event : LiveEvent μ) : (s.object i).closed = false →
      (s.object i).queue.length < c.queueSize → Small s (s.put i event)

variable (c) in
abbrev Smalls : ChatService τ μ → ChatService τ μ → Prop := Relation.ReflTransGen (Small c)

section
omit [LinearOrder τ] [Sub τ]

theorem put_object (s : ChatService τ μ) (i : SessionId) (event : LiveEvent μ) (j : SessionId) :
    ((s.put i event).object j).userId = (s.object j).userId ∧
      ((s.put i event).object j).deviceId = (s.object j).deviceId ∧
      ((s.put i event).object j).token = (s.object j).token ∧
      ((s.put i event).object j).lastHeartbeat = (s.object j).lastHeartbeat ∧
      ((s.put i event).object j).closed = (s.object j).closed := by
  unfold put
  rw [object_setObject]
  split
  · rename_i hij
    subst hij
    exact ⟨rfl, rfl, rfl, rfl, rfl⟩
  · exact ⟨rfl, rfl, rfl, rfl, rfl⟩

theorem key_put (s : ChatService τ μ) (i : SessionId) (event : LiveEvent μ) (j : SessionId) :
    (s.put i event).key j = s.key j :=
  Prod.ext (put_object s i event j).1 (put_object s i event j).2.1

end

theorem Registry.put {s : ChatService τ μ} (h : Registry c s) (event : LiveEvent μ)
    (hi : (s.object i).closed = false) (hroom : (s.object i).queue.length < c.queueSize) :
    Registry c (s.put i event) := by
  have hobject := put_object s i event
  have hkeys := key_put s i event
  constructor
  · intro key j hget
    rw [(hobject j).2.2.2.2, hkeys]
    exact h.registered hget
  · intro j hj
    rw [(hobject j).2.2.2.2] at hj
    rw [hkeys]
    exact h.unclosed j hj
  · intro user j
    rw [(hobject j).1, hkeys]
    exact h.byUser user j
  · exact h.userSets
  · exact h.watching
  · exact h.watcherSets
  · intro w users hget
    rw [hkeys]
    exact h.subscriber hget
  · intro j hj
    rw [(hobject j).2.2.2.2] at hj
    have hne : j ≠ i := by
      rintro rfl
      rw [hi] at hj
      cases hj
    unfold ChatService.put
    rw [object_setObject, if_neg hne]
    exact h.shut j hj
  · intro j
    unfold ChatService.put
    rw [object_setObject]
    split
    · rw [length_append, length_singleton]
      exact hroom
    · exact h.room j

variable {s' : ChatService τ μ}

theorem Registry.small (h : Registry c s) (hsmall : Small c s s') : Registry c s' := by
  cases hsmall with
  | close i => exact h.close i
  | tick => exact ⟨h.registered, h.unclosed, h.byUser, h.userSets, h.watching, h.watcherSets, h.subscriber, h.shut, h.room⟩
  | events events =>
    exact ⟨h.registered, h.unclosed, h.byUser, h.userSets, h.watching, h.watcherSets, h.subscriber, h.shut, h.room⟩
  | flag publishing =>
    exact ⟨h.registered, h.unclosed, h.byUser, h.userSets, h.watching, h.watcherSets, h.subscriber, h.shut, h.room⟩
  | put i event hi hroom => exact h.put event hi hroom

theorem Registry.smalls (h : Registry c s) (hsmalls : Smalls c s s') : Registry c s' := by
  induction hsmalls with
  | refl => exact h
  | tail _ hsmall ih => exact ih.small hsmall

/-! ### Queues of closed sessions -/

/-- A session that is closed stays closed and its queue is only read; one that closes has
the closing event in its queue and nothing else. -/
structure Shuts (s s' : ChatService τ μ) : Prop where
  closed : ∀ i, i < s.next → (s.object i).closed = true →
    (s'.object i).closed = true ∧ (s'.object i).queue <:+ (s.object i).queue
  closing : ∀ i, i < s.next → (s.object i).closed = false → (s'.object i).closed = true →
    (s'.object i).queue = [closedEvent]

/-- The same where no queue is read, so that it composes. -/
structure Silent (s s' : ChatService τ μ) : Prop where
  next : s.next ≤ s'.next
  closed : ∀ i, i < s.next → (s.object i).closed = true →
    (s'.object i).closed = true ∧ (s'.object i).queue = (s.object i).queue
  closing : ∀ i, i < s.next → (s.object i).closed = false → (s'.object i).closed = true →
    (s'.object i).queue = [closedEvent]

section
omit [LinearOrder τ] [Sub τ]

theorem Silent.trans {s s' s'' : ChatService τ μ} (h : Silent s s') (h' : Silent s' s'') : Silent s s'' := by
  refine ⟨h.next.trans h'.next, ?_, ?_⟩
  · intro i hlt hi
    obtain ⟨hclosed, hqueue⟩ := h.closed i hlt hi
    obtain ⟨hclosed', hqueue'⟩ := h'.closed i (hlt.trans_le h.next) hclosed
    exact ⟨hclosed', hqueue'.trans hqueue⟩
  · intro i hlt hi hi''
    have hlt' := hlt.trans_le h.next
    cases hmid : (s'.object i).closed with
    | true => exact ((h'.closed i hlt' hmid).2).trans (h.closing i hlt hi hmid)
    | false => exact h'.closing i hlt' hmid hi''

theorem Silent.shuts (h : Silent s s') : Shuts s s' := by
  refine ⟨fun i hlt hi => ?_, h.closing⟩
  obtain ⟨hclosed, hqueue⟩ := h.closed i hlt hi
  exact ⟨hclosed, hqueue ▸ suffix_refl _⟩

theorem silent_of_object (hnext : s.next ≤ s'.next) (h : ∀ i, i < s.next → (s'.object i).closed = (s.object i).closed ∧
      ((s.object i).closed = true → (s'.object i).queue = (s.object i).queue)) : Silent s s' := by
  refine ⟨hnext, fun i hlt hi => ⟨(h i hlt).1.trans hi, (h i hlt).2 hi⟩, fun i hlt hi hi' => ?_⟩
  rw [(h i hlt).1, hi] at hi'
  cases hi'

theorem Silent.refl (s : ChatService τ μ) : Silent s s :=
  silent_of_object (Nat.le_refl _) fun _ _ => ⟨rfl, fun _ => rfl⟩

theorem next_close (s : ChatService τ μ) (i : SessionId) : (s.close i).next = s.next := by
  unfold close
  split
  · rfl
  · rfl

end

theorem Small.silent (h : Small c s s') : Silent s s' := by
  cases h with
  | close i =>
    by_cases hi : (s.object i).closed = true
    · rw [close_of_closed hi]
      exact Silent.refl s
    · have hobject : ∀ j, (s.close i).object j =
          if j = i then { s.object i with closed := true, queue := [closedEvent] } else s.object j := by
        intro j
        unfold ChatService.close
        rw [if_neg hi]
        exact object_setObject _ _ _ _
      refine ⟨(next_close s i).ge, ?_, ?_⟩
      · intro j _ hj
        have hne : j ≠ i := by
          rintro rfl
          exact hi hj
        rw [hobject, if_neg hne]
        exact ⟨hj, rfl⟩
      · intro j _ hj hj'
        rw [hobject] at hj' ⊢
        split at hj'
        · rename_i heq
          rw [if_pos heq]
        · rw [hj] at hj'
          cases hj'
  | tick => exact silent_of_object (Nat.le_refl _) fun i _ => ⟨rfl, fun _ => rfl⟩
  | events events => exact silent_of_object (Nat.le_refl _) fun i _ => ⟨rfl, fun _ => rfl⟩
  | flag publishing => exact silent_of_object (Nat.le_refl _) fun i _ => ⟨rfl, fun _ => rfl⟩
  | put i event hi hroom =>
    refine silent_of_object (Nat.le_refl s.next) ?_
    intro j _
    refine ⟨(put_object s i event j).2.2.2.2, fun hj => ?_⟩
    have hne : j ≠ i := by
      rintro rfl
      rw [hi] at hj
      cases hj
    unfold ChatService.put
    rw [object_setObject, if_neg hne]

theorem Smalls.silent {s s' : ChatService τ μ} (h : Smalls c s s') : Silent s s' := by
  induction h with
  | refl => exact Silent.refl s
  | tail _ hsmall ih => exact ih.trans hsmall.silent

end ChatService

end SystemDesign.Chat
