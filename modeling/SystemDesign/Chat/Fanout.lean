import SystemDesign.Chat.Registry

/-!
The presence fan-out ends with an empty worklist, and every call keeps the registry.

Each round of the loop takes an event off the worklist, and puts another on only after it
closed a session; the sum of both counts bounds the rounds (`drain_empties`).
-/

namespace SystemDesign.Chat

open List

theorem countP_drop {l : List ℕ} {p q : ℕ → Bool} (h : ∀ x, q x = true → p x = true) {a : ℕ}
    (ha : a ∈ l) (hp : p a = true) (hq : q a = false) : l.countP q + 1 ≤ l.countP p := by
  induction l with
  | nil => cases ha
  | cons x l ih =>
    rw [countP_cons, countP_cons]
    obtain rfl | ha := mem_cons.mp ha
    · have hle : l.countP q ≤ l.countP p := countP_mono_left fun y _ => h y
      simp only [hp, hq, if_true, Bool.false_eq_true, if_false]
      omega
    · have hrest := ih ha
      by_cases hx : q x = true
      · simp only [hx, h x hx, if_true]
        omega
      · rw [if_neg hx]
        omega

namespace ChatService

variable {τ μ : Type} [LinearOrder τ] [Sub τ] {c : Setup τ}

/-! ### Closing many sessions -/

omit [LinearOrder τ] [Sub τ] in
theorem close_rest (s : ChatService τ μ) (i : SessionId) : (s.close i).auth = s.auth ∧ (s.close i).next = s.next ∧
      (s.close i).presenceEvents = s.presenceEvents ∧ (s.close i).publishing = s.publishing ∧
      (s.close i).reading = s.reading := by
  unfold close
  split
  · exact ⟨rfl, rfl, rfl, rfl, rfl⟩
  · exact ⟨rfl, rfl, rfl, rfl, rfl⟩

def closeAll (ids : List SessionId) (s : ChatService τ μ) : ChatService τ μ := ids.foldl (fun s i => s.close i) s

omit [LinearOrder τ] [Sub τ] in
theorem closeAll_rest (s : ChatService τ μ) (ids : List SessionId) :
    (s.closeAll ids).auth = s.auth ∧ (s.closeAll ids).next = s.next ∧
      (s.closeAll ids).presenceEvents = s.presenceEvents ∧
      (s.closeAll ids).publishing = s.publishing ∧ (s.closeAll ids).reading = s.reading := by
  unfold closeAll
  induction ids generalizing s with
  | nil => exact ⟨rfl, rfl, rfl, rfl, rfl⟩
  | cons i ids ih =>
    obtain ⟨hauth, hnext, hevents, hpublishing, hreading⟩ := ih (s.close i)
    obtain ⟨hauth', hnext', hevents', hpublishing', hreading'⟩ := close_rest s i
    exact ⟨hauth.trans hauth', hnext.trans hnext', hevents.trans hevents',
      hpublishing.trans hpublishing', hreading.trans hreading'⟩

theorem stale_close (now : τ) (user : String) (s : ChatService τ μ) (j i : SessionId) :
    (s.close j).stale c now user i = s.stale c now user i := by
  obtain ⟨-, -, htoken, hheartbeat, -, -⟩ := close_object s j i
  unfold stale lapsed
  rw [htoken, hheartbeat, (close_rest s j).1]

/-- The stale sessions of the list are closed. -/
theorem expireAll_eq (now : τ) (user : String) (ids : List SessionId) (s : ChatService τ μ) :
    expireAll c now user ids s = (s.closeAll (ids.filter (s.stale c now user)), ids.any (s.stale c now user)) := by
  suffices hfold : ∀ (s' : ChatService τ μ) (b : Bool), (∀ i, s'.stale c now user i = s.stale c now user i) →
      ids.foldl (fun acc i => if acc.1.stale c now user i then (acc.1.close i, true) else acc) (s', b) =
        (s'.closeAll (ids.filter (s.stale c now user)), b || ids.any (s.stale c now user)) by
    have hall := hfold s false fun _ => rfl
    rw [Bool.false_or] at hall
    exact hall
  intro s' b hs'
  induction ids generalizing s' b with
  | nil => simp [closeAll]
  | cons i ids ih =>
    rw [foldl_cons, hs' i]
    by_cases hi : s.stale c now user i = true
    · rw [if_pos hi, ih (s'.close i) true fun j => (stale_close now user s' i j).trans (hs' j)]
      simp [closeAll, hi]
    · rw [if_neg hi, ih s' b hs']
      simp [hi]

theorem closeAll_smalls (s : ChatService τ μ) (ids : List SessionId) : Smalls c s (s.closeAll ids) := by
  unfold closeAll
  induction ids generalizing s with
  | nil => exact .refl
  | cons i ids ih => exact .head (.close s i) (ih _)

/-! ### Calls as small changes -/

variable (c) in
/-- What publishes makes small changes only. -/
def Publishes (publish : String → Bool → ChatService τ μ → ChatService τ μ) : Prop :=
  ∀ user online s, Smalls c s (publish user online s)

theorem announce_publishes : Publishes c (announce (τ := τ) (μ := μ)) := fun _ _ s => .single (.events s _)

variable {publish : String → Bool → ChatService τ μ → ChatService τ μ}

theorem announceGone_smalls (hp : Publishes c publish) (user : String) (s : ChatService τ μ) :
    Smalls c s (s.announceGone c publish user) := by
  unfold announceGone
  split
  · exact .single (.tick s)
  · exact .head (.tick s) (hp _ _ _)

theorem expireUser_smalls (hp : Publishes c publish) (user : String) (s : ChatService τ μ) :
    Smalls c s (s.expireUser c publish user) := by
  unfold expireUser
  rw [expireAll_eq]
  have hclose := closeAll_smalls (c := c) s.tick ((c.order (members s.userSessions user)).filter
    (s.tick.stale c (c.clock s.reading) user))
  dsimp only
  split
  · exact .head (.tick s) (hclose.trans (announceGone_smalls hp user _))
  · exact .head (.tick s) hclose

theorem disconnect_smalls (hp : Publishes c publish) (i : SessionId) (s : ChatService τ μ) :
    Smalls c s (s.disconnect c publish i) := by
  unfold disconnect
  split
  · exact .head (.close s i) (announceGone_smalls hp _ _)
  · exact .refl

theorem enqueue_smalls (hp : Publishes c publish) (i : SessionId) (event : LiveEvent μ) (s : ChatService τ μ) :
    Smalls c s (s.enqueue c publish i event) := by
  unfold enqueue
  split
  · exact .refl
  · rename_i hclosed
    split
    · rename_i hroom
      exact .single (.put s i event (Bool.not_eq_true _ ▸ hclosed) hroom)
    · exact disconnect_smalls hp i s

theorem tell_smalls (target : String) (state : Bool) (s : ChatService τ μ) (i : SessionId) :
    Smalls c s (s.tell c target state i) :=
  (expireUser_smalls announce_publishes _ s).trans (enqueue_smalls announce_publishes _ _ _)

theorem foldl_tell_smalls (target : String) (state : Bool) (ids : List SessionId) (s : ChatService τ μ) :
    Smalls c s (ids.foldl (tell c target state) s) := by
  induction ids generalizing s with
  | nil => exact .refl
  | cons i ids ih => exact (tell_smalls target state s i).trans (ih _)

theorem drain_smalls (fuel : ℕ) (s : ChatService τ μ) : Smalls c s (drain c fuel s) := by
  induction fuel generalizing s with
  | zero => exact .refl
  | succ fuel ih =>
    unfold drain
    split
    · exact .refl
    · exact .head (.events s _) ((foldl_tell_smalls _ _ _ _).trans (ih _))

theorem publishPresence_smalls (user : String) (online : Bool) (s : ChatService τ μ) :
    Smalls c s (s.publishPresence c user online) := by
  unfold publishPresence
  have hannounce : Small c s (s.announce user online) := .events s _
  dsimp only
  split
  · exact .single hannounce
  · exact .head hannounce (.head (.flag _ true) ((drain_smalls _ _).tail (.flag _ false)))

/-! ### The loop ends -/

/-- Bounds the rounds of the loop. -/
def rounds (s : ChatService τ μ) : ℕ := s.presenceEvents.length + s.openCount

variable {s : ChatService τ μ}

section
omit [LinearOrder τ] [Sub τ]

theorem openCount_congr {s' : ChatService τ μ} (hnext : s'.next = s.next)
    (h : ∀ i, (s'.object i).closed = true ∨ (s'.object i).closed = (s.object i).closed) :
    s'.openCount ≤ s.openCount := by
  unfold openCount
  rw [hnext]
  apply countP_mono_left
  intro i _ hi
  obtain hclosed | hsame := h i
  · rw [hclosed] at hi
    cases hi
  · rw [← hsame]
    exact hi

theorem close_closed (s : ChatService τ μ) (i j : SessionId) :
    ((s.close i).object j).closed = true ∨ ((s.close i).object j).closed = (s.object j).closed := by
  unfold close
  split
  · exact .inr rfl
  · dsimp only
    rw [object_setObject]
    split
    · exact .inl rfl
    · exact .inr rfl

theorem openCount_closeAll_le (s : ChatService τ μ) (ids : List SessionId) :
    (s.closeAll ids).openCount ≤ s.openCount := by
  unfold closeAll
  induction ids generalizing s with
  | nil => exact Nat.le_refl _
  | cons i ids ih => exact (ih _).trans (openCount_congr (close_rest s i).2.1 (close_closed s i))

end

theorem Registry.openCount_close (h : Registry c s) {i : SessionId} (hi : s.sessions.get? (s.key i) = some i) :
    (s.close i).openCount + 1 ≤ s.openCount := by
  obtain ⟨hlt, hopen, -⟩ := h.registered hi
  have hc := h.closed hopen
  unfold openCount
  rw [(close_rest s i).2.1]
  apply countP_drop (a := i)
  · intro j hj
    obtain hclosed | hsame := close_closed s i j
    · rw [hclosed] at hj
      cases hj
    · rw [← hsame]
      exact hj
  · exact mem_range.mpr hlt
  · rw [hopen]
    rfl
  · rw [hc.object, if_pos rfl]
    rfl

theorem announceGone_rounds (user : String) (s : ChatService τ μ) :
    (s.announceGone c announce user).rounds ≤ s.rounds + 1 := by
  unfold announceGone
  split
  · exact Nat.le_succ _
  · have hlength : (s.tick.announce user false).presenceEvents.length = s.presenceEvents.length + 1 := length_append
    unfold rounds
    rw [hlength]
    change s.presenceEvents.length + 1 + s.openCount ≤ _
    omega

/-- Expiry announces at most once, and only when it closed a session. -/
theorem Registry.expireUser_rounds (h : Registry c s) (user : String) :
    (s.expireUser c announce user).rounds ≤ s.rounds := by
  unfold expireUser
  rw [expireAll_eq]
  have hevents := (closeAll_rest s.tick ((c.order (members s.userSessions user)).filter
    (s.tick.stale c (c.clock s.reading) user))).2.2.1
  dsimp only
  split
  · rename_i hany
    obtain ⟨i, hi, hstale⟩ := any_eq_true.mp hany
    have hmem := mem_filter.mpr ⟨hi, hstale⟩
    generalize (c.order (members s.userSessions user)).filter
      (s.tick.stale c (c.clock s.reading) user) = ids at hmem hevents ⊢
    have hids : (s.tick.closeAll ids).openCount + 1 ≤ s.tick.openCount := by
      have hreg : s.sessions.get? (s.key i) = some i := ((h.byUser user i).mp ((c.order_perm _).mem_iff.mp hi)).2
      clear hany hstale hi hevents
      have htick := h.small (.tick s)
      have hreg' : s.tick.sessions.get? (s.tick.key i) = some i := hreg
      generalize s.tick = t at htick hreg'
      -- sessions before `i` only lower the count; `i` lowers it by one
      induction ids generalizing t with
      | nil => cases hmem
      | cons j ids ih =>
        by_cases hij : i = j
        · subst hij
          exact (Nat.succ_le_succ (openCount_closeAll_le (t.close i) ids)).trans (htick.openCount_close hreg')
        · have hmem' : i ∈ ids := (mem_cons.mp hmem).resolve_left hij
          by_cases hj : (t.object j).closed = true
          · have hsame : t.close j = t := close_of_closed hj
            unfold closeAll
            rw [foldl_cons, hsame]
            exact ih hmem' t htick hreg'
          · have hopen : (t.object j).closed = false := Bool.not_eq_true _ ▸ hj
            have hkey : t.key i ≠ t.key j := by
              intro heq
              have hj' := htick.unclosed j hopen
              rw [← heq, hreg'] at hj'
              exact hij (Option.some.inj hj')
            have hreg'' : (t.close j).sessions.get? ((t.close j).key i) = some i := by
              rw [key_close, (htick.closed hopen).sessions, if_neg hkey]
              exact hreg'
            exact (ih hmem' _ (htick.close j) hreg'').trans (openCount_congr (close_rest t j).2.1 (close_closed t j))
    have hgone := announceGone_rounds (c := c) user (s.tick.closeAll ids)
    have hcount : s.tick.openCount = s.openCount := rfl
    unfold rounds at hgone ⊢
    rw [hevents] at hgone
    change _ ≤ s.tick.presenceEvents.length + _
    omega
  · unfold rounds
    rw [hevents]
    have hle := openCount_closeAll_le s.tick ((c.order (members s.userSessions user)).filter
      (s.tick.stale c (c.clock s.reading) user))
    have hcount : s.tick.openCount = s.openCount := rfl
    change s.presenceEvents.length + _ ≤ _
    omega

theorem Registry.disconnect_rounds (h : Registry c s) (i : SessionId) :
    (s.disconnect c announce i).rounds ≤ s.rounds := by
  unfold disconnect
  split
  · rename_i hi
    have hcount := h.openCount_close hi
    have hgone := announceGone_rounds (c := c) (s.object i).userId (s.close i)
    have hevents := (close_rest s i).2.2.1
    unfold rounds at hgone ⊢
    rw [hevents] at hgone
    omega
  · exact Nat.le_refl _

omit [LinearOrder τ] [Sub τ] in
theorem put_rounds (s : ChatService τ μ) (i : SessionId) (event : LiveEvent μ) : (s.put i event).rounds ≤ s.rounds := by
  have hcount : (s.put i event).openCount ≤ s.openCount :=
    openCount_congr rfl fun j => .inr (put_object s i event j).2.2.2.2
  exact Nat.add_le_add_left hcount s.presenceEvents.length

theorem Registry.enqueue_rounds (h : Registry c s) (i : SessionId) (event : LiveEvent μ) :
    (s.enqueue c announce i event).rounds ≤ s.rounds := by
  unfold enqueue
  split
  · exact Nat.le_refl _
  · split
    · exact put_rounds s i event
    · exact h.disconnect_rounds i

theorem Registry.foldl_tell_rounds (h : Registry c s) (target : String) (state : Bool) (ids : List SessionId) :
    (ids.foldl (tell c target state) s).rounds ≤ s.rounds := by
  induction ids generalizing s with
  | nil => exact Nat.le_refl _
  | cons i ids ih =>
    have hexpired := h.smalls (expireUser_smalls announce_publishes (s.object i).userId s)
    have htold := h.smalls (tell_smalls target state s i)
    exact (ih htold).trans ((hexpired.enqueue_rounds i _).trans (h.expireUser_rounds _))

/-- The loop ends, for no other reason than that the worklist is empty. -/
theorem Registry.drain_empties (h : Registry c s) {fuel : ℕ} (hfuel : s.rounds ≤ fuel) :
    (drain c fuel s).presenceEvents = [] := by
  induction fuel generalizing s with
  | zero =>
    unfold rounds at hfuel
    change s.presenceEvents = []
    exact length_eq_zero_iff.mp (by omega)
  | succ fuel ih =>
    unfold drain
    split
    · assumption
    · rename_i target state rest hevents
      have hrest := h.small (.events s rest)
      apply ih (hrest.smalls (foldl_tell_smalls target state _ _))
      have htold := hrest.foldl_tell_rounds target state (c.order (members s.watchers target))
      have hpopped : ({ s with presenceEvents := rest } : ChatService τ μ).rounds + 1 = s.rounds := by
        unfold rounds
        rw [hevents, length_cons]
        change rest.length + s.openCount + 1 = _
        omega
      change ((c.order (members s.watchers target)).foldl (tell c target state)
        { s with presenceEvents := rest }).rounds ≤ fuel
      omega

end ChatService

end SystemDesign.Chat
