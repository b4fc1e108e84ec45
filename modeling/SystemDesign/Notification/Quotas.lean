import SystemDesign.Notification.Admission

/-!
Quotas and the duplicate window bound what was enqueued, in every run in which no caller is
cancelled after the queue has accepted.

At most one send of a recipient is under way, so that between its check and its record nothing
else changes the recipient's windows.
-/

namespace SystemDesign.Notification

open List hiding not_le not_lt
open Function (update update_apply update_self)

variable {c : AdmissionSetup} {s s' : Service} {user : String} {scope : Option Channel} {config : RateLimitConfig}

/-! ### What the checks leave -/

/-- A window is as before, or pruned at a reading of the clock. -/
def Pruned (c : AdmissionSetup) (now : ℚ) (l l' : Limiter) : Prop :=
  ∀ user scope config, c.limit scope = some config → l'.window user scope = l.window user scope ∨
    l'.window user scope = pruneWindow (c.minus now config.windowSeconds) (l.window user scope)

variable {now : ℚ}

theorem Limiter.checkGlobal_spec {l l' : Limiter} {ok : Bool} (h : l.checkGlobal c user now = (ok, l')) :
    Pruned c now l l' ∧ (∀ user' channel, l'.channelWindows (user', channel) = l.channelWindows (user', channel)) ∧
      (ok = true → (l'.globalWindows user).length < c.globalLimit.maxCount) := by
  cases h
  refine ⟨fun user' scope config hconfig => ?_, fun _ _ => rfl, fun hok => ?_⟩
  · cases scope with
    | some channel => exact .inl rfl
    | none =>
      cases hconfig
      simp only [Limiter.window, update_apply]
      by_cases hsame : user' = user
      · subst hsame
        rw [if_pos rfl]
        exact .inr rfl
      · rw [if_neg hsame]
        exact .inl rfl
  · simp only [update_self]
    exact of_decide_eq_true hok

theorem Limiter.check_spec {channel : Channel} {l l' : Limiter} {ok : Bool}
    (h : l.check c user channel now = (ok, l')) :
    Pruned c now l l' ∧ (ok = true → ∀ scope config, c.limit scope = some config →
      (scope = none ∨ scope = some channel) → (l'.window user scope).length < config.maxCount) := by
  unfold Limiter.check at h
  cases hlimit : c.perChannelLimits channel with
  | none =>
    rw [hlimit] at h
    obtain ⟨hpruned, -, hroom⟩ := Limiter.checkGlobal_spec h
    refine ⟨hpruned, fun hok scope config hconfig hscope => ?_⟩
    obtain rfl | rfl := hscope
    · cases hconfig
      exact hroom hok
    · cases hlimit.symm.trans hconfig
  | some config =>
    rw [hlimit] at h
    set window := pruneWindow (c.minus now config.windowSeconds) (l.channelWindows (user, channel)) with hwindow
    set pruned : Limiter := { l with channelWindows := update l.channelWindows (user, channel) window } with hl
    have hchannel : Pruned c now l pruned := by
      intro user' scope config' hconfig
      cases scope with
      | none => exact .inl rfl
      | some channel' =>
        simp only [hl, Limiter.window, update_apply]
        by_cases hsame : (user', channel') = (user, channel)
        · cases hsame
          cases hlimit.symm.trans hconfig
          rw [if_pos rfl]
          exact .inr hwindow
        · rw [if_neg hsame]
          exact .inl rfl
    simp only at h
    by_cases hfull : config.maxCount ≤ window.length
    · rw [if_pos hfull] at h
      cases h
      exact ⟨hchannel, nofun⟩
    · rw [if_neg hfull] at h
      obtain ⟨hglobal, hchannels, hroom⟩ := Limiter.checkGlobal_spec h
      refine ⟨fun user' scope config' hconfig => ?_, fun hok scope config' hconfig hscope => ?_⟩
      · cases scope with
        | none => exact hglobal user' none config' hconfig
        | some channel' =>
          have hsame : l'.window user' (some channel') = pruned.window user' (some channel') := hchannels user' channel'
          rw [hsame]
          exact hchannel user' (some channel') config' hconfig
      · obtain rfl | rfl := hscope
        · cases hconfig
          exact hroom hok
        · cases hlimit.symm.trans hconfig
          have hsame : l'.window user (some channel) = pruned.window user (some channel) := hchannels user channel
          rw [hsame]
          simp only [hl, Limiter.window, update_self]
          exact not_le.mp hfull

theorem record_window (l : Limiter) (channel : Channel) (now : ℚ) (user' : String) (scope : Option Channel) :
    (l.record user channel now).window user' scope =
      if user = user' ∧ (scope = none ∨ scope = some channel) then l.window user' scope ++ [now] else l.window user' scope := by
  cases scope with
  | none =>
    simp only [Limiter.record, Limiter.window, update_apply, true_or, and_true]
    by_cases hsame : user' = user
    · subst hsame
      rw [if_pos rfl]
    · rw [if_neg hsame, if_neg (Ne.symm hsame)]
  | some channel' =>
    simp only [Limiter.record, Limiter.window, update_apply, reduceCtorEq, false_or, Option.some.injEq, Prod.mk.injEq]
    by_cases hsame : user' = user ∧ channel' = channel
    · obtain ⟨rfl, rfl⟩ := hsame
      rw [if_pos ⟨rfl, rfl⟩]
    · rw [if_neg hsame, if_neg fun h => hsame ⟨h.1.symm, h.2⟩]

theorem expireEntries_get? (now : ℚ) (entries : Entries) (key : String) :
    (expireEntries now entries).get? key = (entries.get? key).filter fun entry => now < entry.2 := by
  cases hfound : entries.get? key with
  | none =>
    refine Option.eq_none_iff_forall_ne_some.mpr fun entry hentry => ?_
    have hmem := mem_of_mem_filter (Dict.mem_entries.mpr hentry)
    rw [Dict.mem_entries.mp hmem] at hfound
    cases hfound
  | some entry =>
    by_cases hlive : now < entry.2
    · rw [Option.filter_some, if_pos (decide_eq_true hlive)]
      exact Dict.mem_entries.mp (mem_filter.mpr ⟨Dict.mem_entries.mpr hfound, decide_eq_true hlive⟩)
    · rw [Option.filter_some, if_neg (by rw [decide_eq_true_eq]; exact hlive)]
      refine Option.eq_none_iff_forall_ne_some.mpr fun entry' hentry => ?_
      obtain ⟨hmem, hlive'⟩ := mem_filter.mp (Dict.mem_entries.mpr hentry)
      rw [Dict.mem_entries.mp hmem] at hfound
      cases hfound
      exact hlive (of_decide_eq_true hlive')

/-- A check drops only entries that are over, and lets a key through when its own is over. -/
theorem checkEntry_spec {key : String} {now' : ℚ} {entries entries' : Entries} {found : Option String}
    (hnow : now ≤ now') (h : checkEntry key now now' entries = (found, entries')) :
    (∀ key', entries'.get? key' = entries.get? key' ∨
      (entries'.get? key' = none ∧ ∃ id expiry, entries.get? key' = some (id, expiry) ∧ expiry ≤ now')) ∧
    (found = none → ∀ id expiry, entries.get? key = some (id, expiry) → expiry ≤ now') := by
  have hexpired : ∀ key', (expireEntries now entries).get? key' = entries.get? key' ∨
      ((expireEntries now entries).get? key' = none ∧ ∃ id expiry, entries.get? key' = some (id, expiry) ∧ expiry ≤ now') := by
    intro key'
    rw [expireEntries_get?]
    cases hfound : entries.get? key' with
    | none => exact .inl rfl
    | some entry =>
      by_cases hlive : now < entry.2
      · rw [Option.filter_some, if_pos (decide_eq_true hlive)]
        exact .inl rfl
      · rw [Option.filter_some, if_neg (by rw [decide_eq_true_eq]; exact hlive)]
        exact .inr ⟨rfl, entry.1, entry.2, rfl, (not_lt.mp hlive).trans hnow⟩
  have hover : ∀ id expiry, (expireEntries now entries).get? key = none → entries.get? key = some (id, expiry) → expiry ≤ now' := by
    intro id expiry hnone hentry
    obtain hsame | ⟨-, id', expiry', hentry', hle⟩ := hexpired key
    · rw [hsame, hentry] at hnone
      cases hnone
    · cases hentry.symm.trans hentry'
      exact hle
  unfold checkEntry at h
  cases hget : (expireEntries now entries).get? key with
  | none =>
    simp only [hget] at h
    cases h
    exact ⟨hexpired, fun _ id expiry hentry => hover id expiry hget hentry⟩
  | some entry =>
    obtain ⟨id, expiry⟩ := entry
    simp only [hget] at h
    have hkept : entries.get? key = some (id, expiry) := by
      obtain hsame | ⟨hnone, -⟩ := hexpired key
      · rw [← hsame, hget]
      · rw [hget] at hnone
        cases hnone
    split at h
    · cases h
      exact ⟨hexpired, nofun⟩
    · rename_i hlate
      cases h
      refine ⟨fun key' => ?_, fun _ id' expiry' hentry => ?_⟩
      · rw [Dict.get?_erase]
        by_cases hsame : key' = key
        · subst hsame
          rw [if_pos rfl]
          exact .inr ⟨rfl, id, expiry, hkept, not_lt.mp hlate⟩
        · rw [if_neg hsame]
          exact hexpired key'
      · cases hkept.symm.trans hentry
        exact not_lt.mp hlate

theorem Service.check_spec {request : Request} {now₁ now₂ now₃ : ℚ} {ok : Bool} {limiter : Limiter} {entries : Entries}
    (hnow₃ : now₂ ≤ now₃) (h : s.check c request now₁ now₂ now₃ = (ok, limiter, entries)) :
    Pruned c now₁ s.limiter limiter ∧
    (∀ key, entries.get? key = s.entries.get? key ∨
      (entries.get? key = none ∧ ∃ id expiry, s.entries.get? key = some (id, expiry) ∧ expiry ≤ now₃)) ∧
    (ok = true → (∀ scope config, c.limit scope = some config → (scope = none ∨ scope = some request.channel) →
        (limiter.window request.recipientId scope).length < config.maxCount) ∧
      (request.eventId = none → ∀ id expiry,
        s.entries.get? (dedupKey request.recipientId request.channel request.title request.body) = some (id, expiry) →
          expiry ≤ now₃)) := by
  unfold Service.check at h
  generalize hcheck : s.limiter.check c request.recipientId request.channel now₁ = checked at h
  obtain ⟨room, limiter'⟩ := checked
  obtain ⟨hpruned, hroom⟩ := Limiter.check_spec hcheck
  cases room with
  | false =>
    cases h
    exact ⟨hpruned, fun _ => .inl rfl, nofun⟩
  | true =>
    cases hevent : request.eventId with
    | some event =>
      simp only [hevent] at h
      cases h
      exact ⟨hpruned, fun _ => .inl rfl, fun _ => ⟨hroom rfl, nofun⟩⟩
    | none =>
      simp only [hevent] at h
      generalize hentry : checkEntry (dedupKey request.recipientId request.channel request.title request.body) now₂ now₃ s.entries
        = checked at h
      obtain ⟨found, entries'⟩ := checked
      obtain ⟨hdropped, hover⟩ := checkEntry_spec hnow₃ hentry
      cases found with
      | some id =>
        cases h
        exact ⟨hpruned, hdropped, nofun⟩
      | none =>
        cases h
        exact ⟨hpruned, hdropped, fun _ => ⟨hroom rfl, fun _ => hover rfl⟩⟩

/-! ### The send of a user -/

/-- The send of a user that is under way. -/
def own (c : AdmissionSetup) (held : ℕ → Option Admission) (user : String) : Option Admission :=
  (held (c.stripe user)).filter fun a => a.request.recipientId = user

theorem own_update {held : ℕ → Option Admission} {recipient : String} {x : Option Admission}
    (hbefore : ∀ a, held (c.stripe recipient) = some a → a.request.recipientId = recipient)
    (hx : ∀ a, x = some a → a.request.recipientId = recipient) (user : String) :
    own c (update held (c.stripe recipient) x) user = if user = recipient then x else own c held user := by
  have hother : user ≠ recipient → ∀ y : Option Admission, (∀ a, y = some a → a.request.recipientId = recipient) →
      (y.filter fun a => a.request.recipientId = user) = none := by
    intro hne y hy
    refine Option.filter_eq_none_iff.mpr fun a ha => ?_
    rw [hy a ha, decide_eq_true_eq]
    exact Ne.symm hne
  by_cases hsame : user = recipient
  · subst hsame
    rw [if_pos rfl, own, update_self]
    cases x with
    | none => rfl
    | some a => rw [Option.filter_some, if_pos (decide_eq_true (hx a rfl))]
  · rw [if_neg hsame, own, update_apply]
    split
    · rename_i hstripe
      rw [hother hsame x hx, own, hstripe, hother hsame _ hbefore]
    · rfl

/-- What the send has enqueued and not recorded. -/
def unrecorded (scope : Option Channel) : Option Admission → List ℚ
  | some ⟨request, .accepted _ time⟩ => if scope = none ∨ scope = some request.channel then [time] else []
  | _ => []

/-- The send passed its checks and has not been enqueued. -/
def Passed (scope : Option Channel) : Option Admission → Prop
  | some ⟨request, .enqueuing _⟩ => scope = none ∨ scope = some request.channel
  | _ => False

structure Enforced (c : AdmissionSetup) (s : Service) : Prop where
  held : ∀ k a, s.held k = some a → c.stripe a.request.recipientId = k
  past : ∀ e ∈ s.enqueued, e.time ≤ s.clock
  waited : ∀ k request task time, s.held k = some ⟨request, .accepted task time⟩ → time ≤ s.clock
  quotas : ∀ user scope config, c.limit scope = some config →
    Limited (c.minus · config.windowSeconds) config.maxCount s.clock (s.times user scope)
      (unrecorded scope (own c s.held user)) (s.limiter.window user scope) (Passed scope (own c s.held user))
  apart : s.NoDuplicates c
  remembered : ∀ e ∈ s.enqueued, e.request.eventId = none → c.plus e.time c.dedupWindow ≤ s.clock ∨
    (∃ id expiry, s.entries.get? (dedupKey e.request.recipientId e.request.channel e.request.title e.request.body) =
      some (id, expiry) ∧ c.plus e.time c.dedupWindow ≤ expiry) ∨
    ∃ task, own c s.held e.request.recipientId = some ⟨e.request, .accepted task e.time⟩
  cleared : ∀ user request task, own c s.held user = some ⟨request, .enqueuing task⟩ →
    ∀ e ∈ s.enqueued, e.request.sameContent request → c.plus e.time c.dedupWindow ≤ s.clock

/-! ### What a step keeps -/

theorem times_append (e : Enqueued) (user : String) (scope : Option Channel) :
    ({ s with enqueued := s.enqueued ++ [e] } : Service).times user scope =
      s.times user scope ++ if e.request.inScope user scope then [e.time] else [] := by
  simp only [Service.times, filter_append, map_append, filter_cons, filter_nil]
  split <;> rfl

/-- A send goes on, or ends, with nothing enqueued or recorded. -/
theorem Enforced.move (h : Enforced c s) {recipient : String} (x : Option Admission) {t : ℚ} {limiter : Limiter}
    {entries : Entries} (hbefore : ∀ a, s.held (c.stripe recipient) = some a → a.request.recipientId = recipient)
    (hx : ∀ a, x = some a → a.request.recipientId = recipient)
    (hquiet : ∀ scope, unrecorded scope (own c s.held recipient) = [] ∧ unrecorded scope x = []) (ht : s.clock ≤ t)
    (hnow : t ≤ now) (hpruned : Pruned c t s.limiter limiter)
    (hentries : ∀ key, entries.get? key = s.entries.get? key ∨
      (entries.get? key = none ∧ ∃ id expiry, s.entries.get? key = some (id, expiry) ∧ expiry ≤ now))
    (hpassed : ∀ scope config, c.limit scope = some config → Passed scope x →
      (limiter.window recipient scope).length < config.maxCount)
    (hcleared : ∀ request task, x = some ⟨request, .enqueuing task⟩ →
      ∀ e ∈ s.enqueued, e.request.sameContent request → c.plus e.time c.dedupWindow ≤ now) (drawn : ℕ) :
    Enforced c { s with
      clock := now, limiter := limiter, entries := entries, drawn := drawn
      held := update s.held (c.stripe recipient) x } where
  held k a ha := by
    simp only [update_apply] at ha
    split at ha
    · rename_i hk
      rw [hk, hx a ha]
    · exact h.held k a ha
  past e he := (h.past e he).trans (ht.trans hnow)
  waited k request task time hk := by
    simp only [update_apply] at hk
    split at hk
    · have hnone := (hquiet none).2
      rw [hk] at hnone
      cases hnone
    · exact (h.waited k request task time hk).trans (ht.trans hnow)
  quotas user scope config hconfig := by
    have hwindow := hpruned user scope config hconfig
    have hlimited := h.quotas user scope config hconfig
    simp only [own_update hbefore hx]
    by_cases hsame : user = recipient
    · subst hsame
      rw [if_pos rfl, (hquiet scope).2, ← (hquiet scope).1]
      exact hlimited.keep (c.minus_mono _) (ht.trans hnow) (hwindow.imp_right fun hw => ⟨t, ht, hnow, hw⟩)
        fun hpass => .inr (hpassed scope config hconfig hpass)
    · rw [if_neg hsame]
      exact hlimited.keep (c.minus_mono _) (ht.trans hnow) (hwindow.imp_right fun hw => ⟨t, ht, hnow, hw⟩) .inl
  apart := h.apart
  remembered e he hevent := by
    obtain hover | ⟨id, expiry, hentry, hle⟩ | ⟨task, hown⟩ := h.remembered e he hevent
    · exact .inl (hover.trans (ht.trans hnow))
    · obtain hsame | ⟨-, id', expiry', hentry', hover⟩ := hentries (dedupKey _ _ _ _)
      · exact .inr (.inl ⟨id, expiry, hsame.trans hentry, hle⟩)
      · cases hentry.symm.trans hentry'
        exact .inl (hle.trans hover)
    · refine .inr (.inr ⟨task, ?_⟩)
      rw [own_update hbefore hx, if_neg, hown]
      intro hsame
      have hnone := (hquiet none).1
      rw [← hsame, hown] at hnone
      cases hnone
  cleared user request task hown e he hcontent := by
    rw [own_update hbefore hx] at hown
    split at hown
    · exact hcleared request task hown e he hcontent
    · exact (h.cleared user request task hown e he hcontent).trans (ht.trans hnow)

variable {request : Request} {stage : Stage}

theorem own_of_held (h : s.held (c.stripe request.recipientId) = some ⟨request, stage⟩) :
    own c s.held request.recipientId = some ⟨request, stage⟩ := by
  rw [own, h, Option.filter_some, if_pos (decide_eq_true rfl)]

theorem recipient_of_held (h : s.held (c.stripe request.recipientId) = some ⟨request, stage⟩) :
    ∀ a, s.held (c.stripe request.recipientId) = some a → a.request.recipientId = request.recipientId := by
  intro a ha
  cases h.symm.trans ha
  rfl

theorem Enforced.enqueue (h : Enforced c s) {task : Task} {db : Db} (hnow : s.clock ≤ now)
    (hheld : s.held (c.stripe request.recipientId) = some ⟨request, .enqueuing task⟩) :
    Enforced c { s with
      clock := now, db := db
      held := update s.held (c.stripe request.recipientId) (some ⟨request, .accepted task now⟩)
      enqueued := s.enqueued ++ [⟨request, now⟩] } := by
  have hbefore := recipient_of_held hheld
  have hx : ∀ a : Admission, some ⟨request, .accepted task now⟩ = some a → a.request.recipientId = request.recipientId := by
    rintro a ⟨⟩
    rfl
  have hown := own_of_held hheld
  refine ⟨fun k a ha => ?_, fun e he => ?_, fun k request' task' time hk => ?_, fun user scope config hconfig => ?_, ?_,
    fun e he hevent => ?_, fun user request' task' hown' e he hcontent => ?_⟩
  · simp only [update_apply] at ha
    split at ha
    · rename_i hk
      rw [hk, hx a ha]
    · exact h.held k a ha
  · obtain he | he := mem_append.mp he
    · exact (h.past e he).trans hnow
    · obtain rfl := mem_singleton.mp he
      exact le_rfl
  · simp only [update_apply] at hk
    split at hk
    · cases hk
      exact le_rfl
    · exact (h.waited k request' task' time hk).trans hnow
  · have hlimited := h.quotas user scope config hconfig
    simp only [own_update hbefore hx]
    have htimes := times_append (s := s) ⟨request, now⟩ user scope
    simp only [Service.times] at htimes hlimited ⊢
    rw [htimes]
    by_cases hsame : user = request.recipientId
    · subst hsame
      rw [if_pos rfl]
      rw [hown] at hlimited
      by_cases hscope : scope = none ∨ scope = some request.channel
      · have hin : request.inScope request.recipientId scope = true := decide_eq_true ⟨rfl, hscope⟩
        simp only [hin, if_true, unrecorded, if_pos hscope]
        exact hlimited.happen (c.minus_mono _) hnow hscope (fun hpass => hpass)
      · have hout : request.inScope request.recipientId scope = false := decide_eq_false fun hin => hscope hin.2
        simp only [hout, Bool.false_eq_true, if_false, append_nil, unrecorded, if_neg hscope]
        exact hlimited.keep (c.minus_mono _) hnow (.inl rfl) False.elim
    · have hout : request.inScope user scope = false := decide_eq_false fun hin => hsame hin.1.symm
      simp only [hout, Bool.false_eq_true, if_false, append_nil, if_neg hsame]
      exact hlimited.keep (c.minus_mono _) hnow (.inl rfl) .inl
  · refine pairwise_append.mpr ⟨h.apart, pairwise_singleton _ _, fun e he e' he' hcontent => ?_⟩
    obtain rfl := mem_singleton.mp he'
    exact (h.cleared _ request task hown e he hcontent).trans hnow
  · obtain he | he := mem_append.mp he
    · obtain hover | hentry | ⟨task', hown'⟩ := h.remembered e he hevent
      · exact .inl (hover.trans hnow)
      · exact .inr (.inl hentry)
      · refine .inr (.inr ⟨task', ?_⟩)
        rw [own_update hbefore hx, if_neg, hown']
        intro hsame
        rw [hsame, hown] at hown'
        cases hown'
    · obtain rfl := mem_singleton.mp he
      refine .inr (.inr ⟨task, ?_⟩)
      rw [own_update hbefore hx, if_pos rfl]
  · rw [own_update hbefore hx] at hown'
    split at hown'
    · cases hown'
    · rename_i hne
      obtain he | he := mem_append.mp he
      · exact (h.cleared user request' task' hown' e he hcontent).trans hnow
      · obtain rfl := mem_singleton.mp he
        have hrecipient : request'.recipientId = user := by
          obtain ⟨-, hkeep⟩ := Option.filter_eq_some_iff.mp hown'
          exact of_decide_eq_true hkeep
        exact absurd (hcontent.2.2.1.trans hrecipient).symm hne

theorem Enforced.record (h : Enforced c s) {request : Request} {task : Task} {time now₁ now₂ : ℚ} {id : String}
    (hheld : s.held (c.stripe request.recipientId) = some ⟨request, .accepted task time⟩) (hnow₁ : s.clock ≤ now₁) (hnow₂ : now₁ ≤ now₂) :
    Enforced c (s.record c request id now₁ now₂) := by
  have hbefore := recipient_of_held hheld
  have hx : ∀ a : Admission, none = some a → a.request.recipientId = request.recipientId := by
    intro a ha
    cases ha
  have hown := own_of_held hheld
  have hnow := hnow₁.trans hnow₂
  have htime := h.waited _ request task time hheld
  refine ⟨fun k a ha => ?_, fun e he => (h.past e he).trans hnow, fun k request' task' time' hk => ?_,
    fun user scope config hconfig => ?_, h.apart, fun e he hevent => ?_, fun user request' task' hown' e he hcontent => ?_⟩
  · simp only [Service.record, update_apply] at ha
    split at ha
    · cases ha
    · exact h.held k a ha
  · simp only [Service.record, update_apply] at hk
    split at hk
    · cases hk
    · exact (h.waited k request' task' time' hk).trans hnow
  · have hlimited := h.quotas user scope config hconfig
    simp only [Service.record, own_update hbefore hx, record_window, Service.times]
    simp only [Service.times] at hlimited
    by_cases hsame : user = request.recipientId
    · subst hsame
      rw [if_pos rfl]
      rw [hown] at hlimited
      by_cases hscope : scope = none ∨ scope = some request.channel
      · rw [if_pos ⟨rfl, hscope⟩]
        simp only [unrecorded, if_pos hscope] at hlimited ⊢
        exact hlimited.record (c.minus_mono _) (htime.trans hnow₁) hnow₁ hnow₂ (fun hpass => hpass)
      · rw [if_neg fun hin => hscope hin.2]
        simp only [unrecorded, if_neg hscope] at hlimited ⊢
        exact hlimited.keep (c.minus_mono _) hnow (.inl rfl) False.elim
    · rw [if_neg hsame, if_neg fun hin => hsame hin.1.symm]
      exact hlimited.keep (c.minus_mono _) hnow (.inl rfl) .inl
  · have hlater : c.plus e.time c.dedupWindow ≤ c.plus now₂ c.dedupWindow := c.plus_mono _ ((h.past e he).trans hnow)
    obtain hover | ⟨id', expiry, hfound, hle⟩ | ⟨task', hown'⟩ := h.remembered e he hevent
    · exact .inl (hover.trans hnow)
    · refine .inr (.inl ?_)
      cases hnone : request.eventId with
      | some event =>
        refine ⟨id', expiry, ?_, hle⟩
        simp only [Service.record, hnone]
        exact hfound
      | none =>
        simp only [Service.record, hnone, recordEntry, Dict.get?_set]
        split
        · exact ⟨id, _, rfl, hlater⟩
        · exact ⟨id', expiry, hfound, hle⟩
    · by_cases hsame : e.request.recipientId = request.recipientId
      · rw [hsame, hown] at hown'
        have hrequest : request = e.request := by
          cases hown'
          rfl
        refine .inr (.inl ⟨id, c.plus now₂ c.dedupWindow, ?_, hlater⟩)
        have hnone : request.eventId = none := hrequest ▸ hevent
        simp only [Service.record, hnone, recordEntry]
        rw [← hrequest, Dict.get?_set_self]
      · refine .inr (.inr ⟨task', ?_⟩)
        simp only [Service.record]
        rw [own_update hbefore hx, if_neg hsame, hown']
  · simp only [Service.record] at hown'
    rw [own_update hbefore hx] at hown'
    split at hown'
    · cases hown'
    · exact (h.cleared user request' task' hown' e he hcontent).trans hnow

theorem Pruned.refl (now : ℚ) (l : Limiter) : Pruned c now l l := fun _ _ _ _ => .inl rfl

theorem Enforced.leave (h : Enforced c s) (hnow : s.clock ≤ now)
    (hheld : s.held (c.stripe request.recipientId) = some ⟨request, stage⟩)
    (hquiet : ∀ scope, unrecorded scope (some ⟨request, stage⟩) = []) :
    Enforced c (s.leave c request.recipientId now) := by
  refine h.move none (recipient_of_held hheld) ?_ (fun scope => ⟨?_, rfl⟩) le_rfl hnow (.refl _ _) (fun _ => .inl rfl)
    (fun _ _ _ hpass => False.elim hpass) ?_ s.drawn
  · intro a ha
    cases ha
  · rw [own_of_held hheld]
    exact hquiet scope
  · intro request' task hnone
    cases hnone

theorem Enforced.step (h : Enforced c s) (hstep : Sends c s false s') : Enforced c s' := by
  cases hstep with
  | start request now hnow hfree =>
    have hnone : ∀ a, s.held (c.stripe request.recipientId) = some a → a.request.recipientId = request.recipientId := by
      intro a ha
      rw [hfree] at ha
      cases ha
    refine h.move (some ⟨request, .looking⟩) hnone ?_ (fun scope => ⟨?_, rfl⟩) le_rfl hnow (.refl _ _) (fun _ => .inl rfl)
      (fun _ _ _ hpass => False.elim hpass) ?_ s.drawn
    · rintro a ⟨⟩
      rfl
    · rw [own, hfree]
      rfl
    · intro request' task hlooking
      cases hlooking
  | refuse request hheld now hnow => exact h.leave hnow hheld fun _ => rfl
  | check request hheld title body endpoints createdAt scheduledAt now₁ now₂ now₃ hnow₁ hnow₂ hnow₃ hcheck =>
    rename_i ok limiter entries
    obtain ⟨hpruned, hentries, hpassed⟩ := Service.check_spec hnow₃ hcheck
    have hown := own_of_held hheld
    cases ok with
    | false =>
      refine h.move none (recipient_of_held hheld) ?_ (fun scope => ⟨by rw [hown]; rfl, rfl⟩) hnow₁ (hnow₂.trans hnow₃) hpruned
        hentries (fun _ _ _ hpass => False.elim hpass) ?_ (s.drawn + 1)
      · intro a ha
        cases ha
      · intro request' task hnone
        cases hnone
    | true =>
      obtain ⟨hroom, hover⟩ := hpassed rfl
      let resolved := { request with title := title, body := body }
      refine h.move (some ⟨resolved, .enqueuing (resolved.task (c.uuid s.drawn) createdAt scheduledAt endpoints)⟩)
        (recipient_of_held hheld) ?_ (fun scope => ⟨by rw [hown]; rfl, rfl⟩) hnow₁ (hnow₂.trans hnow₃) hpruned hentries hroom ?_ (s.drawn + 1)
      · rintro a ⟨⟩
        rfl
      · rintro request' task ⟨⟩ e he ⟨hevent, hevent', hrecipient, hchannel, htitle, hbody⟩
        have hnow := hnow₁.trans (hnow₂.trans hnow₃)
        obtain hpast | ⟨id, expiry, hentry, hle⟩ | ⟨task', hown'⟩ := h.remembered e he hevent
        · exact hpast.trans hnow
        · rw [hrecipient, hchannel, htitle, hbody] at hentry
          exact hle.trans (hover hevent' id expiry hentry)
        · have hrecipient : e.request.recipientId = request.recipientId := hrecipient
          rw [hrecipient, hown] at hown'
          cases hown'
  | enqueue request task hheld now wall hnow henqueue => exact h.enqueue hnow hheld
  | fail request task hheld now hnow => exact h.leave hnow hheld fun _ => rfl
  | record request task time hheld now₁ now₂ hnow₁ hnow₂ => exact h.record hheld hnow₁ hnow₂
  | work db => exact ⟨h.held, h.past, h.waited, h.quotas, h.apart, h.remembered, h.cleared⟩

theorem Enforced.start : Enforced c .start where
  held _ _ h := by cases h
  past _ h := by cases h
  waited _ _ _ _ h := by cases h
  quotas user scope config hconfig := by
    have hwindow : Service.start.limiter.window user scope = [] := by cases scope <;> rfl
    rw [hwindow]
    exact .empty
  apart := List.Pairwise.nil
  remembered _ h := by cases h
  cleared _ _ _ h := by cases h

theorem patient_enforced (h : (patientAdmission c).Reachable s) : Enforced c s :=
  h.invariant (fun _ hstart => hstart ▸ .start) fun _ _ _ henforced hstep => henforced.step hstep

/-! ### Sends that enqueue nothing -/

theorem Lapsed.leave (recipient : String) (now : ℚ) : Lapsed c s (s.leave c recipient now) :=
  ⟨fun _ _ _ _ => ⟨[], rfl, nofun⟩, fun _ => .inl rfl⟩

/-- Only a send whose notification was enqueued records anything. -/
theorem Sends.lapsed {cancelled : Bool} (h : Sends c s cancelled s') : Lapsed c s s' ∨
    ∃ request task time, s.held (c.stripe request.recipientId) = some ⟨request, .accepted task time⟩ ∧
      s'.held (c.stripe request.recipientId) = none := by
  cases h with
  | start | enqueue | work => exact .inl ⟨fun _ _ _ _ => ⟨[], rfl, nofun⟩, fun _ => .inl rfl⟩
  | refuse | fail | cancel => exact .inl (.leave _ _)
  | record request task time hheld now₁ now₂ hnow₁ hnow₂ =>
    exact .inr ⟨request, task, time, hheld, update_self _ _ _⟩
  | check request hheld title body endpoints createdAt scheduledAt now₁ now₂ now₃ hnow₁ hnow₂ hnow₃ hcheck =>
    obtain ⟨hpruned, hentries, -⟩ := Service.check_spec hnow₃ hcheck
    refine .inl ⟨fun user scope config hconfig => ?_, hentries⟩
    obtain hsame | hprune := hpruned user scope config hconfig
    · exact ⟨[], hsame.symm, nofun⟩
    · obtain ⟨dropped, hdropped, hold⟩ := pruneWindow_suffix (c.minus now₁ config.windowSeconds) (s.limiter.window user scope)
      rw [← hprune] at hdropped
      exact ⟨dropped, hdropped, fun x hx => (hold x hx).trans (c.minus_mono _ (hnow₂.trans hnow₃))⟩

/-! ### Admission over whole runs -/

/-- As long as no caller is cancelled between the commit of its notification and its record, what was
enqueued keeps to every quota and to the duplicate window, and a send that enqueues nothing records nothing. -/
theorem admission_enforced (h : (patientAdmission c).Reachable s) :
    s.WithinQuota c ∧ s.NoDuplicates c ∧ ∀ cancelled s', Sends c s cancelled s' → Lapsed c s s' ∨
      ∃ request task time, s.held (c.stripe request.recipientId) = some ⟨request, .accepted task time⟩ ∧
        s'.held (c.stripe request.recipientId) = none := by
  have henforced := patient_enforced h
  refine ⟨fun user scope config hconfig t => ?_, henforced.apart, fun _ _ hstep => hstep.lapsed⟩
  exact (henforced.quotas user scope config hconfig).spaced.count (c.minus_mono _) config.maxCount_pos t

theorem desk_depth : 0 < 10 := by decide

theorem desk_lease : (0 : ℚ) < 30 := by norm_num

theorem desk_minus (c a b : ℚ) (h : a ≤ b) : a - c ≤ b - c := sub_le_sub_right h c

def desk : AdmissionSetup where
  perChannelLimits _ := some ⟨1, 3600, Nat.one_pos, by norm_num⟩
  globalLimit := ⟨100, 3600, by decide, by norm_num⟩
  dedupWindow := 300
  queue := ⟨10, 30, desk_depth, desk_lease⟩
  plus a b := a + b
  minus a b := a - b
  plus_mono _ _ _ h := by simpa using h
  minus_mono := desk_minus
  uuid n := String.ofList (List.replicate n 'a')
  stripe _ := 0

def deskRequest (body : String) : Request := ⟨"bob", .email, "", body, none, .empty, .empty, some body⟩

/-- Its caller is cancelled after the commit. -/
theorem desk_cancelled : ∃ s, (admission desk).Reachable s ∧ s.times "bob" (some .email) = [0, 0] := by
  have h0 : (admission desk).Reachable .start := .start rfl
  have h1 := h0.step ⟨false, .start (deskRequest "a") 0 le_rfl rfl⟩
  have h2 := h1.step ⟨false, .check (deskRequest "a") rfl "" "a" ["bob@local.test"] 0 none 0 0 0 le_rfl le_rfl le_rfl rfl⟩
  have h3 := h2.step ⟨false, .enqueue (deskRequest "a") _ rfl 0 0 le_rfl rfl⟩
  have h4 := h3.step ⟨true, .cancel (deskRequest "a") _ _ rfl 0 le_rfl⟩
  have h5 := h4.step ⟨false, .start (deskRequest "b") 0 le_rfl rfl⟩
  have h6 := h5.step ⟨false, .check (deskRequest "b") rfl "" "b" ["bob@local.test"] 0 none 0 0 0 le_rfl le_rfl le_rfl rfl⟩
  have h7 := h6.step ⟨false, .enqueue (deskRequest "b") _ rfl 0 0 le_rfl rfl⟩
  exact ⟨_, h7, rfl⟩

theorem quota_exceeded : ∃ s, (admission desk).Reachable s ∧ ¬ s.WithinQuota desk := by
  obtain ⟨s, hreachable, htimes⟩ := desk_cancelled
  refine ⟨s, hreachable, fun hquota => ?_⟩
  have hcount := hquota "bob" (some .email) _ rfl 0
  rw [htimes] at hcount
  norm_num [desk] at hcount

theorem desk_recorded : ∃ s, (patientAdmission desk).Reachable s ∧ s.times "bob" (some .email) = [0] ∧
    s.limiter.window "bob" (some .email) = [0] := by
  have h0 : (patientAdmission desk).Reachable .start := .start rfl
  have h1 := h0.step (.start (deskRequest "a") 0 le_rfl rfl)
  have h2 := h1.step (.check (deskRequest "a") rfl "" "a" ["bob@local.test"] 0 none 0 0 0 le_rfl le_rfl le_rfl rfl)
  have h3 := h2.step (.enqueue (deskRequest "a") _ rfl 0 0 le_rfl rfl)
  have h4 := h3.step (.record (deskRequest "a") _ _ rfl 0 0 le_rfl le_rfl)
  exact ⟨_, h4, rfl, rfl⟩

theorem admission_enforced_desk : ∃ s, (patientAdmission desk).Reachable s ∧ s.times "bob" (some .email) = [0] ∧
    s.WithinQuota desk ∧ s.NoDuplicates desk := by
  obtain ⟨s, hreachable, htimes, -⟩ := desk_recorded
  have henforced := admission_enforced hreachable
  exact ⟨s, hreachable, htimes, henforced.1, henforced.2.1⟩

end SystemDesign.Notification
