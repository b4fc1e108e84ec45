import SystemDesign.Wallet.Coordinator

/-!
What every run of the wallet keeps.

`Inv` ties the shards' participants and the requests in flight to the committed
decisions: nothing is confirmed without a committed COMMIT, nothing canceled
without a committed CANCEL, a COMMIT is only ever logged while both
participants are prepared, and a destination is confirmed after its source.
The money on the shards and in transit is the opening supply.
-/

namespace SystemDesign.Wallet

open List
open Dict hiding keys

/-! ### The projection, event by event -/

variable {state : Commands} {event : Event}

/-- What an event does to the commands: it adds a new one or moves a pending one on. -/
theorem projectEvent_spec {state' : Commands} (h : projectEvent state event = .ok state') :
    ∃ value', state' = state.set event.id value' ∧
      ((state.get? event.id = none ∧ event = .accepted event.id value'.intent ∧
        value' = ⟨value'.intent, none, .pending⟩ ∧ value'.intent.transactionId = event.id) ∨
      ∃ value, state.get? event.id = some value ∧ value.status = .pending ∧
        ((∃ d, event = .decision event.id d ∧ value.decision = none ∧ value' = { value with decision := some d }) ∨
        ∃ status, event = .completed event.id status ∧ contradicts value.decision status = false ∧
          status ≠ .pending ∧ value' = { value with status := status })) := by
  unfold projectEvent at h
  split_ifs at h with hid
  cases event with
  | accepted id body =>
    simp only at h
    split_ifs at h with hsame hnew
    obtain rfl := Except.ok.inj h
    refine ⟨_, rfl, .inl ⟨?_, rfl, rfl, not_not.mp hsame⟩⟩
    exact contains_eq_false_iff.mp (Bool.eq_false_iff.mpr hnew)
  | decision id d =>
    simp only at h
    split at h
    · cases h
    · next value hget =>
        split_ifs at h with hpending hnone
        obtain rfl := Except.ok.inj h
        exact ⟨_, rfl, .inr ⟨value, hget, not_not.mp hpending, .inl ⟨d, rfl, not_not.mp hnone, rfl⟩⟩⟩
  | completed id status =>
    simp only at h
    split at h
    · cases h
    · next value hget =>
        split_ifs at h with hcontradicts hpending
        obtain rfl := Except.ok.inj h
        rw [not_or, not_not] at hpending
        exact ⟨_, rfl, .inr ⟨value, hget, hpending.1,
          .inr ⟨status, rfl, by simpa using hcontradicts, hpending.2, rfl⟩⟩⟩

theorem project_append {events : List Event} : project (events ++ [event]) .empty = .ok state ↔
      ∃ before, project events .empty = .ok before ∧ projectEvent before event = .ok state := by
  rw [project, foldlM_append]
  simp only [foldlM_cons, foldlM_nil, bind_pure, Py.bind_eq_ok, project]

/-- Every command is filed under its own id. -/
def Filed (commands : Commands) : Prop := ∀ id value, commands.get? id = some value → value.intent.transactionId = id

theorem Filed.projectEvent {state' : Commands} (h : Filed state) (hp : projectEvent state event = .ok state') :
    Filed state' := by
  obtain ⟨value', rfl, hcase⟩ := projectEvent_spec hp
  intro id value hget
  rw [get?_set] at hget
  split_ifs at hget with hid
  · obtain rfl := Option.some.inj hget
    subst hid
    rcases hcase with ⟨-, -, -, hfiled⟩ | ⟨old, hold, -, ⟨d, -, -, rfl⟩ | ⟨status, -, -, -, rfl⟩⟩
    · exact hfiled
    · exact h _ old hold
    · exact h _ old hold
  · exact h id value hget

/-! ### The participants -/

/-- The participants of the shards, as a map. -/
abbrev Parts := ℕ → String → Option Part

def statusAt (parts : Parts) (index : ℕ) (id : String) : Option Status := (parts index id).map Part.status

variable (config : Config)

/-- Where a role of a transfer lives. -/
def Placed (index : ℕ) (body : Intent) (role : Role) : Prop :=
  index = config.place body role ∧ (role = .localRole ↔ ¬ config.crossShard body)

/-- A participant and the committed command it belongs to. -/
structure PartOk (known : Commands) (parts : Parts) (index : ℕ) (id : String) (p : Part) : Prop where
  command : ∃ value, known.get? id = some value ∧ value.intent = p.intent ∧
    (p.role ≠ .localRole → p.status = .confirmed → value.decision = some .commit) ∧
    (p.status = .canceled → value.decision = some .cancel)
  placed : Placed config index p.intent p.role
  isLocal : p.role = .localRole → p.status = .confirmed ∨ p.status = .rejected
  ordered : p.role = .destination → p.status = .confirmed →
    statusAt parts (config.indices p.intent).1 id = some .confirmed

/-- A request that was sent and the committed command behind it. -/
structure RequestOk (known : Commands) (parts : Parts) (r : Request) : Prop where
  command : ∃ value, known.get? r.body.transactionId = some value ∧ value.intent = r.body ∧
    (r.kind = .confirm → value.decision = some .commit) ∧
    (r.kind = .cancel → value.decision = some .cancel)
  placed : Placed config r.index r.body r.role
  ordered : r.kind = .confirm → r.role = .destination →
    statusAt parts (config.indices r.body).1 r.body.transactionId = some .confirmed

/-- Prepared or already confirmed. -/
def IsLive (status : Option Status) : Prop := status = some .prepared ∨ status = some .confirmed

/-- What the log says of a transfer and what its participants are. -/
structure CommandOk (parts : Parts) (id : String) (value : Command) : Prop where
  commit : value.decision = some .commit →
    IsLive (statusAt parts (config.indices value.intent).1 id) ∧
    IsLive (statusAt parts (config.indices value.intent).2 id)
  isLocal : ¬ config.crossShard value.intent → value.decision = none
  succeeded : value.status = .succeeded →
    statusAt parts (config.indices value.intent).1 id = some .confirmed ∧
    (config.crossShard value.intent → statusAt parts (config.indices value.intent).2 id = some .confirmed)
  canceled : value.status = .canceled → config.crossShard value.intent ∧
    statusAt parts (config.indices value.intent).1 id = some .canceled ∧
    statusAt parts (config.indices value.intent).2 id = some .canceled
  rejected : value.status = .rejected → ¬ config.crossShard value.intent ∧
    statusAt parts (config.indices value.intent).1 id = some .rejected

variable {value : Command} {parts : Parts}

theorem CommandOk.ofPending {id : String} (hpending : value.status = .pending)
    (hcommit : value.decision = some .commit → IsLive (statusAt parts (config.indices value.intent).1 id) ∧
      IsLive (statusAt parts (config.indices value.intent).2 id))
    (hlocal : ¬ config.crossShard value.intent → value.decision = none) : CommandOk config parts id value := by
  refine ⟨hcommit, hlocal, fun hs => ?_, fun hs => ?_, fun hs => ?_⟩ <;>
    · rw [hpending] at hs
      cases hs

/-- What was read of a participant still stands, unless it has moved on. -/
def Seen (parts : Parts) (index : ℕ) (id : String) (body : Intent) (role : Role) (read : Option Part) : Prop :=
  ∀ p, read = some p → p.intent = body ∧ p.role = role ∧ ∃ q, parts index id = some q ∧
    q.intent = body ∧ q.role = role ∧ (q.status = p.status ∨
      (role ≠ .localRole ∧ p.status ≠ .confirmed ∧ p.status ≠ .canceled ∧
        (q.status = .confirmed ∨ q.status = .canceled)))

def PhaseOk (known : Commands) (parts : Parts) : Phase → Prop
  | .idle => True
  | .started id => ∃ value, known.get? id = some value
  | .readSource id left => ∃ value, known.get? id = some value ∧
      Seen parts (config.indices value.intent).1 id value.intent (config.firstRole value.intent) left
  | .readBoth id left right => ∃ value, known.get? id = some value ∧
      config.crossShard value.intent ∧
      Seen parts (config.indices value.intent).1 id value.intent .source left ∧
      Seen parts (config.indices value.intent).2 id value.intent .destination right
  | .waiting id => ∃ value, known.get? id = some value
  | .answered id part => ∃ value, known.get? id = some value ∧
      Seen parts (config.indices value.intent).1 id value.intent .localRole (some part)

/-- Everything but the money. -/
structure Consistent (known full : Commands) (parts : Parts) (sent : List Request) (phase : Phase) :
    Prop where
  filed : Filed known
  participants : ∀ index id p, parts index id = some p → PartOk config known parts index id p
  requests : ∀ r ∈ sent, RequestOk config known parts r
  commands : ∀ id value, full.get? id = some value → CommandOk config parts id value
  phase : PhaseOk config known parts phase

/-! ### The committed projection runs at most one event behind -/

def Ahead (known full : Commands) : Prop := full = known ∨ ∃ event, projectEvent known event = .ok full

variable {full known : Commands}

theorem Ahead.extends (h : Ahead known full) {id : String} (hget : known.get? id = some value) :
    ∃ value', full.get? id = some value' ∧
      value'.intent = value.intent ∧ ∀ d, value.decision = some d → value'.decision = some d := by
  rcases h with rfl | ⟨event, hp⟩
  · exact ⟨value, hget, rfl, fun _ h => h⟩
  · obtain ⟨value', rfl, hcase⟩ := projectEvent_spec hp
    by_cases hid : id = event.id
    · subst hid
      rw [get?_set_self]
      rcases hcase with ⟨hnone, -⟩ | ⟨old, hold, -, ⟨d, -, hnone, rfl⟩ | ⟨status, -, -, -, rfl⟩⟩
      · rw [hget] at hnone
        cases hnone
      · obtain rfl : value = old := Option.some.inj (hget.symm.trans hold)
        exact ⟨_, rfl, rfl, fun d' hd => by rw [hnone] at hd; cases hd⟩
      · obtain rfl : value = old := Option.some.inj (hget.symm.trans hold)
        exact ⟨_, rfl, rfl, fun _ h => h⟩
    · rw [get?_set_of_ne _ hid]
      exact ⟨value, hget, rfl, fun _ h => h⟩

theorem Ahead.filed (h : Ahead known full) (hk : Filed known) : Filed full := by
  rcases h with rfl | ⟨event, hp⟩
  · exact hk
  · exact hk.projectEvent hp

variable {config}
variable {sent : List Request} {phase : Phase}

/-- A sync: the committed projection catches up. -/
theorem Consistent.sync (h : Consistent config known full parts sent phase) (hahead : Ahead known full) :
    Consistent config full full parts sent phase := by
  refine ⟨hahead.filed h.filed, fun index id p hp => ?_, fun r hr => ?_, h.commands, ?_⟩
  · obtain ⟨⟨value, hget, hintent, hcommit, hcancel⟩, hplaced, hlocal, hordered⟩ := h.participants index id p hp
    obtain ⟨value', hget', hintent', hdecision⟩ := hahead.extends hget
    exact ⟨⟨value', hget', hintent'.trans hintent,
      fun hrole hstatus => hdecision _ (hcommit hrole hstatus),
      fun hstatus => hdecision _ (hcancel hstatus)⟩, hplaced, hlocal, hordered⟩
  · obtain ⟨⟨value, hget, hintent, hcommit, hcancel⟩, hplaced, hordered⟩ := h.requests r hr
    obtain ⟨value', hget', hintent', hdecision⟩ := hahead.extends hget
    exact ⟨⟨value', hget', hintent'.trans hintent, fun hk => hdecision _ (hcommit hk),
      fun hk => hdecision _ (hcancel hk)⟩, hplaced, hordered⟩
  · have hphase := h.phase
    cases phase with
    | idle => trivial
    | started id =>
      obtain ⟨value, hget⟩ := hphase
      obtain ⟨value', hget', -, -⟩ := hahead.extends hget
      exact ⟨value', hget'⟩
    | readSource id left =>
      obtain ⟨value, hget, hseen⟩ := hphase
      obtain ⟨value', hget', hintent, -⟩ := hahead.extends hget
      exact ⟨value', hget', by rw [hintent]; exact hseen⟩
    | readBoth id left right =>
      obtain ⟨value, hget, hseen⟩ := hphase
      obtain ⟨value', hget', hintent, -⟩ := hahead.extends hget
      exact ⟨value', hget', by rw [hintent]; exact hseen⟩
    | waiting id =>
      obtain ⟨value, hget⟩ := hphase
      obtain ⟨value', hget', -, -⟩ := hahead.extends hget
      exact ⟨value', hget'⟩
    | answered id part =>
      obtain ⟨value, hget, hseen⟩ := hphase
      obtain ⟨value', hget', hintent, -⟩ := hahead.extends hget
      exact ⟨value', hget', by rw [hintent]; exact hseen⟩

/-! ### A participant moves on -/

def setPart (parts : Parts) (index : ℕ) (id : String) (p : Part) : Parts := fun j k =>
  if j = index ∧ k = id then some p else parts j k

theorem statusAt_setPart (parts : Parts) (index : ℕ) (id : String) (p : Part) (j : ℕ) (k : String) :
    statusAt (setPart parts index id p) j k = if j = index ∧ k = id then some p.status else statusAt parts j k := by
  unfold statusAt setPart
  split_ifs <;> rfl

variable {status : Status}

theorem Moves.of_some {kind : Kind} {old : Status} (h : Moves kind (some old) status) :
    (status = .confirmed ∨ status = .canceled) ∧ old ≠ .confirmed ∧ old ≠ .canceled := by
  cases h with
  | confirmed => simp
  | canceled hc hd => exact ⟨.inr rfl, fun h => hc (h ▸ rfl), fun h => hd (h ▸ rfl)⟩

variable {k : String}

section
variable {parts : Parts} {index : ℕ} {id : String} {p : Part} {kind : Kind}

theorem statusAt_keeps (hmoves : Moves kind (statusAt parts index id) p.status) {j : ℕ} {status : Status}
    (hend : status = .confirmed ∨ status = .canceled) (h : statusAt parts j k = some status) :
    statusAt (setPart parts index id p) j k = some status := by
  rw [statusAt_setPart]
  split_ifs with hjk
  · obtain ⟨rfl, rfl⟩ := hjk
    rw [h] at hmoves
    obtain ⟨-, hc, hd⟩ := hmoves.of_some
    exact (hend.elim hc hd).elim
  · exact h

theorem isLive_keeps (hmoves : Moves kind (statusAt parts index id) p.status) {j : ℕ}
    (hcancel : j = index → k = id → kind ≠ .cancel) (h : IsLive (statusAt parts j k)) :
    IsLive (statusAt (setPart parts index id p) j k) := by
  rw [statusAt_setPart]
  split_ifs with hjk
  · obtain ⟨rfl, rfl⟩ := hjk
    generalize hold : statusAt parts j k = old at hmoves h
    generalize p.status = status at hmoves ⊢
    cases hmoves with
    | confirmed => exact .inr rfl
    | canceled => exact absurd rfl (hcancel rfl rfl)
    | moved => rcases h with h | h <;> cases h
    | refused => rcases h with h | h <;> cases h
    | prepared => rcases h with h | h <;> cases h
    | rejected => rcases h with h | h <;> cases h
  · exact h

theorem Seen.keeps (hmoves : Moves kind (statusAt parts index id) p.status)
    (hsame : ∀ q, parts index id = some q → q.intent = p.intent ∧ q.role = p.role)
    (hlocal : kind = .localMove ↔ p.role = .localRole) {j : ℕ} {body : Intent} {role : Role} {read : Option Part}
    (h : Seen parts j k body role read) : Seen (setPart parts index id p) j k body role read := by
  intro r hr
  obtain ⟨hintent, hrole, q, hq, hqi, hqr, hstatus⟩ := h r hr
  refine ⟨hintent, hrole, ?_⟩
  by_cases hjk : j = index ∧ k = id
  · obtain ⟨rfl, rfl⟩ := hjk
    obtain ⟨hpi, hpr⟩ := hsame q hq
    rw [statusAt, hq] at hmoves
    obtain ⟨hend, hc, hd⟩ := Moves.of_some hmoves
    have hnot : role ≠ .localRole := fun h => by
      rw [hlocal.mpr (hpr.symm.trans (hqr.trans h))] at hmoves
      cases hmoves
    refine ⟨p, if_pos ⟨rfl, rfl⟩, hpi.symm.trans hqi, hpr.symm.trans hqr, .inr ⟨hnot, ?_⟩⟩
    rcases hstatus with heq | ⟨-, hrc, hrd, -⟩
    · exact ⟨heq ▸ hc, heq ▸ hd, hend⟩
    · exact ⟨hrc, hrd, hend⟩
  · exact ⟨q, (if_neg hjk).trans hq, hqi, hqr, hstatus⟩

end

variable {r : Request}

theorem Consistent.perform (h : Consistent config known full parts sent phase) (hahead : Ahead known full)
    (hr : r ∈ sent) (hmoves : Moves r.kind (statusAt parts r.index r.body.transactionId) status)
    (hsame : ∀ q, parts r.index r.body.transactionId = some q → q.intent = r.body ∧ q.role = r.role)
    (hlocal : r.kind = .localMove ↔ r.role = .localRole) :
    Consistent config known full (setPart parts r.index r.body.transactionId ⟨r.body, r.role, status⟩) sent phase := by
  obtain ⟨⟨value, hget, hintent, hcommit, hcancel⟩, hplaced, hordered⟩ := h.requests r hr
  have hkeeps : ∀ {j k s}, s = .confirmed ∨ s = .canceled → statusAt parts j k = some s →
      statusAt (setPart parts r.index r.body.transactionId ⟨r.body, r.role, status⟩) j k = some s :=
    statusAt_keeps (p := ⟨r.body, r.role, status⟩) hmoves
  refine ⟨h.filed, fun j k p hp => ?_, fun q hq => ?_, fun k v hv => ?_, ?_⟩
  · by_cases hjk : j = r.index ∧ k = r.body.transactionId
    · obtain ⟨rfl, rfl⟩ := hjk
      rw [setPart, if_pos ⟨rfl, rfl⟩] at hp
      obtain rfl := Option.some.inj hp
      refine ⟨⟨value, hget, hintent, fun hrole hstatus => ?_, fun hstatus => ?_⟩, hplaced,
        fun hrole => ?_, fun hrole hstatus => ?_⟩
      · simp only at hstatus hrole
        subst hstatus
        generalize statusAt parts r.index r.body.transactionId = old at hmoves
        generalize hkind : r.kind = kind at hmoves
        cases hmoves with
        | confirmed => exact hcommit hkind
        | moved => exact absurd (hlocal.mp hkind) hrole
      · simp only at hstatus
        subst hstatus
        generalize statusAt parts r.index r.body.transactionId = old at hmoves
        generalize hkind : r.kind = kind at hmoves
        cases hmoves with
        | canceled => exact hcancel hkind
      · rw [hlocal.mpr hrole] at hmoves
        generalize statusAt parts r.index r.body.transactionId = old at hmoves
        cases hmoves with
        | moved => exact .inl rfl
        | refused => exact .inr rfl
      · simp only at hstatus hrole
        subst hstatus
        generalize statusAt parts r.index r.body.transactionId = old at hmoves
        generalize hkind : r.kind = kind at hmoves
        cases hmoves with
        | confirmed => exact hkeeps (.inl rfl) (hordered hkind hrole)
        | moved =>
          rw [hlocal.mp hkind] at hrole
          cases hrole
    · rw [setPart, if_neg hjk] at hp
      obtain ⟨hcommand, hplaced', hlocal', hordered'⟩ := h.participants j k p hp
      exact ⟨hcommand, hplaced', hlocal', fun hrole hstatus => hkeeps (.inl rfl) (hordered' hrole hstatus)⟩
  · obtain ⟨hcommand, hplaced', hordered'⟩ := h.requests q hq
    exact ⟨hcommand, hplaced', fun hk hrole => hkeeps (.inl rfl) (hordered' hk hrole)⟩
  · have hok := h.commands k v hv
    -- the log's value for this transfer has the decision behind the request
    have hdecided : k = r.body.transactionId → v.intent = r.body ∧ (r.kind = .cancel → v.decision = some .cancel) := by
      rintro rfl
      obtain ⟨v', hv', hi, hd⟩ := hahead.extends hget
      obtain rfl : v = v' := Option.some.inj (hv.symm.trans hv')
      exact ⟨hi.trans hintent, fun hk => hd _ (hcancel hk)⟩
    have hlive : ∀ j, v.decision = some .commit → IsLive (statusAt parts j k) →
        IsLive (statusAt (setPart parts r.index r.body.transactionId ⟨r.body, r.role, status⟩) j k) := by
      intro j hc hl
      refine isLive_keeps (p := ⟨r.body, r.role, status⟩) hmoves (fun _ hk hkind => ?_) hl
      rw [(hdecided hk).2 hkind] at hc
      cases hc
    refine ⟨fun hc => ⟨hlive _ hc (hok.commit hc).1, hlive _ hc (hok.commit hc).2⟩, hok.isLocal,
      fun hs => ⟨hkeeps (.inl rfl) (hok.succeeded hs).1, fun hcross => hkeeps (.inl rfl) ((hok.succeeded hs).2 hcross)⟩,
      fun hs => ⟨(hok.canceled hs).1, hkeeps (.inr rfl) (hok.canceled hs).2.1,
        hkeeps (.inr rfl) (hok.canceled hs).2.2⟩, fun hs => ⟨(hok.rejected hs).1, ?_⟩⟩
    obtain ⟨hnot, hrejected⟩ := hok.rejected hs
    rw [statusAt_setPart]
    split_ifs with hjk
    · -- a refused transfer within one shard takes no further action
      have hrole : r.role = .localRole := hplaced.2.mpr ((hdecided hjk.2).1 ▸ hnot)
      rw [hlocal.mpr hrole, ← hjk.1, ← hjk.2, hrejected] at hmoves
      cases hmoves
    · exact hrejected
  · have hphase := h.phase
    have hseen : ∀ {j k body role read}, Seen parts j k body role read →
        Seen (setPart parts r.index r.body.transactionId ⟨r.body, r.role, status⟩) j k body role
          read := fun hs => Seen.keeps (p := ⟨r.body, r.role, status⟩) hmoves hsame hlocal hs
    cases phase with
    | idle => trivial
    | started id => exact hphase
    | readSource id left =>
      obtain ⟨v, hv, hs⟩ := hphase
      exact ⟨v, hv, hseen hs⟩
    | readBoth id left right =>
      obtain ⟨v, hv, hcross, hs, hs'⟩ := hphase
      exact ⟨v, hv, hcross, hseen hs, hseen hs'⟩
    | waiting id => exact hphase
    | answered id part =>
      obtain ⟨v, hv, hs⟩ := hphase
      exact ⟨v, hv, hseen hs⟩

/-! ### The coordinator moves on -/

theorem Consistent.phaseOk {phase' : Phase} (h : Consistent config known full parts sent phase)
    (hphase : PhaseOk config known parts phase') : Consistent config known full parts sent phase' :=
  ⟨h.filed, h.participants, h.requests, h.commands, hphase⟩

theorem Consistent.send {phase' : Phase} (h : Consistent config known full parts sent phase)
    (hr : RequestOk config known parts r) (hphase : PhaseOk config known parts phase') :
    Consistent config known full parts (sent ++ [r]) phase' := by
  refine ⟨h.filed, h.participants, fun q hq => ?_, h.commands, hphase⟩
  rcases mem_append.mp hq with hq | hq
  · exact h.requests q hq
  · rw [mem_singleton.mp hq]
    exact hr

theorem Consistent.log (h : Consistent config known known parts sent phase) {id : String}
    (hvalue : CommandOk config parts id value) : Consistent config known (known.set id value) parts sent .idle := by
  refine ⟨h.filed, h.participants, h.requests, fun k v hv => ?_, trivial⟩
  rw [get?_set] at hv
  split_ifs at hv with hk
  · obtain rfl := Option.some.inj hv
    subst hk
    exact hvalue
  · exact h.commands k v hv

variable {body : Intent} {read : Option Part} {role : Role} {index : ℕ}

theorem seen_of_participant {id : String} (h : participant (parts index id) body role = .ok read) :
    Seen parts index id body role read := by
  intro p hp
  subst hp
  cases hget : parts index id with
  | none =>
    rw [hget] at h
    cases h
  | some q =>
    rw [hget] at h
    simp only [participant] at h
    split_ifs at h with hconflict hlocal
    obtain rfl := Option.some.inj (Except.ok.inj h)
    rw [not_or, not_not, not_not] at hconflict
    exact ⟨hconflict.1, hconflict.2, q, rfl, hconflict.1, hconflict.2, .inl rfl⟩

theorem Seen.status_end {id : String} (h : Seen parts index id body role read)
    (hend : status = .confirmed ∨ status = .canceled) (hread : hasStatus read status = true) :
    statusAt parts index id = some status := by
  cases hp : read with
  | none => simp [hp, hasStatus] at hread
  | some p =>
    obtain ⟨-, -, q, hq, -, -, hstatus⟩ := h p hp
    have hps : p.status = status := by simpa [hp, hasStatus] using hread
    rw [statusAt, hq, Option.map_some]
    rcases hstatus with heq | ⟨-, hc, hd, -⟩
    · rw [heq, hps]
    · rw [hps] at hc hd
      exact (hend.elim hc hd).elim

/-- Before a decision, a prepared participant that was read is still prepared. -/
theorem Seen.status_prepared (hcons : Consistent config known full parts sent phase) {id : String}
    (h : Seen parts index id value.intent role read) (hrole : role ≠ .localRole) (hget : known.get? id = some value)
    (hdecision : value.decision = none) (hread : hasStatus read .prepared = true) :
    statusAt parts index id = some .prepared := by
  cases hp : read with
  | none => simp [hp, hasStatus] at hread
  | some p =>
    obtain ⟨-, -, q, hq, -, hqr, hstatus⟩ := h p hp
    have hps : p.status = .prepared := by simpa [hp, hasStatus] using hread
    rw [statusAt, hq, Option.map_some]
    obtain ⟨v, hv, -, hcommit, hcancel⟩ := (hcons.participants index id q hq).command
    obtain rfl : value = v := Option.some.inj (hget.symm.trans hv)
    rcases hstatus with heq | ⟨-, -, -, hc | hd⟩
    · rw [heq, hps]
    · have := hcommit (by rw [hqr]; exact hrole) hc
      rw [hdecision] at this
      cases this
    · have := hcancel hd
      rw [hdecision] at this
      cases this

/-! ### Money in transit -/

/-- What left the source for good and has not reached the destination. -/
def transit (config : Config) (parts : Parts) (value : Command) : ℤ :=
  if config.crossShard value.intent ∧
      statusAt parts (config.indices value.intent).1 value.intent.transactionId = some .confirmed ∧
      statusAt parts (config.indices value.intent).2 value.intent.transactionId ≠ some .confirmed
  then value.intent.amount else 0

/-- Only the transfer whose participant moved can change its transit. -/
theorem sum_transit (parts parts' : Parts) (hfiled : Filed known) {id : String} (hget : known.get? id = some value)
    (hother : ∀ j k, k ≠ id → statusAt parts' j k = statusAt parts j k) :
    known.sum (transit config parts') =
      known.sum (transit config parts) + (transit config parts' value - transit config parts value) := by
  have hrest : (known.erase id).sum (transit config parts') = (known.erase id).sum (transit config parts) := by
    apply sum_congr
    intro v hv
    obtain ⟨k, hk⟩ := mem_values.mp hv
    rw [get?_erase] at hk
    split_ifs at hk with hkid
    have hne : v.intent.transactionId ≠ id := by rwa [hfiled k v hk]
    simp only [transit, hother _ _ hne]
  rw [sum_eq_of_get? hget, sum_eq_of_get? hget, hrest]
  ring

/-- What a shard gains, the transit loses. -/
theorem Consistent.transit_perform (h : Consistent config known full parts sent phase) (hr : r ∈ sent)
    (hmoves : Moves r.kind (statusAt parts r.index r.body.transactionId) status)
    (hlocal : r.kind = .localMove ↔ r.role = .localRole) :
    known.sum (transit config (setPart parts r.index r.body.transactionId ⟨r.body, r.role, status⟩)) +
      gain r.kind r.role r.body.amount = known.sum (transit config parts) := by
  obtain ⟨⟨value, hget, hintent, -, -⟩, ⟨hplace, hrole⟩, hordered⟩ := h.requests r hr
  have hset := statusAt_setPart parts r.index r.body.transactionId ⟨r.body, r.role, status⟩
  rw [sum_transit parts _ h.filed hget fun j k hk => by rw [hset, if_neg fun hjk => hk hjk.2]]
  have hdiff : transit config (setPart parts r.index r.body.transactionId
      ⟨r.body, r.role, status⟩) value + gain r.kind r.role r.body.amount =
      transit config parts value := by
    unfold transit
    rw [hintent, hset, hset]
    by_cases hcross : config.crossShard r.body
    · have hne : (config.indices r.body).1 ≠ (config.indices r.body).2 := hcross
      rw [hplace] at hmoves ⊢
      generalize hkind : r.kind = kind at *
      generalize hrolev : r.role = role at *
      cases role with
      | localRole => exact absurd hcross (hrole.mp rfl)
      | source =>
        simp only [Config.place, reduceCtorEq, if_false, and_self, if_true, true_and, and_true,
          Ne.symm hne, hcross] at hmoves ⊢
        generalize hold : statusAt parts (config.indices r.body).1 r.body.transactionId = old at *
        cases hmoves with
        | prepared => simp [gain]
        | rejected => simp [gain]
        | moved => exact absurd (hlocal.mp rfl) (by simp)
        | refused => exact absurd (hlocal.mp rfl) (by simp)
        | canceled hc hd => simp [gain, hc]
        | confirmed =>
          -- the destination waits for the source
          have hwait : statusAt parts (config.indices r.body).2 r.body.transactionId ≠ some .confirmed := by
            intro hconf
            obtain ⟨q, hq, hqs⟩ := Option.map_eq_some_iff.mp hconf
            obtain ⟨⟨v, hv, hvi, -, -⟩, ⟨hqp, hql⟩, -, hqo⟩ := h.participants _ _ q hq
            obtain rfl : value = v := Option.some.inj (hget.symm.trans hv)
            have hqbody : q.intent = r.body := hvi.symm.trans hintent
            rw [hqbody] at hqp hql hqo
            have hqr : q.role = .destination := by
              cases hqr : q.role with
              | destination => rfl
              | source => simp [Config.place, hqr, Ne.symm hne] at hqp
              | localRole => exact absurd hcross (hql.mp hqr)
            have := hqo hqr hqs
            rw [hold] at this
            cases this
          simp [gain, hwait]
      | destination =>
        simp only [Config.place, if_true, hne, and_true, if_false, and_self, hcross, true_and] at hmoves ⊢
        generalize hold : statusAt parts (config.indices r.body).2 r.body.transactionId = old at *
        cases hmoves with
        | prepared => simp [gain]
        | rejected => simp [gain]
        | moved => exact absurd (hlocal.mp rfl) (by simp)
        | refused => exact absurd (hlocal.mp rfl) (by simp)
        | canceled hc hd => simp [gain, hc]
        | confirmed =>
          have hsource := hordered rfl rfl
          simp [gain, hsource]
    · have hkind : r.kind = .localMove := hlocal.mpr (hrole.mpr hcross)
      simp [hcross, hkind, gain]
  linarith

/-! ### The shards -/

/-- The most events a participant can have taken to its status. -/
def Part.events (p : Part) : ℤ :=
  match p.status with
  | .prepared | .rejected => 1
  | .confirmed | .canceled => 2

/-- One shard: its accounts and its log. -/
structure ShardOk (config : Config) (index : ℕ) (shard : Shard) : Prop where
  keys : shard.projection.accounts.keys = (config.opening index).keys
  nonneg : ∀ b ∈ shard.projection.accounts.values, 0 ≤ b.available ∧ 0 ≤ b.held
  replayed : replay shard.rows = .ok (some shard.projection)
  started : 0 < shard.rows.length
  events : (shard.rows.length : ℤ) ≤ 1 + shard.projection.parts.sum Part.events

theorem replay_append {rows : List (Row ShardEvent)} {state state' : ShardState} {kind : Kind}
    (h : replay rows = .ok (some state)) (hreduce : reduceAction state kind role body = .ok state') :
    replay (rows ++ [HashLog.next ShardEvent.toJson rows (.action kind role body)]) = .ok (some state') := by
  obtain ⟨last, hverify, hfold⟩ := Py.bind_eq_ok.mp h
  obtain ⟨last', hverify'⟩ := HashLog.verify_append ShardEvent.toJson hverify (.action kind role body)
  rw [replay, hverify', Py.bind_ok, foldlM_append, hfold, Py.bind_ok, foldlM_cons]
  simp only [HashLog.next, HashLog.entry, reduceEvent, hreduce, Py.bind_ok, Py.pure_eq, foldlM_nil]

theorem ShardOk.perform {shard shard' : Shard} {kind : Kind} (h : ShardOk config index shard)
    (hp : Performed shard shard' kind role body status) : ShardOk config index shard' := by
  refine ⟨hp.spec.keys.trans h.keys, hp.spec.nonneg, ?_, ?_, ?_⟩
  · rw [hp.rows]
    exact replay_append h.replayed hp.reduced
  · rw [hp.rows, length_append]
    exact Nat.add_pos_left h.started _
  · have hold := h.events
    have hmoves := hp.spec.moves
    rw [hp.rows, hp.spec.parts, length_append, length_singleton]
    push_cast
    cases hget : shard.projection.parts.get? body.transactionId with
    | none =>
      rw [sum_set_of_none hget]
      have : 1 ≤ Part.events ⟨body, role, status⟩ := by cases status <;> simp [Part.events]
      linarith
    | some old =>
      rw [sum_set_of_some hget]
      rw [hget] at hmoves
      obtain ⟨hend, hconfirmed, hcanceled⟩ := Moves.of_some hmoves
      have hnew : Part.events ⟨body, role, status⟩ = 2 := by
        rcases hend with rfl | rfl <;> rfl
      have hbefore : old.events = 1 := by
        unfold Part.events
        cases hs : old.status with
        | prepared => rfl
        | rejected => rfl
        | confirmed => exact absurd hs hconfirmed
        | canceled => exact absurd hs hcanceled
      linarith

theorem opening_mem {n : ℤ} (h : (k, n) ∈ (config.opening index).entries) :
    isIdentifier k = true ∧ 0 ≤ n ∧ n ≤ 10 ^ 12 := by
  obtain ⟨⟨k', a⟩, ha, heq⟩ := mem_map.mp h
  obtain ⟨rfl, rfl⟩ := Prod.mk.inj heq
  have hget := mem_entries.mp (mem_filter.mp ha).1
  exact ⟨config.names _ a hget, config.openings _ a hget⟩

theorem shardOk_init (config : Config) (index : ℕ) : ShardOk config index (Shard.init config index) := by
  refine ⟨mapVal_keys _ _, fun b hb => ?_, ?_, Nat.one_pos, le_rfl⟩
  · obtain ⟨k, hk⟩ := mem_values.mp hb
    simp only [Shard.init, get?_mapVal] at hk
    obtain ⟨n, hn, rfl⟩ := Option.map_eq_some_iff.mp hk
    exact ⟨(opening_mem (mem_entries.mpr hn)).2.1, le_rfl⟩
  · have hall : ((config.opening index).entries.all fun e => isIdentifier e.1 && 0 ≤ e.2 && e.2 ≤ 10 ^ 12) = true := by
      rw [all_eq_true]
      rintro ⟨k, n⟩ he
      obtain ⟨h1, h2, h3⟩ := opening_mem he
      simp only [h1, h2, h3, decide_true, Bool.and_self]
    have hempty : HashLog.verify ShardEvent.toJson [] = .ok HashLog.origin := rfl
    obtain ⟨last, hverify⟩ := HashLog.verify_append ShardEvent.toJson hempty (.genesis (config.opening index))
    rw [nil_append] at hverify
    rw [replay, Shard.init, hverify, Py.bind_ok, foldlM_cons]
    simp only [HashLog.next, HashLog.entry, reduceEvent, hall, if_true, Py.bind_ok, Py.pure_eq, foldlM_nil]

/-! ### The supply -/

/-- The opening supply. -/
def Config.supply (config : Config) : ℤ := config.accounts.sum Account.opening

/-- The money on all shards. -/
def walletTotal (config : Config) (shards : ℕ → Shard) : ℤ :=
  ((List.range config.shards).map fun i : ℕ => (shards i).projection.total).sum

theorem walletTotal_eq (config : Config) (shards : ℕ → Shard) :
    walletTotal config shards = ∑ i ∈ Finset.range config.shards, (shards i).projection.total := rfl

theorem walletTotal_update {shards : ℕ → Shard} (hindex : index < config.shards) (shard : Shard) :
    walletTotal config (Function.update shards index shard) =
      walletTotal config shards + (shard.projection.total - (shards index).projection.total) := by
  rw [walletTotal_eq, walletTotal_eq]
  have hmem : index ∈ Finset.range config.shards := Finset.mem_range.mpr hindex
  rw [← Finset.add_sum_erase _ _ hmem, ← Finset.add_sum_erase _ _ hmem, Function.update_self]
  have hrest : ∑ i ∈ (Finset.range config.shards).erase index, (Function.update shards index shard i).projection.total =
      ∑ i ∈ (Finset.range config.shards).erase index, (shards i).projection.total := by
    refine Finset.sum_congr rfl fun i hi => ?_
    rw [Function.update_of_ne (Finset.ne_of_mem_erase hi)]
  rw [hrest]
  ring

/-- The openings of all shards are the supply. -/
theorem walletTotal_init (config : Config) : walletTotal config (Shard.init config) = config.supply := by
  have hshard : ∀ i, (Shard.init config i).projection.total =
      ((config.accounts.entries.filter fun e => shardFor e.1 config.shards = i).map fun e => e.2.opening).sum := by
    intro i
    simp only [Shard.init, ShardState.total, Dict.sum, Dict.values, Dict.mapVal, Config.opening,
      map_map, Function.comp_def, Balance.total, add_zero]
  have hsplit : ∀ l : List (String × Account),
      ∑ i ∈ Finset.range config.shards, ((l.filter fun e => shardFor e.1 config.shards = i).map
        fun e => e.2.opening).sum = (l.map fun e => e.2.opening).sum := by
    intro l
    induction l with
    | nil => simp
    | cons e l ih =>
      have hlt : shardFor e.1 config.shards < config.shards := Nat.mod_lt _ config.shardsPos
      have hstep : ∀ i, (((e :: l).filter fun e => shardFor e.1 config.shards = i).map
          fun e => e.2.opening).sum = (if shardFor e.1 config.shards = i then e.2.opening else 0) +
          ((l.filter fun e => shardFor e.1 config.shards = i).map fun e => e.2.opening).sum := by
        intro i
        by_cases hi : shardFor e.1 config.shards = i
        · simp [hi]
        · simp [hi]
      rw [map_cons, sum_cons, ← ih, Finset.sum_congr rfl fun i _ => hstep i,
        Finset.sum_add_distrib, Finset.sum_ite_eq, if_pos (Finset.mem_range.mpr hlt)]
  rw [walletTotal_eq, Finset.sum_congr rfl fun i _ => hshard i, hsplit, Config.supply, Dict.sum, Dict.values, map_map]
  rfl

/-! ### The invariant -/

structure Inv (config : Config) (w : System) (known full : Commands) : Prop where
  state : w.state = .ok known
  logged : project w.log .empty = .ok full
  bound : w.committed ≤ w.log.length
  ahead : Ahead known full
  consistent : Consistent config known full w.part w.sent w.phase
  money : walletTotal config w.shards + known.sum (transit config w.part) = config.supply
  shards : ∀ index, ShardOk config index (w.shards index)

section
variable {w : System} {known full : Commands}

variable {value : Command}

/-- What an operation sees once it has synced. -/
theorem Inv.sees (h : Inv config w known full) {commands : Commands} {id : String} (hsees : w.Sees commands id value) :
    full = known ∧ known.get? id = some value ∧ w.committed = w.log.length := by
  have hknown : project w.log .empty = .ok known := by
    have := h.state
    rwa [System.state, hsees.synced, take_length] at this
  obtain rfl : commands = known := Except.ok.inj (hsees.state.symm.trans h.state)
  exact ⟨Except.ok.inj (h.logged.symm.trans hknown), hsees.found, hsees.synced⟩

/-- Logging an event of a synced coordinator. -/
theorem Inv.append (h : Inv config w known known) {event : Event}
    (hp : projectEvent known event = .ok (known.set event.id value)) (hok : CommandOk config w.part event.id value) :
    Inv config { w with log := w.log ++ [event], phase := .idle } known (known.set event.id value) := by
  refine ⟨?_, project_append.mpr ⟨known, h.logged, hp⟩, ?_, .inr ⟨event, hp⟩, h.consistent.log hok, h.money, h.shards⟩
  · have := h.state
    rw [System.state] at this ⊢
    rwa [take_append_of_le_length h.bound]
  · simp only [length_append]
    exact h.bound.trans (Nat.le_add_right _ _)

theorem Inv.identifier (h : Inv config w known full) {id : String} (hget : known.get? id = some value) :
    isIdentifier id = true := by
  rw [← h.consistent.filed id value hget]
  exact value.intent.identifiers.1

/-- A decision on a pending, undecided command is accepted. -/
theorem Inv.decide (h : Inv config w known full) {id : String} (hget : known.get? id = some value)
    (hpending : value.status = .pending) (hnone : value.decision = none) (d : Decision) :
    projectEvent known (.decision id d) = .ok (known.set id { value with decision := some d }) := by
  simp only [projectEvent, Event.id, h.identifier hget, Bool.true_eq_false, if_false, hget,
    hpending, hnone, ne_eq, not_true_eq_false]

/-- So is a completion that its decision allows. -/
theorem Inv.complete (h : Inv config w known full) {id : String} (hget : known.get? id = some value)
    (hpending : value.status = .pending) {status : Outcome} (hallowed : contradicts value.decision status = false)
    (hstatus : status ≠ .pending) :
    projectEvent known (.completed id status) = .ok (known.set id { value with status := status }) := by
  simp only [projectEvent, Event.id, h.identifier hget, Bool.true_eq_false, if_false, hget,
    hpending, ne_eq, not_true_eq_false, hallowed, Bool.false_eq_true, hstatus, or_self]

/-- The money in transit does not depend on an event that is not committed yet. -/
theorem sum_transit_ahead {parts : Parts} {sent : List Request} {phase : Phase}
    (h : Consistent config known full parts sent phase) (hahead : Ahead known full) :
    full.sum (transit config parts) = known.sum (transit config parts) := by
  rcases hahead with rfl | ⟨event, hp⟩
  · rfl
  · obtain ⟨value', rfl, hcase⟩ := projectEvent_spec hp
    have hsame : ∀ old : Command, value'.intent = old.intent →
        transit config parts value' = transit config parts old := by
      intro old hintent
      rw [transit, transit, hintent]
    rcases hcase with ⟨hnone, -, -, hid⟩ | ⟨old, hold, -, hmoved⟩
    · have hzero : transit config parts value' = 0 := by
        refine if_neg fun hconf => ?_
        obtain ⟨q, hq, -⟩ := Option.map_eq_some_iff.mp hconf.2.1
        obtain ⟨⟨v, hv, -⟩, -⟩ := h.participants _ _ q hq
        rw [hid, hnone] at hv
        cases hv
      rw [sum_set_of_none hnone, hzero, add_zero]
    · have hintent : value'.intent = old.intent := by
        rcases hmoved with ⟨d, -, -, rfl⟩ | ⟨status, -, -, -, rfl⟩ <;> rfl
      rw [sum_set_of_some hold, hsame old hintent, sub_self, add_zero]

theorem Inv.sync (h : Inv config w known full) : Inv config { w with committed := w.log.length } full full := by
  refine ⟨?_, h.logged, le_rfl, .inl rfl, h.consistent.sync h.ahead, ?_, h.shards⟩
  · rw [System.state, take_length]
    exact h.logged
  · exact (sum_transit_ahead h.consistent h.ahead).symm ▸ h.money

theorem Inv.phaseOk (h : Inv config w known full) {phase : Phase}
    (hphase : PhaseOk config known w.part phase) : Inv config { w with phase := phase } known full :=
  ⟨h.state, h.logged, h.bound, h.ahead, h.consistent.phaseOk hphase, h.money, h.shards⟩

theorem Inv.send (h : Inv config w known full) {phase : Phase} (hr : RequestOk config known w.part r)
    (hphase : PhaseOk config known w.part phase) :
    Inv config { w with sent := w.sent ++ [r], phase := phase } known full :=
  ⟨h.state, h.logged, h.bound, h.ahead, h.consistent.send hr hphase, h.money, h.shards⟩

theorem Inv.execute (h : Inv config w known full) {request : Request} {shard : Shard} {part : Part}
    (hsent : request ∈ w.sent) (haction : (w.shards request.index).action config.shards request.index request.body
      request.kind request.role config.epoch config.leader = .ok (shard, part)) :
    Inv config { w with shards := Function.update w.shards request.index shard } known full := by
  rcases Shard.action_spec haction with ⟨rfl, -⟩ | ⟨status, hp, -⟩
  · rw [Function.update_eq_self]
    exact h
  · have hparts : System.part { w with shards := Function.update w.shards request.index shard } =
        setPart w.part request.index request.body.transactionId ⟨request.body, request.role, status⟩ := by
      funext j k
      simp only [System.part, setPart]
      by_cases hj : j = request.index
      · subst hj
        rw [Function.update_self, hp.spec.parts, get?_set]
        simp
      · rw [Function.update_of_ne hj]
        simp [hj]
    have hindex : request.index < config.shards := by
      obtain ⟨-, ⟨hplace, -⟩, -⟩ := h.consistent.requests request hsent
      rw [hplace, Config.place]
      split_ifs
      · exact (config.indices_lt _).2
      · exact (config.indices_lt _).1
    refine ⟨h.state, h.logged, h.bound, h.ahead, ?_, ?_, fun i => ?_⟩
    · rw [hparts]
      exact h.consistent.perform h.ahead hsent hp.spec.moves hp.spec.same hp.spec.isLocal
    · have htransit := h.consistent.transit_perform hsent hp.spec.moves hp.spec.isLocal
      have hmoney := h.money
      have htotal := hp.spec.total
      rw [hparts]
      simp only
      rw [walletTotal_update hindex]
      linarith
    · simp only
      by_cases hi : i = request.index
      · subst hi
        rw [Function.update_self]
        exact (h.shards _).perform hp
      · rw [Function.update_of_ne hi]
        exact h.shards i

/-- What `advance` logs, and what that says of the participants. -/
theorem Inv.advance_append (h : Inv config w known known) {id : String} {left right : Option Part} {event : Event}
    (hget : known.get? id = some value) (hpending : value.status = .pending)
    (hphase : w.phase = .readBoth id left right) (hact : advance id value left right = .append event) :
    ∃ full, Inv config { w with log := w.log ++ [event], phase := .idle } known full := by
  have hread := h.consistent.phase
  rw [hphase] at hread
  obtain ⟨v, hv, hcross, hleft, hright⟩ := hread
  obtain rfl : v = value := Option.some.inj (hv.symm.trans hget)
  have hok := h.consistent.commands id v hget
  unfold advance at hact
  cases hd : v.decision with
  | none =>
    rw [hd] at hact
    simp only at hact
    split_ifs at hact with hrefused _ _ hprepared
    · obtain rfl := Act.append.inj hact
      exact ⟨_, h.append (h.decide hget hpending hd .cancel)
        (.ofPending config hpending (fun hc => nomatch hc) fun hn => absurd hcross hn)⟩
    · obtain rfl := Act.append.inj hact
      rw [Bool.and_eq_true] at hprepared
      exact ⟨_, h.append (h.decide hget hpending hd .commit) (.ofPending config hpending (fun _ =>
          ⟨.inl (hleft.status_prepared h.consistent (by simp) hget hd hprepared.1),
            .inl (hright.status_prepared h.consistent (by simp) hget hd hprepared.2)⟩)
          fun hn => absurd hcross hn)⟩
  | some d =>
    rw [hd] at hact
    cases d with
    | commit =>
      simp only at hact
      split_ifs at hact with hl hr
      obtain rfl := Act.append.inj hact
      rw [Bool.not_eq_false] at hl hr
      have hl' := hleft.status_end (.inl rfl) hl
      have hr' := hright.status_end (.inl rfl) hr
      exact ⟨_, h.append (h.complete hget hpending (by rw [hd]; rfl) (by simp))
        ⟨hok.commit, hok.isLocal, fun _ => ⟨hl', fun _ => hr'⟩, (nomatch ·), (nomatch ·)⟩⟩
    | cancel =>
      simp only at hact
      split_ifs at hact with hl hr
      obtain rfl := Act.append.inj hact
      rw [Bool.not_eq_false] at hl hr
      have hl' := hleft.status_end (.inr rfl) hl
      have hr' := hright.status_end (.inr rfl) hr
      exact ⟨_, h.append (h.complete hget hpending (by rw [hd]; rfl) (by simp))
        ⟨hok.commit, hok.isLocal, (nomatch ·), fun _ => ⟨hcross, hl', hr'⟩, (nomatch ·)⟩⟩

theorem Inv.advance_send (h : Inv config w known full) {id : String} {left right : Option Part} {kind : Kind}
    {role : Role} (hget : known.get? id = some value) (hphase : w.phase = .readBoth id left right)
    (hact : advance id value left right = .send kind role) :
    Inv config { w with
      sent := w.sent ++ [⟨config.place value.intent role, value.intent, kind, role⟩]
      phase := .idle } known full := by
  have hread := h.consistent.phase
  rw [hphase] at hread
  obtain ⟨v, hv, hcross, hleft, hright⟩ := hread
  obtain rfl : v = value := Option.some.inj (hv.symm.trans hget)
  have hid := h.consistent.filed id v hget
  have hrequest : ∀ kind role, role ≠ .localRole → (kind = .confirm → v.decision = some .commit) →
      (kind = .cancel → v.decision = some .cancel) →
      (kind = .confirm → role = .destination → statusAt w.part (config.indices v.intent).1 id = some .confirmed) →
      RequestOk config known w.part ⟨config.place v.intent role, v.intent, kind, role⟩ := by
    intro kind role hrole hcommit hcancel hordered
    refine ⟨⟨v, by rw [hid]; exact hget, rfl, hcommit, hcancel⟩, ⟨rfl, ?_⟩, ?_⟩
    · exact ⟨fun hr => absurd hr hrole, fun hn => absurd hcross hn⟩
    · simp only [hid]
      exact hordered
  have hidle : PhaseOk config known w.part .idle := trivial
  apply h.send _ hidle
  unfold advance at hact
  cases hd : v.decision with
  | none =>
    rw [hd] at hact
    simp only at hact
    split_ifs at hact
    · obtain ⟨rfl, rfl⟩ := Act.send.inj hact
      exact hrequest _ _ (by simp) (by simp) (by simp) (by simp)
    · obtain ⟨rfl, rfl⟩ := Act.send.inj hact
      exact hrequest _ _ (by simp) (by simp) (by simp) (by simp)
  | some d =>
    rw [hd] at hact
    cases d with
    | commit =>
      simp only at hact
      split_ifs at hact with hl hr
      · obtain ⟨rfl, rfl⟩ := Act.send.inj hact
        exact hrequest _ _ (by simp) (fun _ => hd) (by simp) (by simp)
      · obtain ⟨rfl, rfl⟩ := Act.send.inj hact
        rw [Bool.not_eq_false] at hl
        exact hrequest _ _ (by simp) (fun _ => hd) (by simp) fun _ _ =>
          hleft.status_end (.inl rfl) hl
    | cancel =>
      simp only at hact
      split_ifs at hact with hl hr
      · obtain ⟨rfl, rfl⟩ := Act.send.inj hact
        exact hrequest _ _ (by simp) (by simp) (fun _ => hd) (by simp)
      · obtain ⟨rfl, rfl⟩ := Act.send.inj hact
        exact hrequest _ _ (by simp) (by simp) (fun _ => hd) (by simp)

/-- A transfer within one shard completes as its participant says. -/
theorem Inv.complete_local (h : Inv config w known known) {id : String} {part : Part}
    (hget : known.get? id = some value) (hpending : value.status = .pending)
    (hlocal : ¬ config.crossShard value.intent)
    (hphase : w.phase = .answered id part ∨ w.phase = .readSource id (some part)) :
    ∃ full, Inv config { w with log := w.log ++ [completeLocal id part], phase := .idle } known full := by
  have hread := h.consistent.phase
  have hseen : Seen w.part (config.indices value.intent).1 id value.intent .localRole (some part) := by
    rcases hphase with hphase | hphase
    · rw [hphase] at hread
      obtain ⟨v, hv, hseen⟩ := hread
      obtain rfl : v = value := Option.some.inj (hv.symm.trans hget)
      exact hseen
    · rw [hphase] at hread
      obtain ⟨v, hv, hseen⟩ := hread
      obtain rfl : v = value := Option.some.inj (hv.symm.trans hget)
      rwa [Config.firstRole, if_neg hlocal] at hseen
  have hok := h.consistent.commands id value hget
  have hnone := hok.isLocal hlocal
  obtain ⟨hpi, hpr, q, hq, -, hqr, hstatus⟩ := hseen part rfl
  have hends := (h.consistent.participants _ _ q hq).isLocal hqr
  by_cases hconfirmed : part.status = .confirmed
  · have hs : statusAt w.part (config.indices value.intent).1 id = some .confirmed :=
      hseen.status_end (.inl rfl) (by simp [hasStatus, hconfirmed])
    rw [completeLocal, if_pos hconfirmed]
    exact ⟨_, h.append (h.complete hget hpending (by rw [hnone]; rfl) (by simp))
      ⟨hok.commit, hok.isLocal, fun _ => ⟨hs, fun hc => absurd hc hlocal⟩, (nomatch ·), (nomatch ·)⟩⟩
  · have hs : statusAt w.part (config.indices value.intent).1 id = some .rejected := by
      rw [statusAt, hq, Option.map_some]
      rcases hstatus with heq | ⟨hnot, -⟩
      · rcases hends with hc | hr
        · exact absurd (heq.symm.trans hc) hconfirmed
        · rw [hr]
      · exact absurd rfl hnot
    rw [completeLocal, if_neg hconfirmed]
    exact ⟨_, h.append (h.complete hget hpending (by rw [hnone]; rfl) (by simp))
      ⟨hok.commit, hok.isLocal, (nomatch ·), (nomatch ·), fun _ => ⟨hlocal, hs⟩⟩⟩

end

theorem Inv.start (config : Config) : Inv config (.init config) .empty .empty := by
  refine ⟨rfl, rfl, le_rfl, .inl rfl, ⟨by simp [Filed], ?_, by simp [System.init], by simp, trivial⟩,
    ?_, fun index => shardOk_init config index⟩
  · intro index id p hp
    simp [System.init, System.part, Shard.init] at hp
  · have hnone : Dict.sum (Dict.empty : Commands) (transit config (System.init config).part) = 0 := rfl
    rw [hnone, add_zero]
    exact walletTotal_init config

theorem Inv.step {w w' : System} (h : Inv config w known full) (hstep : Step config w w') :
    ∃ known' full', Inv config w' known' full' := by
  cases hstep with
  | sync => exact ⟨full, full, h.sync⟩
  | @create commands body owner account hidle hsynced hstate hsource hdestination hnew hlimit =>
    obtain rfl : commands = known := Except.ok.inj (hstate.symm.trans h.state)
    have hknown : project w.log .empty = .ok commands := by
      rwa [System.state, hsynced, take_length] at hstate
    obtain rfl : full = commands := Except.ok.inj (h.logged.symm.trans hknown)
    have hp : projectEvent full (.accepted body.transactionId body) =
        .ok (full.set body.transactionId ⟨body, none, .pending⟩) := by
      have hcontains : full.contains body.transactionId = false := contains_eq_false_iff.mpr hnew
      simp only [projectEvent, Event.id, body.identifiers.1, Bool.true_eq_false, if_false, ne_eq,
        not_true_eq_false, hcontains, Bool.false_eq_true]
    have hphase : { w with log := w.log ++ [Event.accepted body.transactionId body] } =
        { w with log := w.log ++ [Event.accepted body.transactionId body], phase := .idle } := by
      rw [← hidle]
    rw [hphase]
    exact ⟨full, _, h.append hp (.ofPending config rfl (by rintro ⟨⟩) fun _ => rfl)⟩
  | cancel hsees hdecision hcross =>
    obtain ⟨rfl, hget, -⟩ := h.sees hsees
    exact ⟨full, _, h.append (h.decide hget hsees.pending hdecision .cancel)
      (.ofPending config hsees.pending (by rintro ⟨⟩) fun hn => absurd hcross hn)⟩
  | start hidle hsees =>
    obtain ⟨-, hget, -⟩ := h.sees hsees
    exact ⟨known, full, h.phaseOk ⟨_, hget⟩⟩
  | readSource hphase hsees hread =>
    obtain ⟨-, hget, -⟩ := h.sees hsees
    exact ⟨known, full, h.phaseOk ⟨_, hget, seen_of_participant hread⟩⟩
  | readDestination hphase hsees hcross hread =>
    obtain ⟨-, hget, -⟩ := h.sees hsees
    have hleft := h.consistent.phase
    rw [hphase] at hleft
    obtain ⟨v, hv, hseen⟩ := hleft
    obtain rfl := Option.some.inj (hv.symm.trans hget)
    rw [Config.firstRole, if_pos hcross] at hseen
    exact ⟨known, full, h.phaseOk ⟨_, hget, hcross, hseen, seen_of_participant hread⟩⟩
  | append hphase hsees hact =>
    obtain ⟨rfl, hget, -⟩ := h.sees hsees
    exact ⟨full, h.advance_append hget hsees.pending hphase hact⟩
  | send hphase hsees hact =>
    obtain ⟨-, hget, -⟩ := h.sees hsees
    exact ⟨known, full, h.advance_send hget hphase hact⟩
  | @sendLocal commands id value hphase hsees hlocal =>
    obtain ⟨-, hget, -⟩ := h.sees hsees
    have hid := h.consistent.filed _ _ hget
    refine ⟨known, full, h.send ⟨⟨_, by rw [hid]; exact hget, rfl, by rintro ⟨⟩, by rintro ⟨⟩⟩,
      ⟨?_, ?_⟩, by rintro ⟨⟩⟩ ⟨_, hget⟩⟩
    · rfl
    · exact ⟨fun _ => hlocal, fun _ => rfl⟩
  | answer hphase hsees hread =>
    obtain ⟨-, hget, -⟩ := h.sees hsees
    exact ⟨known, full, h.phaseOk ⟨_, hget, seen_of_participant hread⟩⟩
  | completeLocal hphase hsees hlocal =>
    obtain ⟨rfl, hget, -⟩ := h.sees hsees
    exact ⟨full, h.complete_local hget hsees.pending hlocal hphase⟩
  | abort => exact ⟨known, full, h.phaseOk trivial⟩
  | execute hsent haction => exact ⟨known, full, h.execute hsent haction⟩

theorem reachable_inv {w : System} (h : (wallet config).Reachable w) : ∃ known full, Inv config w known full := by
  induction h with
  | start hs =>
    obtain rfl : _ = System.init config := hs
    exact ⟨_, _, .start config⟩
  | step _ hstep ih =>
    obtain ⟨known, full, hinv⟩ := ih
    exact hinv.step hstep

end SystemDesign.Wallet
