import SystemDesign.Lib.Transaction
import SystemDesign.Wallet.Safety

/-!
The reconciliation of the shards with the committed commands (`audit.py`).

`reachable_audit`: in every reachable state the audit returns and finds nothing,
and what it checks holds.
-/

namespace SystemDesign.Wallet

open Dict List

/-! ### The audit -/

/-- `Shard.view`, without a position. -/
structure View where
  shard : ℕ
  seq : ℕ
  head : String
  accounts : Dict String Balance
  parts : Dict String Part

def Shard.view (shard : Shard) (index : ℕ) : View :=
  ⟨index, (shard.rows.getLast?.map Row.seq).getD 0, HashLog.head shard.rows,
    shard.projection.accounts, shard.projection.parts⟩

/-- What `Shard.audit` returns. -/
structure Receipt where
  isMatch : Bool
  events : ℕ
  head : String

def Shard.audit (shard : Shard) : Py Receipt := do
  let replayed ← replay shard.rows
  return ⟨replayed = some shard.projection, shard.rows.length, HashLog.head shard.rows⟩

/-- `integer`, with its bounds. -/
def isBounded (value minimum maximum : ℤ) : Bool := minimum ≤ value && value ≤ maximum

/-- The bounds and participants that a shard's reply must have. -/
def isReceipt (config : Config) (view : View) (check : Receipt) : Bool :=
  isBounded view.shard 0 (config.shards - 1) && isBounded view.seq 1 (10 ^ 12) &&
    isBounded check.events 1 (10 ^ 12) &&
    (view.accounts.values.all fun balance => isBounded balance.available 0 config.supply &&
      isBounded balance.held 0 config.supply) &&
    view.parts.values.all fun part => (participant (some part) part.intent part.role).isOk

/-- An error text when a check fails. -/
def report (failed : Bool) (message : String) : List String := if failed then [message] else []

/-- The checks on one shard's reply. -/
def shardErrors (config : Config) (index : ℕ) (view : View) (check : Receipt) : Py (List String) :=
  if isReceipt config view check = false then .error (.http 502 "invalid shard audit receipt")
  else .ok (
    report (view.shard ≠ index) ("shard identity mismatch: " ++ toString index) ++
    report (view.accounts.keys.toFinset ≠
        (config.accounts.keys.filter fun account => shardFor account config.shards = index).toFinset)
      ("account distribution mismatch: " ++ toString index))

/-- The checks on a transfer within one shard. -/
def localErrors (id : String) (value : Command) (part : Option Part) : List String :=
  report (value.decision ≠ none) ("decision on local transfer: " ++ id) ++
  report (conflicts part value.intent .localRole) ("mismatched local participant: " ++ id) ++
  report (value.status = .rejected && part.map Part.status ≠ some .rejected) ("missing rejection: " ++ id) ++
  report (value.status = .succeeded && part.map Part.status ≠ some .confirmed) ("missing local effect: " ++ id)

/-- The checks on a transfer between two shards. -/
def crossErrors (id : String) (value : Command) (left right : Option Part) : List String :=
  report (conflicts left value.intent .source) ("mismatched cross-shard participant: " ++ id) ++
  report (conflicts right value.intent .destination) ("mismatched cross-shard participant: " ++ id) ++
  report (left.map Part.status = some .confirmed && right.map Part.status ≠ some .confirmed &&
      value.decision ≠ some .commit) ("uncommitted source confirmation: " ++ id) ++
  report (right.map Part.status = some .confirmed &&
      (left.map Part.status ≠ some .confirmed || value.decision ≠ some .commit))
    ("destination credited before source confirmation: " ++ id) ++
  report (value.status = .succeeded && (left.map Part.status, right.map Part.status) ≠
      (some .confirmed, some .confirmed)) ("missing completed effect: " ++ id) ++
  report (value.status = .canceled && (left.map Part.status, right.map Part.status) ≠
      (some .canceled, some .canceled)) ("missing cancellation: " ++ id)

def commandErrors (config : Config) (w : System) (id : String) (value : Command) : List String :=
  let (source, destination) := config.indices value.intent
  if source = destination then localErrors id value (w.part source id)
  else crossErrors id value (w.part source id) (w.part destination id)

/-- What one command has in transit. -/
def inTransit (config : Config) (w : System) (id : String) (value : Command) : ℤ :=
  let (source, destination) := config.indices value.intent
  if source ≠ destination ∧ (w.part source id).map Part.status = some .confirmed ∧
      (w.part destination id).map Part.status ≠ some .confirmed then value.intent.amount
  else 0

/-- Participants that no committed command accounts for. -/
def orphanErrors (config : Config) (commands : Commands) (view : View) : List String :=
  view.parts.entries.flatMap fun entry =>
    report ((commands.get? entry.1).map Command.intent ≠ some entry.2.intent ||
      (view.shard ≠ (config.indices entry.2.intent).1 && view.shard ≠ (config.indices entry.2.intent).2))
      ("orphan or mismatched participant: " ++ entry.1)

structure Report where
  errors : List String
  walletTotal : ℤ
  inTransit : ℤ
  openingSupply : ℤ

/-- `AuditMixin.audit`, once synced. -/
def audit (config : Config) (w : System) : Py Report := do
  let replies ← (List.range config.shards).mapM fun index : ℕ => do
    let check ← (w.shards index).audit
    return (index, (w.shards index).view index, check)
  let found ← replies.mapM fun reply => shardErrors config reply.1 reply.2.1 reply.2.2
  let total := (replies.map fun reply => reply.2.1.accounts.sum Balance.total).sum
  let commands ← w.state
  let transit := (commands.entries.map fun entry => inTransit config w entry.1 entry.2).sum
  return {
    errors := found.flatten ++
      (commands.entries.flatMap fun entry => commandErrors config w entry.1 entry.2) ++
      (replies.flatMap fun reply => orphanErrors config commands reply.2.1) ++
      report (total + transit ≠ config.supply) "supply mismatch" ++
      report (replies.any fun reply => reply.2.2.events ≠ reply.2.1.seq ||
        reply.2.2.head ≠ reply.2.1.head) "participant changed during audit" ++
      report (replies.any fun reply => reply.2.2.isMatch = false) "event/projection mismatch"
    walletTotal := total
    inTransit := transit
    openingSupply := config.supply }

/-! ### What a committed command and its participants are -/

variable {value : Command} {full known : Commands}

variable {id : String}

theorem Ahead.terminal (h : Ahead known full) (hget : known.get? id = some value)
    (hstatus : value.status ≠ .pending) : full.get? id = some value := by
  rcases h with rfl | ⟨event, hp⟩
  · exact hget
  · obtain ⟨value', rfl, hcase⟩ := projectEvent_spec hp
    by_cases hid : id = event.id
    · subst hid
      rcases hcase with ⟨hnone, -⟩ | ⟨old, hold, hpending, -⟩
      · rw [hnone] at hget
        cases hget
      · obtain rfl := Option.some.inj (hold.symm.trans hget)
        exact absurd hpending hstatus
    · rw [get?_set_of_ne _ hid]
      exact hget

/-- A committed command against its participants; `left` and `right` are their statuses. -/
structure Settled (config : Config) (value : Command) (left right : Option Status) : Prop where
  isLocal : ¬ config.crossShard value.intent → value.decision = none
  /-- A confirmed participant of two has a durable commit decision. -/
  committed : config.crossShard value.intent →
    left = some .confirmed ∨ right = some .confirmed → value.decision = some .commit
  /-- The destination is credited after the source was debited. -/
  ordered : config.crossShard value.intent → right = some .confirmed → left = some .confirmed
  exclusive : config.crossShard value.intent →
    ¬ (left = some .confirmed ∧ right = some .canceled) ∧
    ¬ (left = some .canceled ∧ right = some .confirmed)
  succeeded : value.status = .succeeded → left = some .confirmed ∧ right = some .confirmed
  canceled : value.status = .canceled → left = some .canceled ∧ right = some .canceled
  rejected : value.status = .rejected → left = some .rejected ∧ right = some .rejected

section
variable {config : Config} {w : System} {known full : Commands} (h : Inv config w known full)
include h

variable {value : Command} {index : ℕ}

theorem Inv.part_command {p : Part} (hp : w.part index id = some p) (hget : known.get? id = some value) :
    p.intent = value.intent ∧ index = config.place value.intent p.role ∧
      (p.role = .localRole ↔ ¬ config.crossShard value.intent) ∧
      (p.role ≠ .localRole → p.status = .confirmed → value.decision = some .commit) ∧
      (p.status = .canceled → value.decision = some .cancel) := by
  obtain ⟨⟨v, hv, hintent, hcommit, hcancel⟩, ⟨hplace, hrole⟩, -, -⟩ := h.consistent.participants index id p hp
  obtain rfl := Option.some.inj (hv.symm.trans hget)
  rw [← hintent] at hplace hrole
  exact ⟨hintent.symm, hplace, hrole, hcommit, hcancel⟩

/-- The participant on the source shard is the source, or the only one. -/
theorem Inv.part_source {p : Part} (hget : known.get? id = some value)
    (hp : w.part (config.indices value.intent).1 id = some p) :
    p.intent = value.intent ∧ p.role = config.firstRole value.intent := by
  obtain ⟨hintent, hplace, hrole, -, -⟩ := h.part_command hp hget
  refine ⟨hintent, ?_⟩
  unfold Config.firstRole
  split_ifs with hcross
  · cases hr : p.role with
    | source => rfl
    | destination =>
      rw [hr, Config.place, if_pos rfl] at hplace
      exact absurd hplace hcross
    | localRole => exact absurd hcross (hrole.mp hr)
  · exact hrole.mpr hcross

theorem Inv.part_destination {p : Part} (hget : known.get? id = some value)
    (hcross : config.crossShard value.intent) (hp : w.part (config.indices value.intent).2 id = some p) :
    p.intent = value.intent ∧ p.role = .destination := by
  obtain ⟨hintent, hplace, hrole, -, -⟩ := h.part_command hp hget
  refine ⟨hintent, ?_⟩
  cases hr : p.role with
  | source =>
    rw [hr, Config.place, if_neg (by decide)] at hplace
    exact absurd hplace.symm hcross
  | destination => rfl
  | localRole => exact absurd hcross (hrole.mp hr)

/-- On two shards no participant is local. -/
theorem Inv.status_decision (hget : known.get? id = some value) :
    (config.crossShard value.intent → statusAt w.part index id = some .confirmed → value.decision = some .commit) ∧
    (statusAt w.part index id = some .canceled → value.decision = some .cancel) := by
  constructor
  · intro hcross hs
    obtain ⟨p, hp, hstatus⟩ := Option.map_eq_some_iff.mp hs
    obtain ⟨-, -, hrole, hcommit, -⟩ := h.part_command hp hget
    exact hcommit (fun hl => hrole.mp hl hcross) hstatus
  · intro hs
    obtain ⟨p, hp, hstatus⟩ := Option.map_eq_some_iff.mp hs
    obtain ⟨-, -, -, -, hcancel⟩ := h.part_command hp hget
    exact hcancel hstatus

theorem Inv.settled (hget : known.get? id = some value) :
    Settled config value (statusAt w.part (config.indices value.intent).1 id)
      (statusAt w.part (config.indices value.intent).2 id) := by
  have hsame : ¬ config.crossShard value.intent →
      (config.indices value.intent).1 = (config.indices value.intent).2 := not_not.mp
  refine ⟨?_, ?_, ?_, ?_, ?_, ?_, ?_⟩
  · intro hlocal
    obtain ⟨value', hget', hintent, hkeeps⟩ := h.ahead.extends hget
    cases hd : value.decision with
    | none => rfl
    | some d =>
      have hnone := (h.consistent.commands id value' hget').isLocal (by rwa [hintent])
      rw [hkeeps d hd] at hnone
      cases hnone
  · rintro hcross (hs | hs)
    · exact (h.status_decision hget).1 hcross hs
    · exact (h.status_decision hget).1 hcross hs
  · intro hcross hs
    obtain ⟨p, hp, hstatus⟩ := Option.map_eq_some_iff.mp hs
    obtain ⟨hintent, hrole⟩ := h.part_destination hget hcross hp
    have := (h.consistent.participants _ _ _ hp).ordered hrole hstatus
    rwa [hintent] at this
  · intro hcross
    have hone : ∀ i j, ¬ (statusAt w.part i id = some .confirmed ∧ statusAt w.part j id = some .canceled) := by
      rintro i j ⟨hi, hj⟩
      have hcommit := (h.status_decision hget).1 hcross hi
      have hcancel := (h.status_decision hget).2 hj
      rw [hcommit] at hcancel
      cases hcancel
    exact ⟨hone _ _, fun hboth => hone _ _ hboth.symm⟩
  · intro hs
    have hend := h.ahead.terminal hget (by rw [hs]; exact (nomatch ·))
    obtain ⟨hleft, hright⟩ := (h.consistent.commands id value hend).succeeded hs
    by_cases hcross : config.crossShard value.intent
    · exact ⟨hleft, hright hcross⟩
    · rw [← hsame hcross]
      exact ⟨hleft, hleft⟩
  · intro hs
    have hend := h.ahead.terminal hget (by rw [hs]; exact (nomatch ·))
    exact ((h.consistent.commands id value hend).canceled hs).2
  · intro hs
    have hend := h.ahead.terminal hget (by rw [hs]; exact (nomatch ·))
    obtain ⟨hlocal, hleft⟩ := (h.consistent.commands id value hend).rejected hs
    rw [← hsame hlocal]
    exact ⟨hleft, hleft⟩

theorem Inv.commandErrors_eq (hget : known.get? id = some value) : commandErrors config w id value = [] := by
  have hset := h.settled hget
  have hfirst : conflicts (w.part (config.indices value.intent).1 id) value.intent
      (config.firstRole value.intent) = false := by
    cases hp : w.part (config.indices value.intent).1 id with
    | none => rfl
    | some p =>
      obtain ⟨hi, hr⟩ := h.part_source hget hp
      simp [conflicts, hi, hr]
  unfold commandErrors
  by_cases hcross : config.crossShard value.intent
  · have hsecond : conflicts (w.part (config.indices value.intent).2 id) value.intent .destination = false := by
      cases hp : w.part (config.indices value.intent).2 id with
      | none => rfl
      | some p =>
        obtain ⟨hi, hr⟩ := h.part_destination hget hcross hp
        simp [conflicts, hi, hr]
    rw [Config.firstRole, if_pos hcross] at hfirst
    have hcommitted := hset.committed hcross
    have hordered := hset.ordered hcross
    have hsucceeded := hset.succeeded
    have hcanceled := hset.canceled
    simp only [statusAt] at hcommitted hordered hsucceeded hcanceled
    have hne : ¬ (config.indices value.intent).1 = (config.indices value.intent).2 := hcross
    simp only [hne, if_false, crossErrors, hfirst, hsecond, report, Bool.false_eq_true,
      nil_append, append_eq_nil_iff, ite_eq_right_iff, reduceCtorEq, imp_false,
      Bool.and_eq_true, Bool.or_eq_true, decide_eq_true_eq, Prod.mk.injEq, ne_eq]
    refine ⟨⟨⟨?_, ?_⟩, ?_⟩, ?_⟩
    · rintro ⟨⟨hl, -⟩, hd⟩
      exact hd (hcommitted (.inl hl))
    · rintro ⟨hr, hl | hd⟩
      · exact hl (hordered hr)
      · exact hd (hcommitted (.inr hr))
    · rintro ⟨hs, hn⟩
      exact hn (hsucceeded hs)
    · rintro ⟨hs, hn⟩
      exact hn (hcanceled hs)
  · have heq : (config.indices value.intent).1 = (config.indices value.intent).2 := not_not.mp hcross
    rw [Config.firstRole, if_neg hcross] at hfirst
    have hsucceeded := hset.succeeded
    have hrejected := hset.rejected
    simp only [statusAt] at hsucceeded hrejected
    simp only [heq, if_true, localErrors, hset.isLocal hcross, report, heq ▸ hfirst,
      Bool.false_eq_true, if_false, append_nil, append_eq_nil_iff, ite_eq_right_iff,
      reduceCtorEq, imp_false, Bool.and_eq_true, decide_eq_true_eq, ne_eq, not_true_eq_false,
      decide_false, true_and]
    refine ⟨?_, ?_⟩
    · rintro ⟨hs, hn⟩
      exact hn (hrejected hs).2
    · rintro ⟨hs, hn⟩
      exact hn (hsucceeded hs).2

/-- Every participant belongs to a command. -/
theorem Inv.orphanErrors_eq (index : ℕ) : orphanErrors config known ((w.shards index).view index) = [] := by
  rw [orphanErrors, flatMap_eq_nil_iff]
  rintro ⟨id, p⟩ hmem
  have hp : w.part index id = some p := mem_entries.mp hmem
  obtain ⟨⟨v, hv, hintent, -⟩, ⟨hplace, -⟩, -, -⟩ := h.consistent.participants index id p hp
  have hindex : index = (config.indices p.intent).1 ∨ index = (config.indices p.intent).2 := by
    unfold Config.place at hplace
    split_ifs at hplace with hrole
    · exact .inr hplace
    · exact .inl hplace
  rcases hindex with hindex | hindex
  · simp [report, hv, hintent, Shard.view, ← hindex]
  · simp [report, hv, hintent, Shard.view, ← hindex]

theorem Inv.inTransit_eq : (known.entries.map fun entry => inTransit config w entry.1 entry.2).sum =
    known.sum (transit config w.part) := by
  have hone : ∀ entry ∈ known.entries, inTransit config w entry.1 entry.2 = transit config w.part entry.2 := by
    rintro ⟨id, value⟩ hmem
    have hid := h.consistent.filed id value (mem_entries.mp hmem)
    simp only [inTransit, transit, statusAt, hid, Config.crossShard]
  rw [map_congr_left hone, Dict.sum, Dict.values, map_map]
  rfl

/-- The events on a shard are bounded by the participants. -/
theorem Inv.rows_length (hknown : known.entries.length ≤ 1000) (index : ℕ) : (w.shards index).rows.length ≤ 2001 := by
  have hevents := (h.shards index).events
  have hkeys : (w.shards index).projection.parts.keys ⊆ known.keys := by
    intro id hid
    obtain ⟨p, hp⟩ := Dict.mem_keys.mp hid
    obtain ⟨v, hv, -⟩ := (h.consistent.participants index id p hp).command
    exact Dict.mem_keys.mpr ⟨v, hv⟩
  have hlength := (Nodup.subperm (w.shards index).projection.parts.nodup hkeys).length_le
  have hsum : (w.shards index).projection.parts.sum Part.events ≤
      2 * (w.shards index).projection.parts.entries.length := by
    unfold Dict.sum Dict.values
    have := sum_le_card_nsmul (((w.shards index).projection.parts.entries.map Prod.snd).map Part.events) 2 (by
        intro x hx
        obtain ⟨p, -, rfl⟩ := mem_map.mp hx
        unfold Part.events
        split <;> simp)
    simp only [length_map, nsmul_eq_mul] at this
    linarith
  simp only [Dict.keys, length_map] at hlength
  omega

theorem Inv.balance_le (hindex : index < config.shards) {b : Balance}
    (hb : b ∈ (w.shards index).projection.accounts.values) :
    (0 ≤ b.available ∧ b.available ≤ config.supply) ∧ 0 ≤ b.held ∧ b.held ≤ config.supply := by
  have hnonneg : ∀ i, ∀ b ∈ (w.shards i).projection.accounts.values, 0 ≤ b.total := by
    intro i b hb
    obtain ⟨ha, hh⟩ := (h.shards i).nonneg b hb
    exact add_nonneg ha hh
  have hshard : b.total ≤ (w.shards index).projection.total := by
    apply single_le_sum
    · intro x hx
      obtain ⟨b', hb', rfl⟩ := mem_map.mp hx
      exact hnonneg index b' hb'
    · exact mem_map_of_mem hb
  have hall : (w.shards index).projection.total ≤ walletTotal config w.shards := by
    rw [walletTotal_eq]
    exact Finset.single_le_sum (f := fun i => (w.shards i).projection.total)
      (fun i _ => Dict.sum_nonneg (hnonneg i)) (Finset.mem_range.mpr hindex)
  have htransit : 0 ≤ known.sum (transit config w.part) := by
    apply Dict.sum_nonneg
    intro value _
    unfold transit
    have := value.intent.bounds.1
    split_ifs
    · linarith
    · exact le_rfl
  have hmoney := h.money
  obtain ⟨ha, hh⟩ := (h.shards index).nonneg b hb
  simp only [Balance.total] at hshard
  exact ⟨⟨ha, by linarith⟩, hh, by linarith⟩

theorem Inv.shard_audit (index : ℕ) : (w.shards index).audit =
    .ok ⟨true, (w.shards index).rows.length, HashLog.head (w.shards index).rows⟩ := by
  simp [Shard.audit, (h.shards index).replayed]

theorem Inv.view_seq (index : ℕ) : ((w.shards index).view index).seq = (w.shards index).rows.length := by
  obtain ⟨last, hverify, -⟩ := of_bind (h.shards index).replayed
  have hne : (w.shards index).rows ≠ [] := by
    intro hnil
    have := (h.shards index).started
    simp [hnil] at this
  have hlast := getLast?_eq_some_getLast hne
  simp only [Shard.view, hlast, Option.map_some, Option.getD_some]
  exact HashLog.verify_getLast ShardEvent.toJson hverify hlast

theorem Inv.shardErrors_eq (hknown : known.entries.length ≤ 1000) (hindex : index < config.shards) :
    shardErrors config index ((w.shards index).view index)
      ⟨true, (w.shards index).rows.length, HashLog.head (w.shards index).rows⟩ = .ok [] := by
  have hrows := h.rows_length hknown index
  have hstarted := (h.shards index).started
  have hreceipt : isReceipt config ((w.shards index).view index)
      ⟨true, (w.shards index).rows.length, HashLog.head (w.shards index).rows⟩ = true := by
    rw [isReceipt, h.view_seq]
    simp only [isBounded, Bool.and_eq_true, decide_eq_true_eq, all_eq_true, Shard.view]
    refine ⟨⟨⟨⟨?_, ?_⟩, ?_⟩, ?_⟩, ?_⟩
    · exact ⟨decide_eq_true (Int.natCast_nonneg _), decide_eq_true (by omega)⟩
    · norm_num
      omega
    · norm_num
      omega
    · intro b hb
      exact h.balance_le hindex hb
    · intro p hp
      obtain ⟨id, hp⟩ := mem_values.mp hp
      have hlocal := (h.consistent.participants index id p hp).isLocal
      have hvalid : ¬ (p.role = .localRole ∧ p.status ≠ .confirmed ∧ p.status ≠ .rejected) := by
        rintro ⟨hr, hc, hj⟩
        rcases hlocal hr with hs | hs
        · exact hc hs
        · exact hj hs
      simp only [participant, ne_eq, not_true_eq_false, or_self, if_false]
      rw [if_neg hvalid]
      rfl
  have hkeys : ((w.shards index).view index).accounts.keys =
      config.accounts.keys.filter fun account => shardFor account config.shards = index := by
    rw [Shard.view, (h.shards index).keys]
    simp only [Dict.keys, Config.opening, map_map, Function.comp_def, filter_map]
  rw [shardErrors, if_neg (by rw [hreceipt]; intro; contradiction), hkeys]
  simp [report, Shard.view]

end

/-! ### The number of commands -/

variable {event : Event}

theorem projectEvent_length {state state' : Commands} (h : projectEvent state event = .ok state')
    (hget : state.get? event.id = some value) : state'.entries.length = state.entries.length := by
  obtain ⟨value', rfl, -⟩ := projectEvent_spec h
  exact length_set_of_some hget value'

/-- The log never holds more than a thousand transfers. -/
def LogBounded (w : System) : Prop := ∀ full, project w.log .empty = .ok full → full.entries.length ≤ 1000

variable {config : Config}
variable {w : System}

/-- An event on a command that exists adds none. -/
theorem LogBounded.append {w' : System} (h : LogBounded w) (hinv : Inv config w known full)
    (hget : full.get? event.id = some value) (hlog : w'.log = w.log ++ [event]) : LogBounded w' := by
  intro next hnext
  rw [hlog, project_append] at hnext
  obtain ⟨before, hbefore, hevent⟩ := hnext
  obtain rfl := Except.ok.inj (hbefore.symm.trans hinv.logged)
  rw [projectEvent_length hevent hget]
  exact h _ hbefore

theorem advance_id {left right : Option Part} (h : advance id value left right = .append event) :
    event.id = id := by
  unfold advance at h
  split at h
  · split_ifs at h
    · rw [← Act.append.inj h]
      rfl
    · rw [← Act.append.inj h]
      rfl
  · split_ifs at h
    rw [← Act.append.inj h]
    rfl
  · split_ifs at h
    rw [← Act.append.inj h]
    rfl

theorem LogBounded.step {w' : System} (h : LogBounded w) (hinv : Inv config w known full) (hstep : Step config w w') :
    LogBounded w' := by
  cases hstep with
  | @create commands body owner account hidle hsynced hstate hsource hdestination hnew hlimit =>
    intro next hnext
    rw [System.state, hsynced, take_length] at hstate
    obtain ⟨before, hbefore, hevent⟩ := project_append.mp hnext
    obtain rfl := Except.ok.inj (hbefore.symm.trans hstate)
    obtain ⟨value', rfl, -⟩ := projectEvent_spec hevent
    rw [Event.id, length_set_of_none hnew]
    exact hlimit
  | cancel hsees _ _ =>
    obtain ⟨rfl, hget, -⟩ := hinv.sees hsees
    exact h.append hinv (by exact hget) rfl
  | append _ hsees hact =>
    obtain ⟨rfl, hget, -⟩ := hinv.sees hsees
    rw [← advance_id hact] at hget
    exact h.append hinv hget rfl
  | completeLocal _ hsees _ =>
    obtain ⟨rfl, hget, -⟩ := hinv.sees hsees
    exact h.append hinv (by exact hget) rfl
  | _ => exact h

theorem Ahead.length_le (h : Ahead known full) : known.entries.length ≤ full.entries.length := by
  rcases h with rfl | ⟨event, hp⟩
  · exact le_rfl
  · obtain ⟨value', rfl, hcase⟩ := projectEvent_spec hp
    rcases hcase with ⟨hnone, -⟩ | ⟨old, hold, -⟩
    · rw [length_set_of_none hnone]
      exact Nat.le_succ _
    · rw [length_set_of_some hold]

theorem reachable_bounded (h : (wallet config).Reachable w) : LogBounded w := by
  apply h.invariant
  · rintro s rfl full hfull
    obtain rfl := Except.ok.inj hfull
    exact Nat.zero_le _
  · intro s s' hreach hb hstep
    obtain ⟨known, full, hinv⟩ := reachable_inv hreach
    exact hb.step hinv hstep

/-! ### The audit of a reachable state -/

theorem Inv.audit_eq (h : Inv config w known full) (hknown : known.entries.length ≤ 1000) : audit config w =
      .ok ⟨[], walletTotal config w.shards, known.sum (transit config w.part), config.supply⟩ := by
  let reply : ℕ → ℕ × View × Receipt := fun index => (index, (w.shards index).view index,
    ⟨true, (w.shards index).rows.length, HashLog.head (w.shards index).rows⟩)
  have hreplies : ((List.range config.shards).mapM fun index : ℕ => (do
      let check ← (w.shards index).audit
      return (index, (w.shards index).view index, check) : Py (ℕ × View × Receipt))) =
        .ok ((List.range config.shards).map reply) := by
    apply mapM_ok
    intro index _
    rw [h.shard_audit]
    rfl
  have hfound : ((List.range config.shards).map reply).mapM
      (fun reply => shardErrors config reply.1 reply.2.1 reply.2.2) =
        .ok (((List.range config.shards).map reply).map fun _ => []) := by
    apply mapM_ok
    intro r hr
    obtain ⟨index, hindex, rfl⟩ := mem_map.mp hr
    exact h.shardErrors_eq hknown (mem_range.mp hindex)
  have hnone : (((List.range config.shards).map reply).map fun _ => ([] : List String)).flatten = [] := by
    rw [flatten_eq_nil_iff]
    intro l hl
    obtain ⟨-, -, rfl⟩ := mem_map.mp hl
    rfl
  have hcommands : (known.entries.flatMap fun entry => commandErrors config w entry.1 entry.2) = [] := by
    rw [flatMap_eq_nil_iff]
    rintro ⟨id, value⟩ hmem
    exact h.commandErrors_eq (mem_entries.mp hmem)
  have horphans : (((List.range config.shards).map reply).flatMap fun reply =>
    orphanErrors config known reply.2.1) = [] := by
    rw [flatMap_eq_nil_iff]
    intro r hr
    obtain ⟨index, -, rfl⟩ := mem_map.mp hr
    exact h.orphanErrors_eq index
  have htotal : (((List.range config.shards).map reply).map fun reply =>
    reply.2.1.accounts.sum Balance.total).sum = walletTotal config w.shards := by
    rw [map_map]
    rfl
  have hchanged : (((List.range config.shards).map reply).any fun reply =>
    reply.2.2.events ≠ reply.2.1.seq || reply.2.2.head ≠ reply.2.1.head) = false := by
    rw [any_eq_false]
    intro r hr
    obtain ⟨index, -, rfl⟩ := mem_map.mp hr
    have hhead : ((w.shards index).view index).head = HashLog.head (w.shards index).rows := rfl
    simp [reply, h.view_seq, hhead]
  have hmatches : (((List.range config.shards).map reply).any fun reply => reply.2.2.isMatch = false) = false := by
    rw [any_eq_false]
    intro r hr
    obtain ⟨index, -, rfl⟩ := mem_map.mp hr
    simp [reply]
  rw [audit, hreplies, Py.bind_ok, hfound, Py.bind_ok, h.state, Py.bind_ok]
  simp only [hnone, hcommands, horphans, htotal, hchanged, hmatches, h.inTransit_eq, h.money,
    report, ne_eq, not_true_eq_false, decide_false, Bool.false_eq_true, if_false, append_nil,
    Py.pure_eq]

/-- The state after one transfer was created and committed. -/
def afterCreate : System := { System.init twoAccounts with log := [.accepted "t1" firstTransfer], committed := 1 }

theorem afterCreate_reachable : (wallet twoAccounts).Reachable afterCreate := by
  exact .step (.step (.start rfl) create_firstTransfer) .sync

end SystemDesign.Wallet
