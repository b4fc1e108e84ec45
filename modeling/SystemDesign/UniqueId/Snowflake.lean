import Mathlib.Data.Nat.Bitwise
import Mathlib.Data.List.Pairwise
import Mathlib.Tactic.Ring
import Mathlib.Tactic.Linarith

/-!
Snowflake identifiers: the generator (`snowflake.py`), its configuration
(`config.py`) and the parser (`parser.py`).

The clock is whatever it returns: each identifier takes one reading and, when its
millisecond is used up, the readings taken while waiting for the next one, up to
the deadline. A call that raises keeps the state it had reached.
-/

namespace SystemDesign.UniqueId

/-- `SnowflakeConfig` after `__post_init__`. -/
structure Config where
  timestampBits : ℕ
  datacenterBits : ℕ
  machineBits : ℕ
  sequenceBits : ℕ
  datacenterId : ℕ
  machineId : ℕ
  epochMs : ℤ
  positive : 0 < timestampBits ∧ 0 < datacenterBits ∧ 0 < machineBits ∧ 0 < sequenceBits
  total : timestampBits + datacenterBits + machineBits + sequenceBits = 63
  epochPos : 0 < epochMs
  datacenterFits : datacenterId ≤ (1 <<< datacenterBits) - 1
  machineFits : machineId ≤ (1 <<< machineBits) - 1

namespace Config

variable (c : Config)

def maxSequence : ℕ := (1 <<< c.sequenceBits) - 1

def maxTimestamp : ℕ := (1 <<< c.timestampBits) - 1

def timestampShift : ℕ := c.datacenterBits + c.machineBits + c.sequenceBits

def datacenterShift : ℕ := c.machineBits + c.sequenceBits

def machineShift : ℕ := c.sequenceBits

def nodePrefix : ℕ := (c.datacenterId <<< c.datacenterShift) ||| (c.machineId <<< c.machineShift)

/-- The bits of an identifier. -/
def compose (offset sequence : ℕ) : ℕ :=
  ((offset <<< c.timestampShift) ||| Config.nodePrefix c) ||| sequence

end Config

/-! ### The generator -/

inductive SnowflakeError where
  | clockMovedBackwards (last current : ℤ)
  | sequenceOverflow (last : ℤ) (maxSequence : ℕ)
  | valueError (message : String)
deriving DecidableEq

/-- What the generator keeps between calls. -/
structure Generator where
  lastTimestamp : ℤ
  sequence : ℕ

def Generator.init : Generator := ⟨-1, 0⟩

/-- What the clock shows one call: the first reading, and those up to the deadline of a wait. -/
structure Readings where
  first : ℤ
  waits : List ℤ

/-- `_wait_next_millis`. -/
def waitNextMillis (c : Config) (last : ℤ) : List ℤ → Except SnowflakeError ℤ
  | [] => .error (.sequenceOverflow last c.maxSequence)
  | timestamp :: rest =>
      if timestamp < last then .error (.clockMovedBackwards last timestamp)
      else if last < timestamp then .ok timestamp
      else waitNextMillis c last rest

/-- The timestamp and sequence number of the next identifier. -/
def nextTick (c : Config) (g : Generator) (clock : Readings) : Except SnowflakeError Generator :=
  if clock.first < g.lastTimestamp then .error (.clockMovedBackwards g.lastTimestamp clock.first)
  else if clock.first = g.lastTimestamp then
    let sequence := (g.sequence + 1) &&& c.maxSequence
    if sequence = 0 then
      match waitNextMillis c g.lastTimestamp clock.waits with
      | .ok timestamp => .ok ⟨timestamp, 0⟩
      | .error e => .error e
    else .ok ⟨clock.first, sequence⟩
  else .ok ⟨clock.first, 0⟩

/-- `_generate_locked`; the generator afterwards and the identifier. -/
def generateLocked (c : Config) (g : Generator) (clock : Readings) :
    Generator × Except SnowflakeError ℕ :=
  match nextTick c g clock with
  | .error e => (g, .error e)
  | .ok next =>
      let offset := next.lastTimestamp - c.epochMs
      if 0 ≤ offset ∧ offset ≤ c.maxTimestamp then
        (next, .ok (c.compose offset.toNat next.sequence))
      else (g, .error (.valueError "timestamp outside configured Snowflake bit range"))

/-- The loop of `generate_batch`. -/
def generateAll (c : Config) (g : Generator) : List Readings → Generator × Except SnowflakeError (List ℕ)
  | [] => (g, .ok [])
  | clock :: rest =>
      match generateLocked c g clock with
      | (g, .error e) => (g, .error e)
      | (g, .ok id) =>
          match generateAll c g rest with
          | (g, .error e) => (g, .error e)
          | (g, .ok ids) => (g, .ok (id :: ids))

/-- A call, with what the clock shows it. -/
inductive Call where
  | generate (clock : Readings)
  | generateBatch (count : ℤ) (clock : ℕ → Readings)

/-- One call; the generator afterwards and the identifiers it returns. -/
def call (c : Config) (g : Generator) : Call → Generator × Except SnowflakeError (List ℕ)
  | .generate clock =>
      match generateLocked c g clock with
      | (g, .ok id) => (g, .ok [id])
      | (g, .error e) => (g, .error e)
  | .generateBatch count clock =>
      if count ≤ 0 then (g, .error (.valueError ("count must be positive, got " ++ toString count)))
      else generateAll c g ((List.range count.toNat).map clock)

/-- The identifiers that a sequence of calls returns; a call that raises returns none. -/
def run (c : Config) (g : Generator) : List Call → List ℕ
  | [] => []
  | x :: rest =>
      match call c g x with
      | (g, .ok ids) => ids ++ run c g rest
      | (g, .error _) => run c g rest

/-! ### The parser -/

structure ParsedId where
  idValue : ℕ
  timestampMs : ℤ
  datacenterId : ℕ
  machineId : ℕ
  sequence : ℕ
deriving DecidableEq

/-- The last millisecond of the year 9999, the end of Python's `datetime`. -/
def maxDatetimeMs : ℤ := 253402300799999

/-- `IDParser.parse` on an integer. -/
def parse (c : Config) (id : ℤ) : Except SnowflakeError ParsedId :=
  if id < 0 then .error (.valueError ("ID must be non-negative, got " ++ toString id))
  else if 2 ^ 63 ≤ id then .error (.valueError ("ID exceeds 63 bits: " ++ toString id))
  else
    let value := id.toNat
    let sequence := value &&& ((1 <<< c.sequenceBits) - 1)
    let machine := (value >>> c.machineShift) &&& ((1 <<< c.machineBits) - 1)
    let datacenter := (value >>> c.datacenterShift) &&& ((1 <<< c.datacenterBits) - 1)
    let offset := (value >>> c.timestampShift) &&& ((1 <<< c.timestampBits) - 1)
    let timestamp := (offset : ℤ) + c.epochMs
    if maxDatetimeMs < timestamp then
      .error (.valueError "timestamp outside Python datetime range")
    else .ok ⟨value, timestamp, datacenter, machine, sequence⟩

/-- The parsed fields put together again. -/
def recompose (c : Config) (p : ParsedId) : ℕ :=
  (((p.timestampMs - c.epochMs).toNat <<< c.timestampShift) |||
    ((p.datacenterId <<< c.datacenterShift) ||| (p.machineId <<< c.machineShift))) ||| p.sequence

/-! ### Fields of an identifier -/

theorem one_shiftLeft (n : ℕ) : 1 <<< n = 2 ^ n := by rw [Nat.shiftLeft_eq, Nat.one_mul]

theorem pack_div {a b n : ℕ} (h : b < n) : (a * n + b) / n = a := by
  rw [Nat.add_comm, Nat.add_mul_div_right _ _ (Nat.zero_lt_of_lt h), Nat.div_eq_of_lt h, Nat.zero_add]

theorem pack_mod {a b n : ℕ} (h : b < n) : (a * n + b) % n = b := by
  rw [Nat.add_comm, Nat.add_mul_mod_self_right, Nat.mod_eq_of_lt h]

theorem pack_lt {a b n k : ℕ} (ha : a < k) (hb : b < n) : a * n + b < k * n := by
  calc a * n + b < a * n + n := Nat.add_lt_add_left hb _
    _ = (a + 1) * n := by ring
    _ ≤ k * n := Nat.mul_le_mul_right n ha

namespace Config

variable (c : Config)

theorem datacenter_lt : c.datacenterId < 2 ^ c.datacenterBits := by
  have := c.datacenterFits
  have := Nat.two_pow_pos c.datacenterBits
  rw [one_shiftLeft] at *
  omega

theorem machine_lt : c.machineId < 2 ^ c.machineBits := by
  have := c.machineFits
  have := Nat.two_pow_pos c.machineBits
  rw [one_shiftLeft] at *
  omega

/-- An identifier in mixed radix: timestamp, datacenter, machine, sequence. -/
def pack (offset datacenter machine sequence : ℕ) : ℕ :=
  ((offset * 2 ^ c.datacenterBits + datacenter) * 2 ^ c.machineBits + machine) * 2 ^ c.sequenceBits +
    sequence

theorem or_eq_pack {offset datacenter machine sequence : ℕ} (hd : datacenter < 2 ^ c.datacenterBits)
    (hm : machine < 2 ^ c.machineBits) (hs : sequence < 2 ^ c.sequenceBits) :
    ((offset <<< c.timestampShift) |||
      ((datacenter <<< c.datacenterShift) ||| (machine <<< c.machineShift))) ||| sequence =
      c.pack offset datacenter machine sequence := by
  have hmachine : machine <<< c.machineShift < 2 ^ c.datacenterShift := by
    rw [Nat.shiftLeft_eq, machineShift, datacenterShift, pow_add]
    exact Nat.mul_lt_mul_of_pos_right hm (Nat.two_pow_pos _)
  have hnode : (datacenter <<< c.datacenterShift) + (machine <<< c.machineShift) =
      (datacenter * 2 ^ c.machineBits + machine) * 2 ^ c.sequenceBits := by
    rw [Nat.shiftLeft_eq, Nat.shiftLeft_eq, machineShift, datacenterShift, pow_add]
    ring
  have hlt : (datacenter * 2 ^ c.machineBits + machine) * 2 ^ c.sequenceBits < 2 ^ c.timestampShift := by
    rw [timestampShift, pow_add, pow_add]
    exact Nat.mul_lt_mul_of_pos_right (pack_lt hd hm) (Nat.two_pow_pos _)
  have hshifted : (offset <<< c.timestampShift) + (datacenter * 2 ^ c.machineBits + machine) * 2 ^ c.sequenceBits =
      ((offset * 2 ^ c.datacenterBits + datacenter) * 2 ^ c.machineBits + machine) <<< c.sequenceBits := by
    rw [Nat.shiftLeft_eq, Nat.shiftLeft_eq, timestampShift, pow_add, pow_add]
    ring
  rw [← Nat.shiftLeft_add_eq_or_of_lt hmachine, hnode, ← Nat.shiftLeft_add_eq_or_of_lt hlt, hshifted,
    ← Nat.shiftLeft_add_eq_or_of_lt hs, Nat.shiftLeft_eq, pack]

theorem compose_eq {offset sequence : ℕ} (hs : sequence < 2 ^ c.sequenceBits) :
    c.compose offset sequence = c.pack offset c.datacenterId c.machineId sequence :=
  c.or_eq_pack c.datacenter_lt c.machine_lt hs

/-- The fields read back from a packed identifier. -/
theorem pack_fields {offset datacenter machine sequence : ℕ} (hd : datacenter < 2 ^ c.datacenterBits)
    (hm : machine < 2 ^ c.machineBits) (hs : sequence < 2 ^ c.sequenceBits) :
    c.pack offset datacenter machine sequence % 2 ^ c.sequenceBits = sequence ∧
      c.pack offset datacenter machine sequence / 2 ^ c.machineShift % 2 ^ c.machineBits = machine ∧
      c.pack offset datacenter machine sequence / 2 ^ c.datacenterShift % 2 ^ c.datacenterBits = datacenter ∧
      c.pack offset datacenter machine sequence / 2 ^ c.timestampShift = offset := by
  have htimestamp : 2 ^ c.timestampShift = 2 ^ c.sequenceBits * 2 ^ c.machineBits * 2 ^ c.datacenterBits := by
    rw [timestampShift, pow_add, pow_add]
    ring
  have hdatacenter : 2 ^ c.datacenterShift = 2 ^ c.sequenceBits * 2 ^ c.machineBits := by
    rw [datacenterShift, pow_add, Nat.mul_comm]
  refine ⟨pack_mod hs, ?_, ?_, ?_⟩
  · rw [machineShift, pack, pack_div hs, pack_mod hm]
  · rw [hdatacenter, ← Nat.div_div_eq_div_mul, pack, pack_div hs, pack_div hm, pack_mod hd]
  · rw [htimestamp, ← Nat.div_div_eq_div_mul, ← Nat.div_div_eq_div_mul, pack, pack_div hs, pack_div hm, pack_div hd]

theorem pack_lt_total {offset datacenter machine sequence : ℕ} (ho : offset < 2 ^ c.timestampBits)
    (hd : datacenter < 2 ^ c.datacenterBits) (hm : machine < 2 ^ c.machineBits)
    (hs : sequence < 2 ^ c.sequenceBits) : c.pack offset datacenter machine sequence < 2 ^ 63 := by
  rw [← c.total, pow_add, pow_add, pow_add]
  exact pack_lt (pack_lt (pack_lt ho hd) hm) hs

end Config

/-! ### One identifier -/

section
variable {c : Config} {g g' : Generator}

/-- Time and sequence number in one number. -/
def rank (c : Config) (g : Generator) : ℤ := g.lastTimestamp * 2 ^ c.sequenceBits + g.sequence

def Good (c : Config) (g : Generator) : Prop := g.sequence < 2 ^ c.sequenceBits

theorem good_init : Good c .init := Nat.two_pow_pos _

theorem rank_lt_of_lt (hg : Good c g) (h : g.lastTimestamp < g'.lastTimestamp) : rank c g < rank c g' := by
  have hpos : (0 : ℤ) < 2 ^ c.sequenceBits := by positivity
  have hseq : (g.sequence : ℤ) < 2 ^ c.sequenceBits := by exact_mod_cast hg
  have hmul : (g.lastTimestamp + 1) * 2 ^ c.sequenceBits ≤ g'.lastTimestamp * 2 ^ c.sequenceBits :=
    mul_le_mul_of_nonneg_right h hpos.le
  unfold rank
  have := Int.natCast_nonneg g'.sequence
  linarith

theorem waitNextMillis_lt {last timestamp : ℤ} {waits : List ℤ}
    (h : waitNextMillis c last waits = .ok timestamp) : last < timestamp := by
  induction waits with
  | nil => cases h
  | cons t rest ih =>
    simp only [waitNextMillis] at h
    split_ifs at h with hback hnext
    · exact Except.ok.inj h ▸ hnext
    · exact ih h

/-- The next tick is a later millisecond, or the same one and the next sequence number. -/
theorem nextTick_spec {clock : Readings} (hg : Good c g) (h : nextTick c g clock = .ok g') :
    Good c g' ∧ rank c g < rank c g' := by
  unfold nextTick at h
  have hfresh : Good c ⟨g'.lastTimestamp, 0⟩ := Nat.two_pow_pos _
  split_ifs at h with hback hsame
  · dsimp only at h
    split_ifs at h with hzero
    · cases hwait : waitNextMillis c g.lastTimestamp clock.waits with
      | error e =>
        rw [hwait] at h
        cases h
      | ok timestamp =>
        rw [hwait] at h
        obtain rfl := Except.ok.inj h
        exact ⟨hfresh, rank_lt_of_lt hg (waitNextMillis_lt hwait)⟩
    · obtain rfl := Except.ok.inj h
      rw [Config.maxSequence, one_shiftLeft, Nat.and_two_pow_sub_one_eq_mod] at hzero ⊢
      -- The sequence number did not wrap around, so it is the successor.
      have hnext : (g.sequence + 1) % 2 ^ c.sequenceBits = g.sequence + 1 := by
        have hle : g.sequence + 1 ≤ 2 ^ c.sequenceBits := hg
        rcases hle.lt_or_eq with hlt | heq
        · exact Nat.mod_eq_of_lt hlt
        · rw [heq, Nat.mod_self] at hzero
          exact absurd rfl hzero
      refine ⟨Nat.mod_lt _ (Nat.two_pow_pos _), ?_⟩
      unfold rank
      rw [hnext, hsame]
      push_cast
      linarith
  · obtain rfl := Except.ok.inj h
    exact ⟨hfresh, rank_lt_of_lt hg (lt_of_le_of_ne (not_lt.mp hback) (Ne.symm hsame))⟩

/-- An identifier was composed from this timestamp and sequence number. -/
structure ComposedFrom (c : Config) (at' : Generator) (id : ℕ) : Prop where
  good : Good c at'
  low : 0 ≤ at'.lastTimestamp - c.epochMs
  high : at'.lastTimestamp - c.epochMs ≤ c.maxTimestamp
  eq : id = c.compose (at'.lastTimestamp - c.epochMs).toNat at'.sequence

theorem generateLocked_spec {clock : Readings} (hg : Good c g) {result : Except SnowflakeError ℕ}
    (h : generateLocked c g clock = (g', result)) :
    (∃ e, result = .error e ∧ g' = g) ∨ ∃ id, result = .ok id ∧ ComposedFrom c g' id ∧ rank c g < rank c g' := by
  unfold generateLocked at h
  cases htick : nextTick c g clock with
  | error e =>
    rw [htick] at h
    obtain ⟨rfl, rfl⟩ := Prod.mk.inj h
    exact .inl ⟨e, rfl, rfl⟩
  | ok next =>
    rw [htick] at h
    dsimp only at h
    split_ifs at h with hrange
    · obtain ⟨rfl, rfl⟩ := Prod.mk.inj h
      obtain ⟨hgood, hrank⟩ := nextTick_spec hg htick
      exact .inr ⟨_, rfl, ⟨hgood, hrange.1, hrange.2, rfl⟩, hrank⟩
    · obtain ⟨rfl, rfl⟩ := Prod.mk.inj h
      exact .inl ⟨_, rfl, rfl⟩

namespace ComposedFrom

variable {a b : Generator} {id id' : ℕ}

/-- The offset of the timestamp, and its field. -/
theorem offset (h : ComposedFrom c a id) : ∃ offset : ℕ, a.lastTimestamp - c.epochMs = offset ∧
    offset < 2 ^ c.timestampBits ∧ id = c.pack offset c.datacenterId c.machineId a.sequence := by
  refine ⟨(a.lastTimestamp - c.epochMs).toNat, (Int.toNat_of_nonneg h.low).symm, ?_, ?_⟩
  · have hhigh := h.high
    have hpos := Nat.two_pow_pos c.timestampBits
    rw [Config.maxTimestamp, one_shiftLeft] at hhigh
    omega
  · rw [h.eq, c.compose_eq h.good]

theorem lt_total (h : ComposedFrom c a id) : id < 2 ^ 63 := by
  obtain ⟨offset, -, hoffset, rfl⟩ := h.offset
  exact c.pack_lt_total hoffset c.datacenter_lt c.machine_lt h.good

/-- Identifiers of one generator are ordered as their ranks. -/
theorem lt (h : ComposedFrom c a id) (h' : ComposedFrom c b id') (hrank : rank c a < rank c b) : id < id' := by
  obtain ⟨o, ho, -, rfl⟩ := h.offset
  obtain ⟨o', ho', -, rfl⟩ := h'.offset
  have hranks : o * 2 ^ c.sequenceBits + a.sequence < o' * 2 ^ c.sequenceBits + b.sequence := by
    have ha : a.lastTimestamp = o + c.epochMs := by omega
    have hb : b.lastTimestamp = o' + c.epochMs := by omega
    unfold rank at hrank
    rw [ha, hb] at hrank
    zify
    linarith
  have hsplit : ∀ o s : ℕ, c.pack o c.datacenterId c.machineId s =
      o * (2 ^ c.datacenterBits * 2 ^ c.machineBits * 2 ^ c.sequenceBits) +
        ((c.datacenterId * 2 ^ c.machineBits + c.machineId) * 2 ^ c.sequenceBits + s) := by
    intro o s
    rw [Config.pack]
    ring
  rw [hsplit, hsplit]
  rcases lt_trichotomy o o' with hlt | rfl | hgt
  · have hnode : (c.datacenterId * 2 ^ c.machineBits + c.machineId) * 2 ^ c.sequenceBits +
        a.sequence < 2 ^ c.datacenterBits * 2 ^ c.machineBits * 2 ^ c.sequenceBits :=
      pack_lt (pack_lt c.datacenter_lt c.machine_lt) h.good
    exact (pack_lt hlt hnode).trans_le (Nat.le_add_right _ _)
  · omega
  · have hback := hranks.trans (pack_lt hgt h'.good)
    exact absurd hback (Nat.not_lt.mpr (Nat.le_add_right _ _))

/-- Two nodes of one layout and epoch have no identifier in common. -/
theorem node_eq {c' : Config} (h : ComposedFrom c a id) (h' : ComposedFrom c' b id)
    (hdatacenter : c'.datacenterBits = c.datacenterBits) (hmachine : c'.machineBits = c.machineBits)
    (hsequence : c'.sequenceBits = c.sequenceBits) :
    c.datacenterId = c'.datacenterId ∧ c.machineId = c'.machineId := by
  obtain ⟨o, -, -, hid⟩ := h.offset
  obtain ⟨o', -, -, hid'⟩ := h'.offset
  obtain ⟨-, hm, hd, -⟩ := @c.pack_fields o _ _ _ c.datacenter_lt c.machine_lt h.good
  obtain ⟨-, hm', hd', -⟩ := @c'.pack_fields o' _ _ _ c'.datacenter_lt c'.machine_lt h'.good
  rw [← hid] at hm hd
  rw [← hid'] at hm' hd'
  rw [Config.machineShift, hmachine, hsequence] at hm'
  rw [Config.datacenterShift, hdatacenter, hmachine, hsequence] at hd'
  exact ⟨hd.symm.trans hd', hm.symm.trans hm'⟩

theorem parse_eq (h : ComposedFrom c a id) (htime : a.lastTimestamp ≤ maxDatetimeMs) :
    parse c id = .ok ⟨id, a.lastTimestamp, c.datacenterId, c.machineId, a.sequence⟩ := by
  have hlt := h.lt_total
  obtain ⟨o, ho, hbound, hid⟩ := h.offset
  obtain ⟨hs, hm, hd, hoff⟩ := @c.pack_fields o _ _ _ c.datacenter_lt c.machine_lt h.good
  rw [← hid] at hs hm hd hoff
  have htimestamp : (o : ℤ) + c.epochMs = a.lastTimestamp := by omega
  have hneg : ¬ (id : ℤ) < 0 := by omega
  have hbits : ¬ (2 : ℤ) ^ 63 ≤ id := by
    push Not
    exact_mod_cast hlt
  simp only [parse, hneg, hbits, if_false, Int.toNat_natCast, one_shiftLeft,
    Nat.and_two_pow_sub_one_eq_mod, Nat.shiftRight_eq_div_pow, hs, hm, hd, hoff,
    Nat.mod_eq_of_lt hbound, htimestamp, not_lt.mpr htime]

end ComposedFrom

/-- Composing the parsed fields gives the identifier back. -/
theorem recompose_parse {id : ℤ} {p : ParsedId} (h : parse c id = .ok p) : (recompose c p : ℤ) = id := by
  unfold parse at h
  split_ifs at h with hneg hbits
  dsimp only at h
  split_ifs at h with htime
  obtain rfl := Except.ok.inj h
  obtain ⟨n, rfl⟩ := Int.eq_ofNat_of_zero_le (not_lt.mp hneg)
  have hn : n < 2 ^ 63 := by
    have := not_le.mp hbits
    exact_mod_cast this
  have hoffset : n / 2 ^ c.timestampShift < 2 ^ c.timestampBits := by
    apply Nat.div_lt_of_lt_mul
    rw [← pow_add]
    have hsum : c.timestampShift + c.timestampBits = 63 := by
      have := c.total
      unfold Config.timestampShift
      omega
    rw [hsum]
    exact hn
  simp only [recompose, Int.toNat_natCast, one_shiftLeft, Nat.and_two_pow_sub_one_eq_mod,
    Nat.shiftRight_eq_div_pow, add_sub_cancel_right]
  rw [c.or_eq_pack (Nat.mod_lt _ (Nat.two_pow_pos _)) (Nat.mod_lt _ (Nat.two_pow_pos _))
    (Nat.mod_lt _ (Nat.two_pow_pos _)), Nat.mod_eq_of_lt hoffset, Config.pack, Config.timestampShift,
    Config.datacenterShift, Config.machineShift, add_assoc, Nat.add_comm c.machineBits,
    Nat.add_comm c.datacenterBits, pow_add, pow_add, ← Nat.div_div_eq_div_mul,
    ← Nat.div_div_eq_div_mul, Nat.div_add_mod', Nat.div_add_mod', Nat.div_add_mod']

end

/-! ### Runs -/

section
variable {c : Config} {g g' : Generator}

/-- What a call that returned `ids` did. -/
structure Issued (c : Config) (g g' : Generator) (ids : List ℕ) : Prop where
  good : Good c g'
  le : rank c g ≤ rank c g'
  increasing : ids.Pairwise (· < ·)
  composed : ∀ id ∈ ids, ∃ a, ComposedFrom c a id ∧ rank c g < rank c a ∧ rank c a ≤ rank c g'

theorem Issued.nothing (hg : Good c g) : Issued c g g [] :=
  ⟨hg, le_rfl, .nil, fun _ h => nomatch h⟩

theorem Issued.append {g₁ g₂ g₃ : Generator} {ids ids' : List ℕ} (h : Issued c g₁ g₂ ids)
    (h' : Issued c g₂ g₃ ids') : Issued c g₁ g₃ (ids ++ ids') := by
  refine ⟨h'.good, h.le.trans h'.le, ?_, fun id hid => ?_⟩
  · rw [List.pairwise_append]
    refine ⟨h.increasing, h'.increasing, fun id hid id' hid' => ?_⟩
    obtain ⟨a, ha, -, hle⟩ := h.composed id hid
    obtain ⟨b, hb, hlt, -⟩ := h'.composed id' hid'
    exact ha.lt hb (hle.trans_lt hlt)
  · rcases List.mem_append.mp hid with hid | hid
    · obtain ⟨a, ha, hlt, hle⟩ := h.composed id hid
      exact ⟨a, ha, hlt, hle.trans h'.le⟩
    · obtain ⟨a, ha, hlt, hle⟩ := h'.composed id hid
      exact ⟨a, ha, h.le.trans_lt hlt, hle⟩

theorem generateLocked_issued {clock : Readings} (hg : Good c g)
    {result : Except SnowflakeError ℕ} (h : generateLocked c g clock = (g', result)) :
    Issued c g g' result.toOption.toList := by
  rcases generateLocked_spec hg h with ⟨e, rfl, rfl⟩ | ⟨id, rfl, hid, hrank⟩
  · exact .nothing hg
  · refine ⟨hid.good, hrank.le, List.pairwise_singleton _ _, fun x hx => ?_⟩
    obtain rfl : x = id := by simpa [Except.toOption] using hx
    exact ⟨g', hid, hrank, le_rfl⟩

/-- A batch; if it raises, the identifiers it had made are lost and never made again. -/
theorem generateAll_issued {clocks : List Readings} (hg : Good c g)
    {result : Except SnowflakeError (List ℕ)} (h : generateAll c g clocks = (g', result)) :
    Good c g' ∧ rank c g ≤ rank c g' ∧ ∀ ids, result = .ok ids → Issued c g g' ids := by
  induction clocks generalizing g g' result with
  | nil =>
    obtain ⟨rfl, rfl⟩ := Prod.mk.inj h
    refine ⟨hg, le_rfl, fun ids hids => ?_⟩
    obtain rfl := Except.ok.inj hids
    exact .nothing hg
  | cons clock rest ih =>
    simp only [generateAll] at h
    rcases hfirst : generateLocked c g clock with ⟨g₁, first⟩
    have hissued := generateLocked_issued hg hfirst
    rw [hfirst] at h
    cases first with
    | error e =>
      obtain ⟨rfl, rfl⟩ := Prod.mk.inj h
      exact ⟨hissued.good, hissued.le, fun ids hids => nomatch hids⟩
    | ok id =>
      dsimp only at h
      rcases hrest : generateAll c g₁ rest with ⟨g₂, others⟩
      obtain ⟨hgood, hle, hok⟩ := ih hissued.good hrest
      rw [hrest] at h
      cases others with
      | error e =>
        obtain ⟨rfl, rfl⟩ := Prod.mk.inj h
        exact ⟨hgood, hissued.le.trans hle, fun ids hids => nomatch hids⟩
      | ok ids =>
        obtain ⟨rfl, rfl⟩ := Prod.mk.inj h
        refine ⟨hgood, hissued.le.trans hle, fun ids' hids' => ?_⟩
        obtain rfl := Except.ok.inj hids'
        exact hissued.append (hok ids rfl)

theorem call_issued {x : Call} (hg : Good c g) {result : Except SnowflakeError (List ℕ)}
    (h : call c g x = (g', result)) :
    Good c g' ∧ rank c g ≤ rank c g' ∧ ∀ ids, result = .ok ids → Issued c g g' ids := by
  cases x with
  | generate clock =>
    simp only [call] at h
    rcases hfirst : generateLocked c g clock with ⟨g₁, first⟩
    have hissued := generateLocked_issued hg hfirst
    rw [hfirst] at h
    cases first with
    | error e =>
      obtain ⟨rfl, rfl⟩ := Prod.mk.inj h
      exact ⟨hissued.good, hissued.le, fun ids hids => nomatch hids⟩
    | ok id =>
      obtain ⟨rfl, rfl⟩ := Prod.mk.inj h
      refine ⟨hissued.good, hissued.le, fun ids hids => ?_⟩
      obtain rfl := Except.ok.inj hids
      exact hissued
  | generateBatch count clock =>
    simp only [call] at h
    split_ifs at h with hcount
    · obtain ⟨rfl, rfl⟩ := Prod.mk.inj h
      exact ⟨hg, le_rfl, fun ids hids => nomatch hids⟩
    · exact generateAll_issued hg h

/-- Whatever the calls and the clock, the returned identifiers only grow. -/
theorem run_issued (hg : Good c g) (calls : List Call) : ∃ g', Issued c g g' (run c g calls) := by
  induction calls generalizing g with
  | nil => exact ⟨g, .nothing hg⟩
  | cons x rest ih =>
    rcases hcall : call c g x with ⟨g₁, result⟩
    obtain ⟨hgood, hle, hok⟩ := call_issued hg hcall
    obtain ⟨g₂, hrest⟩ := ih hgood
    simp only [run, hcall]
    cases result with
    | error e =>
      refine ⟨g₂, hrest.good, hle.trans hrest.le, hrest.increasing, fun id hid => ?_⟩
      obtain ⟨a, ha, hlt, hle'⟩ := hrest.composed id hid
      exact ⟨a, ha, hle.trans_lt hlt, hle'⟩
    | ok ids => exact ⟨g₂, (hok ids rfl).append hrest⟩

end

/-- A layout whose timestamps go far beyond the year 9999. -/
def longLived : Config where
  timestampBits := 60
  datacenterBits := 1
  machineBits := 1
  sequenceBits := 1
  datacenterId := 0
  machineId := 0
  epochMs := 1
  positive := by decide
  total := rfl
  epochPos := by decide
  datacenterFits := by decide
  machineFits := by decide

end SystemDesign.UniqueId
