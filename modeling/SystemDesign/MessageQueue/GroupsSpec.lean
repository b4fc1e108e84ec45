import SystemDesign.MessageQueue.Groups

/-!
Fencing of consumer groups.

A generation fixes who owns a partition: every change of the members or of the
partitions starts a new one, and a member whose lease ran out stays expired
because the clock does not run backwards. `groups_fenced` follows from one
invariant over the tables and the history of accepted requests.
-/

namespace SystemDesign.MessageQueue

open List hiding le_antisymm le_total not_lt
open Function (update update_of_ne update_self)

variable {τ : Type}

/-! ### Checks -/

theorem name_eq_ok {s : String} {u : Unit} : name s = .ok u ↔ isName s = true := by
  unfold name
  split_ifs with h <;> simp [h]

theorem integer_eq_ok {value minimum maximum : ℤ} {u : Unit} :
    integer value minimum maximum = .ok u ↔ minimum ≤ value ∧ value ≤ maximum := by
  unfold integer
  split_ifs with h <;> simp [h]

variable {topic : String} {t : Topic τ} {ts : Topics τ}

theorem topic_eq_ok : ts.topic topic = .ok t ↔ isName topic = true ∧ ts topic = some t := by
  unfold Topics.topic
  rw [Py.bind_eq_ok]
  constructor
  · rintro ⟨u, hname, h⟩
    refine ⟨name_eq_ok.mp hname, ?_⟩
    cases ht : ts topic with
    | none => simp [ht] at h
    | some t' =>
      simp only [ht] at h
      rw [Except.ok.inj h]
  · rintro ⟨hname, ht⟩
    exact ⟨(), name_eq_ok.mpr hname, by simp [ht]⟩

variable {partition : ℕ}

theorem part_eq_ok {r : Range} (h : ts.part topic partition = .ok r) :
    ∃ t, ts topic = some t ∧ partition < t.partitions ∧ r = t.ranges partition := by
  obtain ⟨t, ht, h⟩ := Py.bind_eq_ok.mp h
  obtain ⟨u, -, h⟩ := Py.bind_eq_ok.mp h
  split_ifs at h with hlt
  exact ⟨t, (topic_eq_ok.mp ht).2, hlt, (Except.ok.inj h).symm⟩

/-! ### Groups -/

variable {g : Group τ} {group : String}

theorem group_eq_some : ts.group topic group = some g ↔ ∃ t, ts topic = some t ∧ t.groups group = some g := by
  unfold Topics.group
  rw [Option.bind_eq_some_iff]

theorem group_setGroup (ht : ts topic = some t) (g : Group τ) (topic' group' : String) :
    (ts.setGroup topic group g).group topic' group' =
      if topic' = topic ∧ group' = group then some g else ts.group topic' group' := by
  unfold Topics.group Topics.setGroup
  by_cases htopic : topic' = topic
  · subst htopic
    by_cases hgroup : group' = group
    · simp [ht, hgroup]
    · simp [ht, hgroup]
  · simp [htopic]

theorem setGroup_self (ht : ts topic = some t) (g : Group τ) :
    ts.setGroup topic group g topic = some { t with groups := update t.groups group (some g) } := by
  rw [Topics.setGroup, update_self, ht]
  rfl

theorem getD_group (ht : ts topic = some t) (g : Group τ) :
    ((ts.setGroup topic group g).group topic group).getD (.fresh τ) = g := by
  rw [group_setGroup ht, if_pos ⟨rfl, rfl⟩]
  rfl

/-- Replacing the rows of a group leaves the rest of every topic. -/
theorem setGroup_topic {topic' : String} {t' : Topic τ} (h : ts.setGroup topic group g topic' = some t') :
    ∃ t, ts topic' = some t ∧ t'.partitions = t.partitions ∧ t'.ranges = t.ranges := by
  unfold Topics.setGroup at h
  by_cases htopic : topic' = topic
  · subst htopic
    rw [update_self] at h
    obtain ⟨t, ht, rfl⟩ := Option.map_eq_some_iff.mp h
    exact ⟨t, ht, rfl, rfl⟩
  · rw [update_of_ne htopic] at h
    exact ⟨t', h, rfl, rfl⟩

/-- The members with their sessions, in order. -/
def Group.roster (g : Group τ) : List (String × String) := g.members.entries.map fun e => (e.1, e.2.session)

/-- The owner of a partition. -/
def Group.owner (g : Group τ) (p : ℕ) : Option (String × String) := g.roster[p % g.roster.length]?

theorem roster_length (g : Group τ) : g.roster.length = g.members.entries.length := by
  simp [Group.roster]

variable {member session : String}

theorem roster_insert {expires : τ} (h : (g.members.get? member).map Member.session = some session) :
    Group.roster { g with members := g.members.insert member ⟨session, expires⟩ } = g.roster := by
  have hsame : (g.members.insert member ⟨session, expires⟩).mapVal Member.session =
      g.members.mapVal Member.session := by
    apply SortedMap.ext_get?
    intro k
    rw [SortedMap.get?_mapVal, SortedMap.get?_mapVal, SortedMap.get?_insert]
    split_ifs with hk
    · rw [hk, h]
      rfl
    · rfl
  exact congrArg SortedMap.entries hsame

theorem mem_insert_entries {m : SortedMap String (Member τ)} {k : String} {v : Member τ}
    {e : String × Member τ} (h : e ∈ (m.insert k v).entries) : e = (k, v) ∨ e ∈ m.entries := by
  obtain ⟨k', v'⟩ := e
  have hget := SortedMap.mem_entries.mp h
  rw [SortedMap.get?_insert] at hget
  split_ifs at hget with hk
  · left
    rw [hk, ← Option.some.inj hget]
  · exact .inr (SortedMap.mem_entries.mpr hget)

/-- A member's own key and session are the owner exactly when its key is in turn. -/
theorem owner_eq_some {p : ℕ} :
    g.owner p = some (member, session) ↔
      (g.members.get? member).map Member.session = some session ∧
        g.members.keys[p % g.members.keys.length]? = some member := by
  have hlen : g.members.keys.length = g.members.entries.length := by simp [SortedMap.keys]
  rw [Group.owner, roster_length, hlen]
  simp only [Group.roster, SortedMap.keys, getElem?_map, Option.map_eq_some_iff, Prod.mk.injEq, Prod.exists]
  constructor
  · rintro ⟨k, row, hrow, rfl, rfl⟩
    have hget := SortedMap.mem_entries.mp (mem_of_getElem? hrow)
    exact ⟨⟨row, hget, rfl⟩, k, row, hrow, rfl⟩
  · rintro ⟨⟨row, hget, rfl⟩, k, row', hrow, rfl⟩
    have hget' := SortedMap.mem_entries.mp (mem_of_getElem? hrow)
    obtain rfl := Option.some.inj (hget.symm.trans hget')
    exact ⟨k, row, hrow, rfl, rfl⟩

theorem mem_assigned {partitions p : ℕ} (hsession : (g.members.get? member).map Member.session = some session) :
    p ∈ g.assigned partitions member ↔ p < partitions ∧ g.owner p = some (member, session) := by
  rw [Group.assigned, mem_filter, mem_range, decide_eq_true_eq, owner_eq_some]
  exact and_congr_right fun _ => ⟨fun h => ⟨hsession, h⟩, fun h => h.2⟩

/-- How the rows of a group may change: a new generation, or the same owners. -/
structure Evolves (g g' : Group τ) : Prop where
  generation : g.generation ≤ g'.generation
  roster : g'.generation = g.generation → g'.roster = g.roster

theorem Evolves.refl (g : Group τ) : Evolves g g := ⟨le_rfl, fun _ => rfl⟩

theorem Evolves.trans {g₁ g₂ g₃ : Group τ} (h : Evolves g₁ g₂) (h' : Evolves g₂ g₃) :
    Evolves g₁ g₃ := by
  refine ⟨h.generation.trans h'.generation, fun heq => ?_⟩
  have h₁ := h.generation
  have h₂ := h'.generation
  rw [h'.roster (by omega), h.roster (by omega)]

theorem Evolves.owner {g g' : Group τ} (h : Evolves g g') (heq : g'.generation = g.generation)
    (p : ℕ) : g'.owner p = g.owner p := by
  rw [Group.owner, Group.owner, h.roster heq]

theorem Evolves.regenerate (g : Group τ) (members : SortedMap String (Member τ)) :
    Evolves g (g.regenerate members) := by
  refine ⟨Nat.le_succ _, fun heq => ?_⟩
  simp [Group.regenerate] at heq

/-- Every group stays, with its cursors. -/
def KeepsCursors (ts ts' : Topics τ) : Prop :=
  ∀ topic group g, ts.group topic group = some g → ∃ g', ts'.group topic group = some g' ∧ g'.cursors = g.cursors

theorem KeepsCursors.trans {ts₁ ts₂ ts₃ : Topics τ} (h : KeepsCursors ts₁ ts₂)
    (h' : KeepsCursors ts₂ ts₃) : KeepsCursors ts₁ ts₃ := by
  intro topic group g hg
  obtain ⟨g', hg', hcursors⟩ := h topic group g hg
  obtain ⟨g'', hg'', hcursors'⟩ := h' topic group g' hg'
  exact ⟨g'', hg'', hcursors'.trans hcursors⟩

theorem KeepsCursors.setGroup {g' : Group τ} (ht : ts topic = some t)
    (h : ∀ g, ts.group topic group = some g → g'.cursors = g.cursors) :
    KeepsCursors ts (ts.setGroup topic group g') := by
  intro topic' group' g hg
  rw [group_setGroup ht]
  split_ifs with hthis
  · obtain ⟨rfl, rfl⟩ := hthis
    exact ⟨g', rfl, h g hg⟩
  · exact ⟨g, hg, rfl⟩

theorem keeps_setRange {range r : Range} (hrange : ts.part topic partition = .ok range) :
    KeepsCursors ts (ts.setRange topic partition r) := by
  obtain ⟨t, ht, -, -⟩ := part_eq_ok hrange
  intro topic' group' g hg
  refine ⟨g, ?_, rfl⟩
  obtain ⟨t', ht', hlisted⟩ := group_eq_some.mp hg
  by_cases htopic : topic' = topic
  · subst htopic
    simp [Topics.group, Topics.setRange, ht', hlisted]
  · simp [Topics.group, Topics.setRange, htopic, ht', hlisted]

/-! ### The invariant -/

/-- Two requests in the same generation of a group, on the same partition. -/
def Accepted.SameTurn (a b : Accepted) : Prop :=
  a.topic = b.topic ∧ a.group = b.group ∧ a.generation = b.generation ∧ a.partition = b.partition

/-- The rows of one group, against the ranges of its topic and the history. -/
structure GroupOk (ranges : ℕ → Range) (history : List Accepted) (topic group : String)
    (g : Group τ) : Prop where
  names : isName group = true ∧ ∀ e ∈ g.members.entries, isName e.1 = true ∧ isName e.2.session = true
  cursors : ∀ p, g.cursors p ≤ (ranges p).hwm + 1
  /-- A delivery bound was delivered, in this generation. -/
  delivered : ∀ p n next, g.delivered p = some (n, next) → n = g.generation ∧
    next ≤ (ranges p).hwm + 1 ∧ ∃ a ∈ history, a.topic = topic ∧ a.group = group ∧
      a.generation = n ∧ a.partition = p ∧ a.effect = .fetched next

theorem GroupOk.older {ranges : ℕ → Range} {history : List Accepted} (h : GroupOk ranges history topic group g)
    (a : Accepted) : GroupOk ranges (a :: history) topic group g := by
  refine ⟨h.names, h.cursors, fun p n next hd => ?_⟩
  obtain ⟨hn, hle, b, hb, hback⟩ := h.delivered p n next hd
  exact ⟨hn, hle, b, mem_cons_of_mem _ hb, hback⟩

structure TopicOk (topic : String) (t : Topic τ) : Prop where
  named : isName topic = true
  bounded : t.partitions ≤ 64
  unused : ∀ p, t.partitions ≤ p → t.ranges p = ⟨-1, 0⟩
  hwm : ∀ p, -1 ≤ (t.ranges p).hwm

structure Ok (s : State τ) : Prop where
  topics : ∀ topic t, s.topics topic = some t → TopicOk topic t
  groups : ∀ topic group t g, s.topics topic = some t → s.topics.group topic group = some g →
    GroupOk t.ranges s.history topic group g
  /-- An accepted request is of the group's generation, and then from its owner, or older. -/
  history : ∀ a ∈ s.history, ∃ g, s.topics.group a.topic a.group = some g ∧
    a.generation ≤ g.generation ∧
    (a.generation = g.generation → g.owner a.partition = some (a.member, a.session))
  owners : ∀ a ∈ s.history, ∀ b ∈ s.history, a.SameTurn b → a.member = b.member ∧ a.session = b.session
  committed : ∀ a ∈ s.history, ∀ next, a.effect = .committed next →
    ∃ b ∈ s.history, b.SameTurn a ∧ ∃ m, b.effect = .fetched m ∧ next ≤ m
  /-- A running fetch holds its cursor. -/
  fetching : ∀ topic p f, s.fetching topic p = some f →
    ∃ g, s.topics.group topic f.group = some g ∧ g.cursors p = f.offset

section
variable {s : State τ} {topic group : String} {t : Topic τ}

theorem Ok.setGroup (h : Ok s) (ht : s.topics topic = some t) {g' : Group τ}
    (hevolves : ∀ g, s.topics.group topic group = some g → Evolves g g')
    (hcursors : ∀ g p, s.topics.group topic group = some g → s.fetching topic p ≠ none → g'.cursors p = g.cursors p)
    (hok : GroupOk t.ranges s.history topic group g') :
    Ok { s with topics := s.topics.setGroup topic group g' } := by
  refine ⟨fun topic' t' ht' => ?_, fun topic' group' t' g ht' hg => ?_, fun a ha => ?_, h.owners,
    h.committed, fun topic' p f hf => ?_⟩
  · obtain ⟨t₀, ht₀, hpartitions, hranges⟩ := setGroup_topic ht'
    have hok := h.topics topic' t₀ ht₀
    exact ⟨hok.named, hpartitions ▸ hok.bounded, hpartitions ▸ hranges ▸ hok.unused, hranges ▸ hok.hwm⟩
  · obtain ⟨t₀, ht₀, -, hranges⟩ := setGroup_topic ht'
    rw [group_setGroup ht] at hg
    rw [hranges]
    split_ifs at hg with hthis
    · obtain ⟨rfl, rfl⟩ := hthis
      obtain rfl := Option.some.inj hg
      obtain rfl := Option.some.inj (ht.symm.trans ht₀)
      exact hok
    · exact h.groups topic' group' t₀ g ht₀ hg
  · obtain ⟨g, hg, hle, howner⟩ := h.history a ha
    simp only [group_setGroup ht]
    split_ifs with hthis
    · obtain ⟨hthis, hthis'⟩ := hthis
      rw [hthis, hthis'] at hg
      have hev := hevolves g hg
      refine ⟨g', rfl, hle.trans hev.generation, fun heq => ?_⟩
      have hsame : g'.generation = g.generation := by
        have := hev.generation
        omega
      rw [hev.owner hsame]
      exact howner (heq.trans hsame)
    · exact ⟨g, hg, hle, howner⟩
  · obtain ⟨g, hg, hcursor⟩ := h.fetching topic' p f hf
    simp only [group_setGroup ht]
    split_ifs with hthis
    · obtain ⟨rfl, hthis⟩ := hthis
      rw [hthis] at hg
      refine ⟨g', rfl, ?_⟩
      rw [hcursors g p hg (by rw [hf]; exact (nomatch ·))]
      exact hcursor
    · exact ⟨g, hg, hcursor⟩

theorem Ok.at (h : Ok s) (now : τ) : Ok { s with now := now } :=
  ⟨h.topics, h.groups, h.history, h.owners, h.committed, h.fetching⟩

theorem Ok.setFetching (h : Ok s) {p : ℕ} {f : Option Fetch}
    (hf : ∀ f', f = some f' → ∃ g, s.topics.group topic f'.group = some g ∧
      g.cursors p = f'.offset) : Ok (s.setFetching topic p f) := by
  refine ⟨h.topics, h.groups, h.history, h.owners, h.committed, fun topic' q f' hf' => ?_⟩
  simp only [State.setFetching] at hf'
  by_cases htopic : topic' = topic
  · subst htopic
    rw [update_self] at hf'
    by_cases hq : q = p
    · subst hq
      rw [update_self] at hf'
      exact hf f' hf'
    · rw [update_of_ne hq] at hf'
      exact h.fetching topic' q f' hf'
  · rw [update_of_ne htopic] at hf'
    exact h.fetching topic' q f' hf'

/-- A request is accepted from the owner in the stored generation. -/
theorem Ok.accept (h : Ok s) {a : Accepted} {g : Group τ} (hg : s.topics.group a.topic a.group = some g)
    (hgeneration : g.generation = a.generation) (howner : g.owner a.partition = some (a.member, a.session))
    (hbound : ∀ next, a.effect = .committed next →
      ∃ b ∈ s.history, b.SameTurn a ∧ ∃ m, b.effect = .fetched m ∧ next ≤ m) :
    Ok { s with history := a :: s.history } := by
  -- Whoever was accepted in this turn before was the same owner.
  have hsame : ∀ b ∈ s.history, b.SameTurn a → b.member = a.member ∧ b.session = a.session := by
    rintro b hb ⟨htopic, hgroup, hturn, hpartition⟩
    obtain ⟨g', hg', -, howner'⟩ := h.history b hb
    rw [htopic, hgroup] at hg'
    obtain rfl := Option.some.inj (hg.symm.trans hg')
    have := howner' (hturn.trans hgeneration.symm)
    rw [hpartition, howner] at this
    obtain ⟨hm, hs⟩ := Prod.mk.inj (Option.some.inj this)
    exact ⟨hm.symm, hs.symm⟩
  refine ⟨h.topics, fun topic' group' t' g' ht' hg' => ?_, fun b hb => ?_, fun b hb c hc hturn => ?_,
    fun b hb next hnext => ?_, h.fetching⟩
  · obtain ⟨hnames, hcursors, hdelivered⟩ := h.groups topic' group' t' g' ht' hg'
    refine ⟨hnames, hcursors, fun p n next hd => ?_⟩
    obtain ⟨hn, hle, b, hb, hback⟩ := hdelivered p n next hd
    exact ⟨hn, hle, b, mem_cons_of_mem _ hb, hback⟩
  · rcases mem_cons.mp hb with rfl | hb
    · exact ⟨g, hg, hgeneration.ge, fun _ => howner⟩
    · exact h.history b hb
  · rcases mem_cons.mp hb with hb | hold
    · rcases mem_cons.mp hc with hc | hold'
      · rw [hb, hc]
        exact ⟨rfl, rfl⟩
      · rw [hb] at hturn ⊢
        obtain ⟨h₁, h₂, h₃, h₄⟩ := hturn
        obtain ⟨hm, hs⟩ := hsame c hold' ⟨h₁.symm, h₂.symm, h₃.symm, h₄.symm⟩
        exact ⟨hm.symm, hs.symm⟩
    · rcases mem_cons.mp hc with hc | hold'
      · rw [hc] at hturn ⊢
        exact hsame b hold hturn
      · exact h.owners b hold c hold' hturn
  · rcases mem_cons.mp hb with rfl | hb
    · obtain ⟨c, hc, hback⟩ := hbound next hnext
      exact ⟨c, mem_cons_of_mem _ hc, hback⟩
    · obtain ⟨c, hc, hback⟩ := h.committed b hb next hnext
      exact ⟨c, mem_cons_of_mem _ hc, hback⟩

theorem Ok.create (h : Ok s) {partitions : ℕ} {ts : Topics τ}
    (hcreate : create s.topics topic partitions = .ok ts) : Ok { s with topics := ts } := by
  obtain ⟨_, hname, hcreate⟩ := Py.bind_eq_ok.mp hcreate
  obtain ⟨_, hbound, hcreate⟩ := Py.bind_eq_ok.mp hcreate
  split_ifs at hcreate with hexists
  obtain rfl := Except.ok.inj hcreate
  have hnone : s.topics topic = none := by simpa using hexists
  have hgroup : ∀ topic' group', Topics.group (update s.topics topic
      (some ⟨partitions, fun _ => ⟨-1, 0⟩, fun _ => none⟩)) topic' group' =
        s.topics.group topic' group' := by
    intro topic' group'
    by_cases htopic : topic' = topic
    · subst htopic
      simp [Topics.group, hnone]
    · simp [Topics.group, htopic]
  refine ⟨fun topic' t' ht' => ?_, fun topic' group' t' g ht' hg => ?_, fun a ha => ?_, h.owners,
    h.committed, fun topic' p f hf => ?_⟩
  · dsimp only at ht'
    by_cases htopic : topic' = topic
    · subst htopic
      rw [update_self] at ht'
      obtain rfl := Option.some.inj ht'
      have := (integer_eq_ok.mp hbound).2
      exact ⟨name_eq_ok.mp hname, by dsimp only; omega, fun _ _ => rfl, fun _ => le_rfl⟩
    · rw [update_of_ne htopic] at ht'
      exact h.topics topic' t' ht'
  · dsimp only at ht' hg
    rw [hgroup] at hg
    by_cases htopic : topic' = topic
    · subst htopic
      simp [Topics.group, hnone] at hg
    · rw [update_of_ne htopic] at ht'
      exact h.groups topic' group' t' g ht' hg
  · simp only [hgroup]
    exact h.history a ha
  · simp only [hgroup]
    exact h.fetching topic' p f hf

/-- More partitions: every group of the topic starts a new generation. -/
theorem Ok.expand (h : Ok s) {partitions : ℕ} {ts : Topics τ}
    (hexpand : expand s.topics topic partitions = .ok ts) : Ok { s with topics := ts } := by
  obtain ⟨_, hbound, hexpand⟩ := Py.bind_eq_ok.mp hexpand
  obtain ⟨t, ht, hexpand⟩ := Py.bind_eq_ok.mp hexpand
  obtain ⟨hname, ht⟩ := topic_eq_ok.mp ht
  split_ifs at hexpand with hfewer
  obtain rfl := Except.ok.inj hexpand
  have hold := h.topics topic t ht
  have hranges : (fun p => if p < t.partitions then t.ranges p else ⟨-1, 0⟩) = t.ranges := by
    funext p
    split_ifs with hp
    · rfl
    · exact (hold.unused p (not_lt.mp hp)).symm
  rw [hranges]
  have hgroup : ∀ topic' group', Topics.group (update s.topics topic (some
      ⟨partitions, t.ranges, fun group => (t.groups group).map fun g => g.regenerate g.members⟩))
        topic' group' = (s.topics.group topic' group').map fun g =>
          if topic' = topic then g.regenerate g.members else g := by
    intro topic' group'
    by_cases htopic : topic' = topic
    · subst htopic
      simp [Topics.group, ht]
    · simp [Topics.group, htopic]
  have hback : ∀ {topic' group' g}, (s.topics.group topic' group').map (fun g =>
    if topic' = topic then g.regenerate g.members else g) = some g →
      ∃ g₀, s.topics.group topic' group' = some g₀ ∧ (g = g₀ ∨ topic' = topic ∧ g = g₀.regenerate g₀.members) := by
    intro topic' group' g hg
    obtain ⟨g₀, hg₀, rfl⟩ := Option.map_eq_some_iff.mp hg
    split_ifs with htopic
    · exact ⟨g₀, hg₀, .inr ⟨htopic, rfl⟩⟩
    · exact ⟨g₀, hg₀, .inl rfl⟩
  refine ⟨fun topic' t' ht' => ?_, fun topic' group' t' g ht' hg => ?_, fun a ha => ?_, h.owners,
    h.committed, fun topic' p f hf => ?_⟩
  · dsimp only at ht'
    by_cases htopic : topic' = topic
    · subst htopic
      rw [update_self] at ht'
      obtain rfl := Option.some.inj ht'
      have := (integer_eq_ok.mp hbound).2
      refine ⟨hname, by dsimp only; omega, fun p hp => hold.unused p ?_, hold.hwm⟩
      dsimp only at hp
      omega
    · rw [update_of_ne htopic] at ht'
      exact h.topics topic' t' ht'
  · dsimp only at ht' hg
    rw [hgroup] at hg
    obtain ⟨g₀, hg₀, hcase⟩ := hback hg
    obtain ⟨t₀, ht₀, -⟩ := group_eq_some.mp hg₀
    have hsame : t'.ranges = t₀.ranges := by
      by_cases htopic : topic' = topic
      · subst htopic
        rw [update_self] at ht'
        obtain rfl := Option.some.inj ht'
        obtain rfl := Option.some.inj (ht.symm.trans ht₀)
        rfl
      · rw [update_of_ne htopic] at ht'
        obtain rfl := Option.some.inj (ht'.symm.trans ht₀)
        rfl
    have hok := h.groups topic' group' t₀ g₀ ht₀ hg₀
    rw [hsame]
    rcases hcase with rfl | ⟨-, rfl⟩
    · exact hok
    · exact ⟨hok.names, hok.cursors, fun p n next hd => nomatch hd⟩
  · obtain ⟨g, hg, hle, howner⟩ := h.history a ha
    simp only [hgroup, hg, Option.map_some]
    by_cases htopic : a.topic = topic
    · rw [if_pos htopic]
      refine ⟨_, rfl, hle.trans (Nat.le_succ _), fun heq => ?_⟩
      simp only [Group.regenerate] at heq
      omega
    · rw [if_neg htopic]
      exact ⟨g, rfl, hle, howner⟩
  · obtain ⟨g, hg, hcursor⟩ := h.fetching topic' p f hf
    simp only [hgroup, hg, Option.map_some]
    split_ifs
    · exact ⟨_, rfl, hcursor⟩
    · exact ⟨g, rfl, hcursor⟩

/-- The high water of a partition does not fall. -/
theorem Ok.setRange (h : Ok s) {partition : ℕ} {range : Range} {r : Range}
    (hrange : s.topics.part topic partition = .ok range) (hle : range.hwm ≤ r.hwm) :
    Ok { s with topics := s.topics.setRange topic partition r } := by
  obtain ⟨t, ht, hlt, rfl⟩ := part_eq_ok hrange
  have hgroup : ∀ topic' group', (s.topics.setRange topic partition r).group topic' group' =
      s.topics.group topic' group' := by
    intro topic' group'
    by_cases htopic : topic' = topic
    · subst htopic
      simp [Topics.group, Topics.setRange, ht]
    · simp [Topics.group, Topics.setRange, htopic]
  have htopics : ∀ topic' t', s.topics.setRange topic partition r topic' = some t' →
      ∃ t₀, s.topics topic' = some t₀ ∧ t'.partitions = t₀.partitions ∧
        (∀ p, (t₀.ranges p).hwm ≤ (t'.ranges p).hwm) ∧
        ∀ p, t₀.partitions ≤ p → t'.ranges p = t₀.ranges p := by
    intro topic' t' ht'
    by_cases htopic : topic' = topic
    · subst htopic
      rw [Topics.setRange, update_self, ht] at ht'
      obtain rfl := Option.some.inj ht'
      refine ⟨t, ht, rfl, fun p => ?_, fun p hp => ?_⟩
      · by_cases hp : p = partition
        · subst hp
          simpa using hle
        · simp [hp]
      · exact update_of_ne (by omega) _ _
    · rw [Topics.setRange, update_of_ne htopic] at ht'
      exact ⟨t', ht', rfl, fun _ => le_rfl, fun _ _ => rfl⟩
  refine ⟨fun topic' t' ht' => ?_, fun topic' group' t' g ht' hg => ?_, fun a ha => ?_, h.owners,
    h.committed, fun topic' p f hf => ?_⟩
  · obtain ⟨t₀, ht₀, hpartitions, hhwm, hunused⟩ := htopics topic' t' ht'
    have hok := h.topics topic' t₀ ht₀
    refine ⟨hok.named, hpartitions ▸ hok.bounded, fun p hp => ?_, fun p => (hok.hwm p).trans (hhwm p)⟩
    rw [hpartitions] at hp
    rw [hunused p hp]
    exact hok.unused p hp
  · obtain ⟨t₀, ht₀, -, hhwm, -⟩ := htopics topic' t' ht'
    dsimp only at hg
    rw [hgroup] at hg
    obtain ⟨hnames, hcursors, hdelivered⟩ := h.groups topic' group' t₀ g ht₀ hg
    refine ⟨hnames, fun p => ?_, fun p n next hd => ?_⟩
    · have := hhwm p
      have := hcursors p
      omega
    · obtain ⟨hn, hnext, hback⟩ := hdelivered p n next hd
      have := hhwm p
      exact ⟨hn, by omega, hback⟩
  · simp only [hgroup]
    exact h.history a ha
  · simp only [hgroup]
    exact h.fetching topic' p f hf

end

/-! ### Expiry -/

variable [LinearOrder τ]

theorem expire_evolves (now : τ) (g : Group τ) : Evolves g (g.expire now) := by
  unfold Group.expire
  dsimp only
  split_ifs with hlen
  · exact .refl g
  · refine ⟨Nat.le_succ _, fun heq => ?_⟩
    simp at heq

theorem expire_cursors (now : τ) (g : Group τ) : (g.expire now).cursors = g.cursors := by
  unfold Group.expire
  dsimp only
  split_ifs <;> rfl

variable {now : τ}

/-- Members that expire take the delivery bounds with them. -/
theorem expire_delivered {p : ℕ} {d : ℕ × ℤ} (h : (g.expire now).delivered p = some d) : g.expire now = g := by
  unfold Group.expire at h ⊢
  dsimp only at h ⊢
  split_ifs at h ⊢ with hlen
  · rfl

theorem expire_members {e : String × Member τ} (h : e ∈ (g.expire now).members.entries) : e ∈ g.members.entries := by
  unfold Group.expire at h
  dsimp only at h
  split_ifs at h
  · exact h
  · exact (mem_filter.mp h).1

/-! ### What a membership check establishes -/

/-- A request that `_membership` let through; `g` is its group without the expired members. -/
structure Admitted (now : τ) (ts : Topics τ) (topic group member session : String)
    (generation partition : Option ℕ) (t : Topic τ) (stored : Group τ) : Prop where
  found : ts topic = some t
  listed : t.groups group = some stored
  names : (isName topic = true ∧ isName group = true) ∧ isName member = true ∧ isName session = true
  sameSession : ((stored.expire now).members.get? member).map Member.session = some session
  sameGeneration : ∀ n, generation = some n → (stored.expire now).generation = n ∧ n ≤ maxInteger
  owns : ∀ p, partition = some p → (p ≤ 63 ∧ p < t.partitions) ∧ (stored.expire now).owner p = some (member, session)

theorem optional_eq_ok {value : Option ℕ} {maximum : ℤ} {u : Unit} :
    optional (value.map fun n : ℕ => (n : ℤ)) 0 maximum = .ok u ↔ ∀ n, value = some n → (n : ℤ) ≤ maximum := by
  cases value with
  | none => simp [optional]
  | some n =>
    simp only [optional, Option.map_some, integer_eq_ok, Option.some.injEq, forall_eq']
    exact ⟨fun h => h.2, fun h => ⟨Int.natCast_nonneg n, h⟩⟩

variable {generation : Option ℕ}

theorem membership_eq_ok {ts' : Topics τ} {partition : Option ℕ} {a : Assignment} :
    membership now ts topic group member session generation partition = .ok (ts', a) ↔
      ∃ t stored, Admitted now ts topic group member session generation partition t stored ∧
        ts' = ts.setGroup topic group (stored.expire now) ∧
        a = ⟨(stored.expire now).generation, (stored.expire now).assigned t.partitions member, session, member⟩ := by
  unfold membership
  constructor
  · intro h
    obtain ⟨_, htopic, h⟩ := Py.bind_eq_ok.mp h
    obtain ⟨_, hgroup, h⟩ := Py.bind_eq_ok.mp h
    obtain ⟨_, hmember, h⟩ := Py.bind_eq_ok.mp h
    obtain ⟨_, hsession, h⟩ := Py.bind_eq_ok.mp h
    obtain ⟨_, hgeneration, h⟩ := Py.bind_eq_ok.mp h
    obtain ⟨_, hpartition, h⟩ := Py.bind_eq_ok.mp h
    cases hstored : ts.group topic group with
    | none => simp [hstored] at h
    | some stored =>
      rw [hstored, Option.map_some] at h
      dsimp only at h
      split_ifs at h with hrow hfence
      obtain ⟨t, ht, h⟩ := Py.bind_eq_ok.mp h
      split_ifs at h with hassigned
      obtain ⟨rfl, rfl⟩ := Prod.mk.inj (Except.ok.inj h)
      obtain ⟨-, ht⟩ := topic_eq_ok.mp ht
      obtain ⟨t', ht', hgroups⟩ := group_eq_some.mp hstored
      obtain rfl := Option.some.inj (ht.symm.trans ht')
      rw [ne_eq, not_not] at hrow hfence
      refine ⟨t, stored, ⟨ht, hgroups, ⟨⟨name_eq_ok.mp htopic, name_eq_ok.mp hgroup⟩,
        name_eq_ok.mp hmember, name_eq_ok.mp hsession⟩, hrow, fun n hn => ?_, fun p hp => ?_⟩,
        rfl, rfl⟩
      · refine ⟨?_, optional_eq_ok.mp hgeneration n hn⟩
        rw [hn, Option.getD_some] at hfence
        exact hfence.symm
      · have hmem : p ∈ (stored.expire now).assigned t.partitions member := by
          rw [hp] at hassigned
          simpa using hassigned
        obtain ⟨hlt, howner⟩ := (mem_assigned hrow).mp hmem
        have hbound := optional_eq_ok.mp hpartition p hp
        exact ⟨⟨by omega, hlt⟩, howner⟩
  · rintro ⟨t, stored, h, rfl, rfl⟩
    have hgeneration : optional (generation.map fun n : ℕ => (n : ℤ)) 0 maxInteger = .ok () :=
      optional_eq_ok.mpr fun n hn => (h.sameGeneration n hn).2
    have hpartition : optional (partition.map fun n : ℕ => (n : ℤ)) 0 63 = .ok () :=
      optional_eq_ok.mpr fun p hp => by
        have := (h.owns p hp).1.1
        omega
    have hfence : generation.getD (stored.expire now).generation = (stored.expire now).generation := by
      cases hg : generation with
      | none => rfl
      | some n => exact (h.sameGeneration n hg).1.symm
    have hassigned : partition.all (fun p => p ∈ (stored.expire now).assigned t.partitions member) =
        true := by
      cases hp : partition with
      | none => rfl
      | some p =>
        have hmem := (mem_assigned h.sameSession).mpr ⟨(h.owns p hp).1.2, (h.owns p hp).2⟩
        simpa using hmem
    have hname : ∀ {s : String}, isName s = true → name s = .ok () := name_eq_ok.mpr
    rw [hname h.names.1.1, hname h.names.1.2, hname h.names.2.1, hname h.names.2.2, hgeneration,
      hpartition, group_eq_some.mpr ⟨t, h.found, h.listed⟩]
    simp only [Py.bind_ok, Option.map_some, h.sameSession, ne_eq, not_true_eq_false, if_false, hfence,
      topic_eq_ok.mpr ⟨h.names.1.1, h.found⟩, hassigned, Bool.true_eq_false]

/-! ### Steps -/

section
variable {s : State τ} {topic group : String} {t : Topic τ}

theorem GroupOk.expire {ranges : ℕ → Range} {history : List Accepted} {g : Group τ}
    (h : GroupOk ranges history topic group g) (now : τ) : GroupOk ranges history topic group (g.expire now) := by
  refine ⟨⟨h.names.1, fun e he => h.names.2 e (expire_members he)⟩, ?_, fun p n next hd => ?_⟩
  · rw [expire_cursors]
    exact h.cursors
  · have hsame := expire_delivered hd
    rw [hsame] at hd ⊢
    exact h.delivered p n next hd

section
variable {now : τ} {member session : String} {generation partition : Option ℕ} {stored : Group τ}

theorem Admitted.in_group (hm : Admitted now s.topics topic group member session generation partition t
    stored) : s.topics.group topic group = some stored := group_eq_some.mpr ⟨t, hm.found, hm.listed⟩

/-- An admitted request has its group's expiry applied. -/
theorem Ok.admitted (h : Ok s) (hm : Admitted now s.topics topic group member session generation
    partition t stored) : Ok { s with topics := s.topics.setGroup topic group (stored.expire now) } := by
  apply h.setGroup hm.found
  · intro g hg
    obtain rfl := Option.some.inj (hm.in_group.symm.trans hg)
    exact expire_evolves now stored
  · intro g p hg _
    obtain rfl := Option.some.inj (hm.in_group.symm.trans hg)
    rw [expire_cursors]
  · exact (h.groups topic group t stored hm.found hm.in_group).expire now

theorem Ok.admitted_then (hm : Admitted now s.topics topic group member session generation
    partition t stored) {g' : Group τ} {history' : List Accepted} (hok : Ok { s with
      topics := s.topics.setGroup topic group (stored.expire now)
      history := history' }) (hevolves : Evolves (stored.expire now) g')
    (hcursors : ∀ p, s.fetching topic p ≠ none → g'.cursors p = stored.cursors p)
    (hgroup : GroupOk t.ranges history' topic group g') :
    Ok { s with
      topics := (s.topics.setGroup topic group (stored.expire now)).setGroup topic group g'
      history := history' } := by
  have hself : (s.topics.setGroup topic group (stored.expire now)).group topic group = some (stored.expire now) := by
    rw [group_setGroup hm.found, if_pos ⟨rfl, rfl⟩]
  apply hok.setGroup (setGroup_self hm.found _)
  · intro g hg
    obtain rfl := Option.some.inj (hself.symm.trans hg)
    exact hevolves
  · intro g p hg hp
    obtain rfl := Option.some.inj (hself.symm.trans hg)
    rw [expire_cursors]
    exact hcursors p hp
  · exact hgroup

end

variable {member session : String} {ts : Topics τ} {deadline : τ → τ}

theorem Ok.join (h : Ok s) {n₁ n₂ n₃ : τ} {result : Assignment} (hsession : isName session = true)
    (hjoin : join deadline n₁ n₂ n₃ s.topics topic group member session = .ok (ts, result)) :
    Ok { s with topics := ts } := by
  obtain ⟨_, hgroup, hjoin⟩ := Py.bind_eq_ok.mp hjoin
  obtain ⟨_, hmember, hjoin⟩ := Py.bind_eq_ok.mp hjoin
  obtain ⟨t, ht, hjoin⟩ := Py.bind_eq_ok.mp hjoin
  obtain ⟨-, ht⟩ := topic_eq_ok.mp ht
  obtain ⟨t', stored, hm, rfl, -⟩ := membership_eq_ok.mp hjoin
  refine Ok.admitted (s := { s with topics := _ }) ?_ hm
  apply h.setGroup ht
  · intro g hg
    rw [hg, Option.getD_some]
    exact (expire_evolves n₁ g).trans (.regenerate _ _)
  · intro g p hg _
    rw [hg, Option.getD_some, Group.regenerate, expire_cursors]
  · have hold : GroupOk t.ranges s.history topic group ((s.topics.group topic group).getD (.fresh τ)) := by
      cases hg : s.topics.group topic group with
      | none =>
        refine ⟨⟨name_eq_ok.mp hgroup, fun e he => nomatch he⟩, fun p => ?_, fun p n next hd => nomatch hd⟩
        have := (h.topics topic t ht).hwm p
        simp only [Option.getD_none, Group.fresh]
        omega
      | some g => exact h.groups topic group t g ht hg
    have hexpired := hold.expire n₁
    refine ⟨⟨hexpired.names.1, fun e he => ?_⟩, hexpired.cursors, fun p n next hd => nomatch hd⟩
    rcases mem_insert_entries he with rfl | he
    · exact ⟨name_eq_ok.mp hmember, hsession⟩
    · exact hexpired.names.2 e he

theorem Ok.heartbeat (h : Ok s) {n₁ n₂ : τ} {result : Assignment}
    (hbeat : heartbeat deadline n₁ n₂ s.topics topic group member session = .ok (ts, result)) :
    Ok { s with topics := ts } := by
  obtain ⟨⟨ts₁, a⟩, hmem, hbeat⟩ := Py.bind_eq_ok.mp hbeat
  obtain ⟨t, stored, hm, rfl, -⟩ := membership_eq_ok.mp hmem
  dsimp only at hbeat
  rw [getD_group hm.found] at hbeat
  obtain ⟨rfl, -⟩ := Prod.mk.inj (Except.ok.inj hbeat)
  have hexpired := (h.groups topic group t stored hm.found hm.in_group).expire n₁
  apply Ok.admitted_then hm (h.admitted hm)
  · exact ⟨le_rfl, fun _ => roster_insert hm.sameSession⟩
  · intro p _
    exact congrFun (expire_cursors n₁ stored) p
  · refine ⟨⟨hexpired.names.1, fun e he => ?_⟩, hexpired.cursors, hexpired.delivered⟩
    rcases mem_insert_entries he with rfl | he
    · exact hm.names.2
    · exact hexpired.names.2 e he

variable {now : τ}

theorem Ok.leave (h : Ok s) {generation : ℕ}
    (hleave : leave now s.topics topic group member session = .ok (ts, generation)) : Ok { s with topics := ts } := by
  obtain ⟨⟨ts₁, a⟩, hmem, hleave⟩ := Py.bind_eq_ok.mp hleave
  obtain ⟨t, stored, hm, rfl, -⟩ := membership_eq_ok.mp hmem
  dsimp only at hleave
  rw [getD_group hm.found] at hleave
  obtain ⟨rfl, -⟩ := Prod.mk.inj (Except.ok.inj hleave)
  have hexpired := (h.groups topic group t stored hm.found hm.in_group).expire now
  apply Ok.admitted_then hm (h.admitted hm) (.regenerate _ _)
  · intro p _
    exact congrFun (expire_cursors now stored) p
  · refine ⟨⟨hexpired.names.1, fun e he => ?_⟩, hexpired.cursors, fun p n next hd => nomatch hd⟩
    exact hexpired.names.2 e (mem_filter.mp he).1

theorem scan_next (now : τ) (filters : Option (List String)) (next : ℤ) (values : List (Envelope τ)) :
    next ≤ (scan now filters next values).next ∧ (scan now filters next values).next ≤ next + values.length := by
  induction values generalizing next with
  | nil => simp [scan]
  | cons value values ih =>
    obtain ⟨hlow, hhigh⟩ := ih (next + 1)
    simp only [scan, length_cons]
    push_cast
    split_ifs with hdue hshown
    · dsimp only
      exact ⟨le_rfl, by omega⟩
    · dsimp only
      exact ⟨by omega, by omega⟩
    · exact ⟨by omega, by omega⟩

/-- A page starts at its offset and ends within the committed range. -/
theorem fetch_next {range : Range} {read : ℤ → Py (List (Envelope τ))} {offset limit : ℤ}
    {filters : Option (List String)} {page : Page τ} (h : fetch now range read offset limit filters = .ok page) :
    0 ≤ offset ∧ offset ≤ page.next ∧ page.next ≤ range.hwm + 1 := by
  obtain ⟨_, hoffset, h⟩ := Py.bind_eq_ok.mp h
  obtain ⟨_, hlimit, h⟩ := Py.bind_eq_ok.mp h
  have hpos := (integer_eq_ok.mp hoffset).1
  split_ifs at h with hfloor hbeyond hend
  · obtain rfl := Except.ok.inj h
    exact ⟨hpos, le_rfl, hend.le⟩
  · obtain ⟨values, -, h⟩ := Py.bind_eq_ok.mp h
    split_ifs at h with hvalues
    obtain rfl := Except.ok.inj h
    obtain ⟨hlow, hhigh⟩ := scan_next now filters offset values
    have hlen := not_lt.mp fun hlt => hvalues (.inr hlt)
    have := min_le_right limit (range.hwm - offset + 1)
    exact ⟨hpos, hlow, by omega⟩

section
variable {now : τ} {member session : String} {generation partition : ℕ} {stored : Group τ}

/-- An admitted request of the owner enters the history. -/
theorem Ok.admitted_accept (h : Ok s) (hm : Admitted now s.topics topic group member session
    (some generation) (some partition) t stored) {effect : Effect}
    (hbound : ∀ next, effect = .committed next → ∃ b ∈ s.history, (b.topic = topic ∧
      b.group = group ∧ b.generation = generation ∧ b.partition = partition) ∧
      ∃ m, b.effect = .fetched m ∧ next ≤ m) :
    Ok { s with
      topics := s.topics.setGroup topic group (stored.expire now)
      history := ⟨topic, group, generation, partition, member, session, effect⟩ :: s.history } := by
  apply (h.admitted hm).accept
  · rw [group_setGroup hm.found, if_pos ⟨rfl, rfl⟩]
  · exact (hm.sameGeneration generation rfl).1
  · exact (hm.owns partition rfl).2
  · exact hbound

variable {next : ℤ}

/-- A cursor of an unlocked partition moves within the committed range. -/
theorem Ok.moveCursor (h : Ok s) (hm : Admitted now s.topics topic group member session
    (some generation) (some partition) t stored) {effect : Effect} (hfree : s.fetching topic partition = none)
    (hnext : next ≤ (t.ranges partition).hwm + 1)
    (hbound : ∀ next, effect = .committed next → ∃ b ∈ s.history, (b.topic = topic ∧
      b.group = group ∧ b.generation = generation ∧ b.partition = partition) ∧
      ∃ m, b.effect = .fetched m ∧ next ≤ m) {g' : Group τ}
    (hgeneration : g'.generation = (stored.expire now).generation)
    (hmembers : g'.members = (stored.expire now).members)
    (hcursors : g'.cursors = update (stored.expire now).cursors partition next)
    (hdelivered : ∀ p d, g'.delivered p = some d → (stored.expire now).delivered p = some d) :
    Ok { s with
      topics := (s.topics.setGroup topic group (stored.expire now)).setGroup topic group g'
      history := ⟨topic, group, generation, partition, member, session, effect⟩ :: s.history } := by
  have hexpired := (h.groups topic group t stored hm.found hm.in_group).expire now
  apply Ok.admitted_then hm (h.admitted_accept hm hbound)
  · refine ⟨hgeneration.ge, fun _ => ?_⟩
    rw [Group.roster, Group.roster, hmembers]
  · intro p hp
    have hne : p ≠ partition := fun heq => hp (heq ▸ hfree)
    rw [hcursors, update_of_ne hne, expire_cursors]
  · refine GroupOk.older ⟨⟨hexpired.names.1, hmembers ▸ hexpired.names.2⟩, fun p => ?_, fun p n m hd => ?_⟩ _
    · rw [hcursors]
      by_cases hp : p = partition
      · subst hp
        rw [update_self]
        exact hnext
      · rw [update_of_ne hp]
        exact hexpired.cursors p
    · rw [hgeneration]
      exact hexpired.delivered p n m (hdelivered p _ hd)

variable {expected : Option ℤ} {ts ts' : Topics τ}

/-- What a valid commit has: the owner, the current generation, a bound delivered in it. -/
theorem validateCommit_spec (h : validateCommit now ts topic group member session generation partition next expected =
      .ok ts') :
    ∃ t stored, Admitted now ts topic group member session (some generation) (some partition) t
        stored ∧ ts' = ts.setGroup topic group (stored.expire now) ∧
      stored.cursors partition ≤ next ∧
      (∀ offset, expected = some offset → offset = stored.cursors partition) ∧
      ∃ bound, (stored.expire now).delivered partition = some (generation, bound) ∧ next ≤ bound := by
  obtain ⟨_, -, h⟩ := Py.bind_eq_ok.mp h
  obtain ⟨_, -, h⟩ := Py.bind_eq_ok.mp h
  obtain ⟨_, -, h⟩ := Py.bind_eq_ok.mp h
  obtain ⟨⟨ts₁, a⟩, hmem, h⟩ := Py.bind_eq_ok.mp h
  obtain ⟨t, stored, hm, rfl, -⟩ := membership_eq_ok.mp hmem
  dsimp only at h
  rw [getD_group hm.found] at h
  cases hd : (stored.expire now).delivered partition with
  | none => simp [hd] at h
  | some d =>
    obtain ⟨n, bound⟩ := d
    rw [hd] at h
    dsimp only at h
    split_ifs at h with hbad
    obtain rfl := Except.ok.inj h
    simp only [not_or, not_not, not_lt, ne_eq, expire_cursors] at hbad
    obtain ⟨rfl, hcurrent, hbound, hexpected⟩ := hbad
    refine ⟨t, stored, hm, rfl, hcurrent, fun offset ho => ?_, bound, hd, hbound⟩
    rw [ho, Option.getD_some] at hexpected
    exact hexpected

theorem commit_spec (h : commit now ts topic group member session generation partition next expected = .ok ts') :
    ∃ t stored, validateCommit now ts topic group member session generation partition next expected =
        .ok (ts.setGroup topic group (stored.expire now)) ∧
      Admitted now ts topic group member session (some generation) (some partition) t stored ∧
      ts' = (ts.setGroup topic group (stored.expire now)).setGroup topic group
        ((stored.expire now).setCursor partition next) := by
  obtain ⟨ts₁, hvalid, h⟩ := Py.bind_eq_ok.mp h
  obtain ⟨t, stored, hm, rfl, -⟩ := validateCommit_spec hvalid
  rw [getD_group hm.found] at h
  exact ⟨t, stored, hvalid, hm, (Except.ok.inj h).symm⟩

theorem Ok.commit (h : Ok s) (hfree : s.fetching topic partition = none)
    (hcommit : commit now s.topics topic group member session generation partition next expected = .ok ts) :
    Ok { s with
      topics := ts
      history := ⟨topic, group, generation, partition, member, session, .committed next⟩ :: s.history } := by
  obtain ⟨t, stored, hvalid, hm, rfl⟩ := commit_spec hcommit
  obtain ⟨t', stored', hm', -, -, -, bound, hd, hle⟩ := validateCommit_spec hvalid
  obtain rfl := Option.some.inj (hm.in_group.symm.trans hm'.in_group)
  obtain ⟨-, hrange, b, hb, htopic, hgroup, hgeneration, hpartition, heffect⟩ :=
    ((h.groups topic group t stored hm.found hm.in_group).expire now).delivered _ _ _ hd
  refine h.moveCursor hm hfree (hle.trans hrange) ?_ rfl rfl rfl fun p d hd => hd
  rintro m hm
  obtain rfl := Effect.committed.inj hm
  exact ⟨b, hb, ⟨htopic, hgroup, hgeneration, hpartition⟩, bound, heffect, hle⟩

theorem reset_spec {offset : ResetTo} {target : ℤ}
    (h : reset now ts topic group member session generation partition offset = .ok (ts', target)) :
    ∃ t stored, Admitted now ts topic group member session (some generation) (some partition) t
        stored ∧ target ≤ (t.ranges partition).hwm + 1 ∧
      ts' = (ts.setGroup topic group (stored.expire now)).setGroup topic group
        { (stored.expire now).setCursor partition target with
          delivered := update (stored.expire now).delivered partition none } := by
  obtain ⟨_, -, h⟩ := Py.bind_eq_ok.mp h
  obtain ⟨⟨ts₁, a⟩, hmem, h⟩ := Py.bind_eq_ok.mp h
  obtain ⟨t, stored, hm, rfl, -⟩ := membership_eq_ok.mp hmem
  obtain ⟨range, hrange, h⟩ := Py.bind_eq_ok.mp h
  obtain ⟨target', -, h⟩ := Py.bind_eq_ok.mp h
  obtain ⟨t', ht', -, rfl⟩ := part_eq_ok hrange
  rw [setGroup_self hm.found] at ht'
  obtain rfl := Option.some.inj ht'
  dsimp only at h
  split_ifs at h with hoff
  rw [getD_group hm.found] at h
  obtain ⟨rfl, rfl⟩ := Prod.mk.inj (Except.ok.inj h)
  exact ⟨t, stored, hm, not_lt.mp fun hlt => hoff (.inr hlt), rfl⟩

theorem Ok.reset (h : Ok s) {offset : ResetTo} {target : ℤ} {ts : Topics τ}
    (hfree : s.fetching topic partition = none)
    (hreset : reset now s.topics topic group member session generation partition offset = .ok (ts, target)) :
    Ok { s with
      topics := ts
      history := ⟨topic, group, generation, partition, member, session, .reset target⟩ :: s.history } := by
  obtain ⟨t, stored, hm, htarget, rfl⟩ := reset_spec hreset
  refine h.moveCursor hm hfree htarget (by rintro m ⟨⟩) rfl rfl rfl fun p d hd => ?_
  dsimp only at hd
  by_cases hp : p = partition
  · rw [hp, update_self] at hd
    cases hd
  · rwa [update_of_ne hp] at hd

theorem fetchBegin_spec {offset : ℤ}
    (h : fetchBegin now ts topic group member session generation partition = .ok (ts', offset)) :
    ∃ t stored, Admitted now ts topic group member session (some generation) (some partition) t
        stored ∧ ts' = ts.setGroup topic group (stored.expire now) ∧
      offset = stored.cursors partition := by
  obtain ⟨_, -, h⟩ := Py.bind_eq_ok.mp h
  obtain ⟨⟨ts₁, a⟩, hmem, h⟩ := Py.bind_eq_ok.mp h
  obtain ⟨t, stored, hm, rfl, -⟩ := membership_eq_ok.mp hmem
  dsimp only at h
  rw [getD_group hm.found, expire_cursors] at h
  obtain ⟨rfl, rfl⟩ := Prod.mk.inj (Except.ok.inj h)
  exact ⟨t, stored, hm, rfl, rfl⟩

theorem fetchEnd_spec {atMostOnce : Bool}
    (h : fetchEnd now ts topic group member session generation partition atMostOnce next = .ok ts') :
    ∃ t stored old, Admitted now ts topic group member session (some generation) (some partition) t stored ∧
      (old = 0 ∨ (stored.expire now).delivered partition = some (generation, old)) ∧
      ts' = (ts.setGroup topic group (stored.expire now)).setGroup topic group
        { stored.expire now with
          delivered := update (stored.expire now).delivered partition (some (generation, max next old))
          cursors := if atMostOnce then update (stored.expire now).cursors partition next
            else (stored.expire now).cursors } := by
  obtain ⟨⟨ts₁, a⟩, hmem, h⟩ := Py.bind_eq_ok.mp h
  obtain ⟨t, stored, hm, rfl, -⟩ := membership_eq_ok.mp hmem
  dsimp only at h
  rw [getD_group hm.found] at h
  refine ⟨t, stored, _, hm, ?_, (Except.ok.inj h).symm⟩
  split
  · next n bound hd =>
      split_ifs with heq
      · rw [hd, heq]
        exact .inr rfl
      · exact .inl rfl
  · exact .inl rfl

/-- The end of a fetch whose page starts at the held cursor. -/
theorem Ok.fetchEnd (h : Ok s) {atMostOnce : Bool} (hfree : s.fetching topic partition = none) (hpos : 0 ≤ next)
    (hnext : ∀ t, s.topics topic = some t → next ≤ (t.ranges partition).hwm + 1)
    (hend : fetchEnd now s.topics topic group member session generation partition atMostOnce next = .ok ts) :
    Ok { s with
      topics := ts
      history := ⟨topic, group, generation, partition, member, session, .fetched next⟩ :: s.history } := by
  obtain ⟨t, stored, old, hm, hold, rfl⟩ := fetchEnd_spec hend
  have hexpired := (h.groups topic group t stored hm.found hm.in_group).expire now
  refine Ok.admitted_then hm (h.admitted_accept hm (by rintro m ⟨⟩)) ?_ ?_ ?_
  · exact ⟨le_rfl, fun _ => rfl⟩
  · intro p hp
    have hne : p ≠ partition := fun heq => hp (heq ▸ hfree)
    dsimp only
    split_ifs
    · rw [update_of_ne hne, expire_cursors]
    · rw [expire_cursors]
  · refine ⟨hexpired.names, fun p => ?_, fun p n m hd => ?_⟩
    · dsimp only
      split_ifs
      · by_cases hp : p = partition
        · subst hp
          rw [update_self]
          exact hnext t hm.found
        · rw [update_of_ne hp]
          exact hexpired.cursors p
      · exact hexpired.cursors p
    · dsimp only at hd
      by_cases hp : p = partition
      · subst hp
        rw [update_self] at hd
        obtain ⟨rfl, rfl⟩ := Prod.mk.inj (Option.some.inj hd)
        refine ⟨(hm.sameGeneration generation rfl).1.symm, ?_⟩
        rcases le_total old next with hle | hle
        · rw [max_eq_left hle]
          exact ⟨hnext t hm.found, _, mem_cons_self, rfl, rfl, rfl, rfl, rfl⟩
        · rw [max_eq_right hle]
          rcases hold with rfl | hold
          · obtain rfl : next = 0 := le_antisymm hle hpos
            exact ⟨hnext t hm.found, _, mem_cons_self, rfl, rfl, rfl, rfl, rfl⟩
          · obtain ⟨-, hbound, b, hb, hback⟩ := hexpired.delivered p generation old hold
            exact ⟨hbound, b, mem_cons_of_mem _ hb, hback⟩
      · rw [update_of_ne hp] at hd
        exact (hexpired.older _).delivered p n m hd

end

theorem Ok.step {s' : State τ} (h : Ok s) (hstep : Step deadline s s') : Ok s' := by
  cases hstep with
  | @tick now _ => exact h.at now
  | create hcreate => exact h.create hcreate
  | expand hexpand => exact h.expand hexpand
  | join _ hsession hjoin => exact (h.join hsession hjoin).at _
  | heartbeat _ hbeat => exact (h.heartbeat hbeat).at _
  | leave _ hleave => exact (h.leave hleave).at _
  | @fetchBegin _ _ _ _ _ partition now _ _ _ _ hbegin =>
    obtain ⟨t, stored, hm, rfl, rfl⟩ := fetchBegin_spec hbegin
    apply ((h.admitted hm).at _).setFetching
    rintro f' ⟨⟩
    refine ⟨stored.expire now, ?_, congrFun (expire_cursors now stored) partition⟩
    rw [group_setGroup hm.found, if_pos ⟨rfl, rfl⟩]
  | @fetchEnd topic partition f n₁ n₂ range read limit filters page atMostOnce ts _ hfetching hrange
      hpage hend =>
      -- The lock is given up first: the invariant then asks less of the cursor.
      have hfree : Ok (s.setFetching topic partition none) := h.setFetching (by rintro f' ⟨⟩)
      obtain ⟨t, ht, -, rfl⟩ := part_eq_ok hrange
      obtain ⟨hpos, hlow, hhigh⟩ := fetch_next hpage
      refine (hfree.fetchEnd ?_ (hpos.trans hlow) ?_ hend).at n₂
      · simp [State.setFetching]
      · intro t' ht'
        obtain rfl := Option.some.inj (ht.symm.trans ht')
        exact hhigh
  | fetchFail => exact h.setFetching (by rintro f' ⟨⟩)
  | commit _ hfree hcommit => exact (h.commit hfree hcommit).at _
  | reset _ hfree hreset => exact (h.reset hfree hreset).at _
  | publish hrange hhwm => exact h.setRange hrange hhwm
  | retain hrange _ => exact h.setRange hrange le_rfl
  | restart =>
    exact ⟨h.topics, h.groups, h.history, h.owners, h.committed, fun topic p f hf => nomatch hf⟩

theorem reachable_ok (h : (groups deadline).Reachable s) : Ok s := by
  apply h.invariant
  · rintro s ⟨htopics, hfetching, hhistory⟩
    have hgroup : ∀ topic group, s.topics.group topic group = none := by
      intro topic group
      simp [Topics.group, htopics]
    refine ⟨fun topic t ht => ?_, fun topic group t g ht => ?_, ?_, ?_, ?_, fun topic p f hf => ?_⟩
    · rw [htopics] at ht
      cases ht
    · rw [htopics] at ht
      cases ht
    · simp [hhistory]
    · simp [hhistory]
    · simp [hhistory]
    · rw [hfetching] at hf
      cases hf
  · intro s s' _ hok hstep
    exact hok.step hstep

/-! ### Owners -/

/-- At any time a partition of a group with live members has exactly one owner. -/
theorem Ok.exists_unique_owner (h : Ok s) {g : Group τ} (ht : s.topics topic = some t)
    (hg : s.topics.group topic group = some g) (hlive : (g.expire now).members.entries ≠ []) {p : ℕ}
    (hp : p < t.partitions) {generation : Option ℕ}
    (hgeneration : ∀ n, generation = some n → n = (g.expire now).generation ∧ n ≤ maxInteger) :
    ∃! owner : String × String, ∃ r, membership now s.topics topic group owner.1 owner.2 generation
      (some p) = .ok r := by
  have hgroup := (h.groups topic group t g ht hg).expire now
  obtain ⟨t', ht', hlisted⟩ := group_eq_some.mp hg
  obtain rfl := Option.some.inj (ht.symm.trans ht')
  have hpos : 0 < (g.expire now).roster.length := by
    rw [roster_length]
    exact length_pos_iff.mpr hlive
  obtain ⟨owner, howner⟩ : ∃ owner, (g.expire now).owner p = some owner := ⟨_, getElem?_eq_getElem (Nat.mod_lt p hpos)⟩
  obtain ⟨member, session⟩ := owner
  have hnamed := (h.topics topic t ht)
  refine ⟨(member, session), ?_, ?_⟩
  · obtain ⟨hsession, -⟩ := owner_eq_some.mp howner
    obtain ⟨row, hrow, rfl⟩ := Option.map_eq_some_iff.mp hsession
    have hnames := hgroup.names.2 _ (SortedMap.mem_entries.mpr hrow)
    refine ⟨_, membership_eq_ok.mpr ⟨t, g, ⟨ht, hlisted, ⟨⟨hnamed.named, hgroup.names.1⟩, hnames⟩,
      hsession, fun n hn => ?_, ?_⟩, rfl, rfl⟩⟩
    · obtain ⟨heq, hle⟩ := hgeneration n hn
      exact ⟨heq.symm, hle⟩
    · rintro q ⟨⟩
      have := hnamed.bounded
      exact ⟨⟨by omega, hp⟩, howner⟩
  · rintro ⟨member', session'⟩ ⟨⟨ts, a⟩, hmem⟩
    obtain ⟨t', stored, hm, -, -⟩ := membership_eq_ok.mp hmem
    obtain rfl := Option.some.inj (hg.symm.trans hm.in_group)
    exact Option.some.inj ((hm.owns p rfl).2.symm.trans howner)

/-- A commit is accepted from the owner, up to what it was delivered in this generation. -/
theorem Ok.commit_owner (h : Ok s) {generation partition : ℕ} {next : ℤ} {expected : Option ℤ}
    (hcommit : MessageQueue.commit now s.topics topic group member session generation partition next
      expected = .ok ts) :
    (∃ r, membership now s.topics topic group member session (some generation) (some partition) = .ok r) ∧
    ∃ a ∈ s.history, a.topic = topic ∧ a.group = group ∧ a.generation = generation ∧
      a.partition = partition ∧ a.member = member ∧ a.session = session ∧
      ∃ m, a.effect = .fetched m ∧ next ≤ m := by
  obtain ⟨t, stored, hvalid, hm, -⟩ := commit_spec hcommit
  obtain ⟨t', stored', hm', -, -, -, bound, hd, hle⟩ := validateCommit_spec hvalid
  obtain rfl := Option.some.inj (hm.in_group.symm.trans hm'.in_group)
  refine ⟨⟨_, membership_eq_ok.mpr ⟨t, stored, hm, rfl, rfl⟩⟩, ?_⟩
  obtain ⟨-, -, a, ha, htopic, hgroup, hgeneration, hpartition, heffect⟩ :=
    ((h.groups topic group t stored hm.found hm.in_group).expire now).delivered _ _ _ hd
  obtain ⟨g, hg, -, howner⟩ := h.history a ha
  rw [htopic, hgroup] at hg
  obtain rfl := Option.some.inj (hm.in_group.symm.trans hg)
  have hsame := expire_delivered hd
  have hturn := (hm.sameGeneration generation rfl).1
  have howns := (hm.owns partition rfl).2
  rw [hsame] at hturn howns
  have := howner (hgeneration.trans hturn.symm)
  rw [hpartition, howns] at this
  obtain ⟨hmember, hsession⟩ := Prod.mk.inj (Option.some.inj this)
  exact ⟨a, ha, htopic, hgroup, hgeneration, hpartition, hmember.symm, hsession.symm, bound, heffect, hle⟩

end

/-! ### Cursors along a step -/

variable {stored : Group τ}

theorem Admitted.keeps {partition : Option ℕ}
    (hm : Admitted now ts topic group member session generation partition t stored) :
    KeepsCursors ts (ts.setGroup topic group (stored.expire now)) := by
  apply KeepsCursors.setGroup hm.found
  intro g hg
  obtain rfl := Option.some.inj ((group_eq_some.mpr ⟨t, hm.found, hm.listed⟩).symm.trans hg)
  exact expire_cursors now stored

/-- The rows of an admitted group change without its cursors. -/
theorem Admitted.keeps_then {partition : Option ℕ} {g' : Group τ}
    (hm : Admitted now ts topic group member session generation partition t stored) (h : g'.cursors = stored.cursors) :
    KeepsCursors ts ((ts.setGroup topic group (stored.expire now)).setGroup topic group g') := by
  apply hm.keeps.trans
  apply KeepsCursors.setGroup (setGroup_self hm.found _)
  intro g hg
  rw [group_setGroup hm.found, if_pos ⟨rfl, rfl⟩] at hg
  rw [h, ← Option.some.inj hg, expire_cursors]

/-- One cursor of an admitted group moves: up, or for the reason `R`. -/
theorem Admitted.moves {g' : Group τ} {next : ℤ} {topic' group' : String} {p : ℕ} {R : Prop}
    (hm : Admitted now ts topic group member session generation (some partition) t stored)
    (h : g'.cursors = update (stored.expire now).cursors partition next)
    (hg : ts.group topic' group' = some g) (hmoved : topic' = topic → group' = group → p = partition →
      stored.cursors partition ≤ next ∨ R) :
    ∃ g'', ((ts.setGroup topic group (stored.expire now)).setGroup topic group g').group topic'
        group' = some g'' ∧ (g.cursors p ≤ g''.cursors p ∨ R) := by
  rw [group_setGroup (setGroup_self hm.found _), group_setGroup hm.found]
  by_cases hthis : topic' = topic ∧ group' = group
  · rw [if_pos hthis]
    obtain ⟨rfl, rfl⟩ := hthis
    obtain rfl := Option.some.inj ((group_eq_some.mpr ⟨t, hm.found, hm.listed⟩).symm.trans hg)
    refine ⟨g', rfl, ?_⟩
    rw [h]
    by_cases hp : p = partition
    · rw [hp, update_self]
      exact hmoved rfl rfl hp
    · rw [update_of_ne hp, expire_cursors]
      exact .inl le_rfl
  · rw [if_neg hthis, if_neg hthis]
    exact ⟨g, hg, .inl le_rfl⟩

/-- A request of this step that reset the cursor. -/
def ResetIn (s s' : State τ) (topic group : String) (p : ℕ) : Prop :=
  ∃ a target, s'.history = a :: s.history ∧ a.topic = topic ∧ a.group = group ∧ a.partition = p ∧
    a.effect = .reset target

/-- A step does not lower a cursor that it does not reset. -/
theorem Ok.cursor_le {s s' : State τ} {deadline : τ → τ} (h : Ok s) (hstep : Step deadline s s')
    (hg : s.topics.group topic group = some g) (p : ℕ) :
    ∃ g', s'.topics.group topic group = some g' ∧ (g.cursors p ≤ g'.cursors p ∨ ResetIn s s' topic group p) := by
  have hkeeps : ∀ {ts : Topics τ}, KeepsCursors s.topics ts → ∃ g', ts.group topic group = some g' ∧
      (g.cursors p ≤ g'.cursors p ∨ ResetIn s s' topic group p) := by
    intro ts hk
    obtain ⟨g', hg', hcursors⟩ := hk topic group g hg
    exact ⟨g', hg', .inl (hcursors ▸ le_rfl)⟩
  cases hstep with
  | tick _ => exact ⟨g, hg, .inl le_rfl⟩
  | @create topic' partitions ts hcreate =>
    apply hkeeps
    obtain ⟨_, -, hcreate⟩ := Py.bind_eq_ok.mp hcreate
    obtain ⟨_, -, hcreate⟩ := Py.bind_eq_ok.mp hcreate
    split_ifs at hcreate with hexists
    obtain rfl := Except.ok.inj hcreate
    intro topic₁ group₁ g₁ hg₁
    obtain ⟨t₁, ht₁, hlisted⟩ := group_eq_some.mp hg₁
    have hne : topic₁ ≠ topic' := by
      rintro rfl
      simp [ht₁] at hexists
    exact ⟨g₁, group_eq_some.mpr ⟨t₁, (update_of_ne hne _ _).trans ht₁, hlisted⟩, rfl⟩
  | @expand topic' partitions ts hexpand =>
    apply hkeeps
    obtain ⟨_, -, hexpand⟩ := Py.bind_eq_ok.mp hexpand
    obtain ⟨t, ht, hexpand⟩ := Py.bind_eq_ok.mp hexpand
    obtain ⟨-, ht⟩ := topic_eq_ok.mp ht
    split_ifs at hexpand with hfewer
    obtain rfl := Except.ok.inj hexpand
    intro topic₁ group₁ g₁ hg₁
    obtain ⟨t₁, ht₁, hlisted⟩ := group_eq_some.mp hg₁
    by_cases htopic : topic₁ = topic'
    · subst htopic
      obtain rfl := Option.some.inj (ht.symm.trans ht₁)
      exact ⟨g₁.regenerate g₁.members, by simp [Topics.group, hlisted], rfl⟩
    · exact ⟨g₁, group_eq_some.mpr ⟨t₁, (update_of_ne htopic _ _).trans ht₁, hlisted⟩, rfl⟩
  | @join _ _ _ _ n₁ _ _ _ _ _ _ hjoin =>
    apply hkeeps
    obtain ⟨_, -, hjoin⟩ := Py.bind_eq_ok.mp hjoin
    obtain ⟨_, -, hjoin⟩ := Py.bind_eq_ok.mp hjoin
    obtain ⟨t, ht, hjoin⟩ := Py.bind_eq_ok.mp hjoin
    obtain ⟨-, ht⟩ := topic_eq_ok.mp ht
    obtain ⟨t', stored, hm, rfl, -⟩ := membership_eq_ok.mp hjoin
    refine KeepsCursors.trans (KeepsCursors.setGroup ht fun g₁ hg₁ => ?_) hm.keeps
    rw [hg₁, Option.getD_some, Group.regenerate, expire_cursors]
  | @heartbeat _ _ _ _ n₁ _ _ _ _ hbeat =>
    apply hkeeps
    obtain ⟨⟨ts₁, a⟩, hmem, hbeat⟩ := Py.bind_eq_ok.mp hbeat
    obtain ⟨t, stored, hm, rfl, -⟩ := membership_eq_ok.mp hmem
    dsimp only at hbeat
    rw [getD_group hm.found] at hbeat
    obtain ⟨rfl, -⟩ := Prod.mk.inj (Except.ok.inj hbeat)
    exact hm.keeps_then (expire_cursors n₁ stored)
  | @leave _ _ _ _ now _ _ _ hleave =>
    apply hkeeps
    obtain ⟨⟨ts₁, a⟩, hmem, hleave⟩ := Py.bind_eq_ok.mp hleave
    obtain ⟨t, stored, hm, rfl, -⟩ := membership_eq_ok.mp hmem
    dsimp only at hleave
    rw [getD_group hm.found] at hleave
    obtain ⟨rfl, -⟩ := Prod.mk.inj (Except.ok.inj hleave)
    exact hm.keeps_then (expire_cursors now stored)
  | fetchBegin _ _ hbegin =>
    obtain ⟨t, stored, hm, rfl, -⟩ := fetchBegin_spec hbegin
    exact hkeeps hm.keeps
  | @fetchEnd topic' partition f n₁ n₂ range read limit filters page atMostOnce ts _ hfetching hrange
      hpage hend =>
      obtain ⟨t, stored, old, hm, -, rfl⟩ := fetchEnd_spec hend
      cases atMostOnce with
      | false => exact hkeeps (hm.keeps_then (expire_cursors n₂ stored))
      | true =>
        refine hm.moves rfl hg fun htopic hgroup hp => .inl ?_
        -- The page starts at the cursor, which the lock has kept.
        obtain ⟨g₀, hg₀, hoffset⟩ := h.fetching _ _ f hfetching
        obtain rfl := Option.some.inj (hm.in_group.symm.trans hg₀)
        rw [hoffset]
        exact (fetch_next hpage).2.1
  | fetchFail => exact ⟨g, hg, .inl le_rfl⟩
  | commit _ _ hcommit =>
    obtain ⟨t, stored, hvalid, hm, rfl⟩ := commit_spec hcommit
    obtain ⟨t', stored', hm', -, hle, -⟩ := validateCommit_spec hvalid
    obtain rfl := Option.some.inj (hm.in_group.symm.trans hm'.in_group)
    exact hm.moves rfl hg fun _ _ _ => .inl hle
  | reset _ _ hreset =>
    obtain ⟨t, stored, hm, -, rfl⟩ := reset_spec hreset
    refine hm.moves rfl hg fun htopic hgroup hp => .inr ?_
    exact ⟨_, _, rfl, htopic.symm, hgroup.symm, hp.symm, rfl⟩
  | publish hrange _ => exact hkeeps (keeps_setRange hrange)
  | retain hrange _ => exact hkeeps (keeps_setRange hrange)
  | restart => exact ⟨g, hg, .inl le_rfl⟩

/-! ### Fencing -/

/-- Fencing of consumer groups, in every reachable state: one owner for each partition of a group
with live members, the same for every request accepted in a generation; commits only from it, up to
what it was delivered; cursors within the committed range, and lowered by a reset only. -/
theorem groups_fenced {deadline : τ → τ} {s : State τ} (h : (groups deadline).Reachable s) :
    (∀ topic group t g, s.topics topic = some t → s.topics.group topic group = some g →
      (g.expire s.now).members.entries ≠ [] → ∀ p < t.partitions, ∀ generation : Option ℕ,
      (∀ n, generation = some n → n = (g.expire s.now).generation ∧ n ≤ maxInteger) →
      ∃! owner : String × String, ∃ r, membership s.now s.topics topic group owner.1 owner.2
        generation (some p) = .ok r) ∧
    (∀ a ∈ s.history, ∀ b ∈ s.history, a.SameTurn b → a.member = b.member ∧ a.session = b.session) ∧
    (∀ now topic group member session generation partition next expected ts,
      commit now s.topics topic group member session generation partition next expected = .ok ts →
      (∃ r, membership now s.topics topic group member session (some generation) (some partition) = .ok r) ∧
      ∃ a ∈ s.history, a.topic = topic ∧ a.group = group ∧ a.generation = generation ∧
        a.partition = partition ∧ a.member = member ∧ a.session = session ∧
        ∃ m, a.effect = .fetched m ∧ next ≤ m) ∧
    (∀ topic group t g, s.topics topic = some t → s.topics.group topic group = some g →
      ∀ p, g.cursors p ≤ (t.ranges p).hwm + 1) ∧
    ∀ s', Step deadline s s' → ∀ topic group g, s.topics.group topic group = some g → ∀ p,
      ∃ g', s'.topics.group topic group = some g' ∧ (g.cursors p ≤ g'.cursors p ∨ ResetIn s s' topic group p) := by
  have hok := reachable_ok h
  refine ⟨?_, hok.owners, ?_, ?_, ?_⟩
  · intro topic group t g ht hg hlive p hp generation hgeneration
    exact hok.exists_unique_owner ht hg hlive hp hgeneration
  · intro now topic group member session generation partition next expected ts hcommit
    exact hok.commit_owner hcommit
  · intro topic group t g ht hg
    exact (hok.groups topic group t g ht hg).cursors
  · intro s' hstep topic group g hg p
    exact hok.cursor_le hstep hg p

/-- One topic of two partitions. -/
def oneTopic : State ℕ :=
  ⟨update (fun _ => none) "orders" (some ⟨2, fun _ => ⟨-1, 0⟩, fun _ => none⟩), 0, fun _ _ => none, []⟩

/-- A worker that joined at time 3, for a lease of 10. -/
def workers : Group ℕ := ⟨1, .insert .empty "w1" ⟨"s1", 13⟩, fun _ => 0, fun _ => none⟩

def oneWorker : State ℕ :=
  { oneTopic with
    topics := (oneTopic.topics.setGroup "orders" "workers" workers).setGroup "orders" "workers" workers
    now := 3 }

theorem oneWorker_reachable : (groups (· + 10)).Reachable oneWorker := by
  have hcreate : Step (· + 10) ⟨fun _ => none, 0, fun _ _ => none, []⟩ oneTopic := @Step.create _ _ _ _ "orders" 2 _ rfl
  have hjoin : Step (· + 10) oneTopic oneWorker :=
    @Step.join _ _ _ _ "orders" "workers" "w1" "s1" 3 3 3 _ ⟨1, [0, 1], "s1", "w1"⟩
      ⟨by decide, le_rfl, le_rfl⟩ (by decide) rfl
  exact .step (.step (.start ⟨fun _ => rfl, fun _ _ => rfl, rfl⟩) hcreate) hjoin

theorem groups_fenced_oneWorker : (groups (· + 10)).Reachable oneWorker ∧
    ∃! owner : String × String, ∃ r, membership 3 oneWorker.topics "orders" "workers" owner.1
      owner.2 (some 1) (some 0) = .ok r := by
  obtain ⟨hone, -⟩ := groups_fenced oneWorker_reachable
  exact ⟨oneWorker_reachable, hone "orders" "workers" _ _ rfl rfl (by decide) 0 (by decide) (some 1)
    (by rintro n ⟨⟩; decide)⟩

end SystemDesign.MessageQueue
