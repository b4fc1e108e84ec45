import SystemDesign.Maps.Telemetry

/-!
What a run of ingestion accepts: how often an event, in which order positions, from what a sample.

Event rows are kept for a day from their receipt and a report is admissible for a day from its own
timestamp. Only a report whose timestamp lies ahead of its receipt is admissible longer than its row is kept.
-/

namespace SystemDesign.Maps

open List hiding lt_of_le_of_lt not_lt
open Dict

variable {c : Setup} {now now' : ℚ} {db db' : Db} {user : String}

/-! ### What was accepted -/

/-- The report that last became the position of a user. -/
def lastAccepted (user : String) (log : List Applied) : Option Applied :=
  (log.filter fun a => a.user = user ∧ a.position.isSome).getLast?

/-- Both reports were matched to this road of one catalog, one right after the other. -/
structure Sampled (c : Setup) (log : List Applied) (a : Applied) (row : Sample) : Prop where
  source : ∃ b p q old new, lastAccepted a.user log = some b ∧ b.position = some p ∧ a.position = some q ∧
    p.matched = some old ∧ q.matched = some new ∧ old.edge = row.edge ∧ new.edge = row.edge ∧
    b.catalog = a.catalog ∧ 1 ≤ c.minus q.timestamp p.timestamp ∧ c.minus q.timestamp p.timestamp ≤ 120
  road : row.edge ∈ a.catalog.edges.map Edge.id

/-- What holds of a report that is accepted after those of a log. -/
structure Follows (c : Setup) (log : List Applied) (a : Applied) : Prop where
  /-- An event identifier is accepted again only when its row is over. -/
  apart : ∀ b ∈ log, b.key = a.key → b.event.received ≤ c.minus a.event.received 86400
  /-- Only a report that was ahead of its receipt is ever accepted again. -/
  once : ∀ b ∈ log, b.user = a.user → b.report = a.report → b.event.received < b.report.timestamp
  advance : ∀ b p q, lastAccepted a.user log = some b → b.position = some p → a.position = some q →
    (p.sequence < q.sequence ∧ p.timestamp < q.timestamp) ∨ p.received ≤ c.minus q.received 86400
  sampled : ∀ row, a.sample = some row → Sampled c log a row

/-! ### Tables and what was accepted -/

theorem get?_keepRows {κ ν : Type} [DecidableEq κ] (p : κ → ν → Bool) (d : Dict κ ν) (k : κ) :
    (keepRows p d).get? k = (d.get? k).filter (p k) := by
  refine Option.ext fun v => ?_
  rw [← mem_entries, keepRows, mem_filter, mem_entries, Option.filter_eq_some_iff]

theorem insertNew_eq_ok {κ ν : Type} [DecidableEq κ] {d d' : Dict κ ν} {k : κ} {v : ν} :
    insertNew d k v = .ok d' ↔ d.get? k = none ∧ d' = d.set k v := by
  unfold insertNew
  rw [bind_eq_ok]
  constructor
  · rintro ⟨_, hnone, heq⟩
    cases heq
    exact ⟨require_eq_ok.mp hnone, rfl⟩
  · rintro ⟨hnone, rfl⟩
    exact ⟨(), require_eq_ok.mpr hnone, rfl⟩

/-- A graph identifier names the catalog it was installed with. -/
def Installed (c : Setup) (installed : List Catalog) (graph : String) (catalog : Catalog) : Prop :=
  ∃ n, graph = c.uuid n ∧ installed[n]? = some catalog

variable {catalog : Catalog}

theorem Installed.unique {installed : List Catalog} {graph : String} {catalog' : Catalog}
    (h : Installed c installed graph catalog) (h' : Installed c installed graph catalog') : catalog = catalog' := by
  obtain ⟨n, rfl, hn⟩ := h
  obtain ⟨m, hm, hm'⟩ := h'
  obtain rfl := c.uuid_injective hm
  exact Option.some.inj (hn.symm.trans hm')

theorem Installed.append {installed : List Catalog} {graph : String} (h : Installed c installed graph catalog)
    (later : List Catalog) : Installed c (installed ++ later) graph catalog := by
  obtain ⟨n, hgraph, hn⟩ := h
  exact ⟨n, hgraph, by rw [getElem?_append_left (List.getElem?_eq_some_iff.mp hn).1, hn]⟩

/-- The tables at a time, and what they stem from. -/
structure Sound (c : Setup) (now : ℚ) (db : Db) : Prop where
  past : ∀ a ∈ db.log, a.event.received ≤ now
  kept : ∀ a ∈ db.log, db.events.get? a.key = some a.event ∨ a.event.received ≤ c.minus now 86400
  events : ∀ key row, db.events.get? key = some row → ∃ a ∈ db.log, a.key = key ∧ a.event = row
  positions : ∀ user row, db.positions.get? user = some row →
    ∃ a, lastAccepted user db.log = some a ∧ a.position = some row
  lapsed : ∀ user a row, db.positions.get? user = none → lastAccepted user db.log = some a → a.position = some row →
    row.received ≤ c.minus now 86400
  samples : ∀ key row, db.samples.get? key = some row → ∃ a ∈ db.log, a.key = key ∧ a.sample = some row
  wrote : ∀ a ∈ db.log, a.event.hash = c.fingerprint a.report ∧ ∀ row, a.position = some row →
    row.received = a.event.received ∧ Installed c db.installed row.graph a.catalog
  catalog : Installed c db.installed db.graph db.catalog
  follows : ∀ log a later, db.log = log ++ a :: later → Follows c log a

theorem Sound.later (h : Sound c now db) (hnow : now ≤ now') : Sound c now' db where
  past a ha := (h.past a ha).trans hnow
  kept a ha := (h.kept a ha).imp_right fun hle => hle.trans (c.minus_mono _ hnow)
  events := h.events
  positions := h.positions
  lapsed user a row hnone hlast hrow := (h.lapsed user a row hnone hlast hrow).trans (c.minus_mono _ hnow)
  samples := h.samples
  wrote := h.wrote
  catalog := h.catalog
  follows := h.follows

/-- What else a database holds does not matter. -/
theorem Sound.congr (h : Sound c now db) (hevents : db'.events = db.events) (hpositions : db'.positions = db.positions)
    (hsamples : ∀ key row, db'.samples.get? key = some row → db.samples.get? key = some row) (hlog : db'.log = db.log)
    (hwrote : ∃ later, db'.installed = db.installed ++ later)
    (hcatalog : Installed c db'.installed db'.graph db'.catalog) : Sound c now db' where
  past := by rw [hlog]; exact h.past
  kept := by rw [hlog, hevents]; exact h.kept
  events := by rw [hlog, hevents]; exact h.events
  positions := by rw [hlog, hpositions]; exact h.positions
  lapsed := by rw [hlog, hpositions]; exact h.lapsed
  samples key row hrow := by rw [hlog]; exact h.samples key row (hsamples key row hrow)
  wrote a ha := by
    rw [hlog] at ha
    obtain ⟨hhash, hrows⟩ := h.wrote a ha
    obtain ⟨later, hlater⟩ := hwrote
    refine ⟨hhash, fun row hrow => ⟨(hrows row hrow).1, ?_⟩⟩
    rw [hlater]
    exact (hrows row hrow).2.append later
  catalog := hcatalog
  follows := by rw [hlog]; exact h.follows

theorem Sound.prune (h : Sound c now db) (mine : Option String) : Sound c now (db.prune c now mine) where
  past := h.past
  kept a ha := by
    obtain hrow | hover := h.kept a ha
    · by_cases hover : a.event.received ≤ c.minus now 86400
      · exact .inr hover
      · refine .inl ?_
        simp [Db.prune, get?_keepRows, hrow, hover]
    · exact .inr hover
  events key row hrow := by
    simp only [Db.prune, get?_keepRows, Option.filter_eq_some_iff] at hrow
    exact h.events key row hrow.1
  positions user row hrow := by
    simp only [Db.prune, get?_keepRows, Option.filter_eq_some_iff] at hrow
    exact h.positions user row hrow.1
  lapsed user a row hnone hlast hrow := by
    cases hprevious : db.positions.get? user with
    | none => exact h.lapsed user a row hprevious hlast hrow
    | some previous =>
      obtain ⟨a', hlast', hrow'⟩ := h.positions user previous hprevious
      cases hlast.symm.trans hlast'
      cases hrow.symm.trans hrow'
      simp only [Db.prune, get?_keepRows, hprevious] at hnone
      by_contra hover
      simp [Option.filter, hover] at hnone
  samples key row hrow := by
    simp only [Db.prune, get?_keepRows, Option.filter_eq_some_iff] at hrow
    exact h.samples key row hrow.1
  wrote := h.wrote
  catalog := h.catalog
  follows := h.follows

/-! ### Matching -/

def OnRoads (catalog : Catalog) (candidates : Dict String Candidate) : Prop :=
  ∀ key candidate, candidates.get? key = some candidate → candidate.edge ∈ catalog.edges.map Edge.id

variable {heading : Option ℚ}

theorem examine_onRoads {point : ℚ × ℚ} {mode : String} {state state' : List String × Dict String Candidate}
    {row : Edge} (hrow : row ∈ catalog.edges) (hstate : OnRoads catalog state.2)
    (h : examine c point mode heading state row = .ok state') : OnRoads catalog state'.2 := by
  unfold examine at h
  replace h := of_check h
  dsimp only at h
  split at h
  · split at h
    · cases h
      intro key candidate hcandidate
      obtain ⟨-, rfl⟩ | ⟨-, hold⟩ := get?_set_cases hcandidate
      · exact mem_map_of_mem hrow
      · exact hstate key candidate hold
    · cases h
      exact hstate
  · cases h
    exact hstate

theorem nearest_edge {candidates : List Candidate} {matched : Match} (h : nearest c heading candidates = some matched) :
    ∃ candidate ∈ candidates, candidate.edge = matched.edge := by
  cases candidates with
  | nil => cases h
  | cons best others =>
    cases h
    exact ⟨best, mem_cons_self, rfl⟩

theorem matchRoad_mem {lat lon : ℚ} {mode : String} {matched : Match}
    (h : catalog.matchRoad c lat lon mode heading = .ok (some matched)) : matched.edge ∈ catalog.edges.map Edge.id := by
  unfold Catalog.matchRoad at h
  replace h := of_check h
  replace h := of_check h
  obtain ⟨⟨examined, candidates⟩, hfold, h⟩ := of_bind h
  have hrows : ∀ row ∈ (c.nearbyBoxes lat lon).flatMap (c.spatialEdges catalog), row ∈ catalog.edges := by
    intro row hrow
    obtain ⟨box, -, hrow⟩ := mem_flatMap.mp hrow
    exact c.spatialEdges_mem _ _ _ hrow
  have honroads : OnRoads catalog candidates := by
    generalize (c.nearbyBoxes lat lon).flatMap (c.spatialEdges catalog) = rows at hrows hfold
    have hstart : OnRoads catalog (.empty : Dict String Candidate) := by
      intro key candidate hnone
      cases hnone
    generalize Dict.empty = start at hstart hfold
    generalize ([] : List String) = seen at hfold
    induction rows generalizing seen start with
    | nil =>
      cases hfold
      exact hstart
    | cons row rows ih =>
      rw [foldlM_cons, bind_eq_ok] at hfold
      obtain ⟨⟨seen', start'⟩, hrow, hrest⟩ := hfold
      exact ih (fun row' hrow' => hrows row' (mem_cons_of_mem _ hrow')) _
        (examine_onRoads (hrows row mem_cons_self) hstart hrow) _ hrest
  obtain ⟨candidate, hcandidate, hedge⟩ := nearest_edge (Except.ok.inj h)
  obtain ⟨key, hkey⟩ := mem_values.mp ((perm_insertionSort _ _).mem_iff.mp hcandidate)
  exact hedge ▸ honroads key candidate hkey

/-! ### Accepting a report -/

/-- What a report that is accepted leaves, where `q` is the position it would make. -/
structure Accepts (c : Setup) (user : String) (now : ℚ) (body : Report) (db db' : Db) (stored : Stored) (a : Applied)
    (q : Position) : Prop where
  window : c.minus now 86400 < body.timestamp
  entry : a.user = user ∧ a.report = body ∧ a.catalog = db.catalog ∧ a.event = ⟨c.fingerprint body, stored, now⟩
  made : q.sequence = body.sequence ∧ q.timestamp = body.timestamp ∧ q.graph = db.graph ∧ q.received = now
  road : ∀ matched, q.matched = some matched → matched.edge ∈ db.catalog.edges.map Edge.id
  position : a.position = if advances (db.positions.get? user) body then some q else none
  sample : a.sample = if advances (db.positions.get? user) body then db.sampleOf c now (db.positions.get? user) q else none
  events : db'.events = db.events.set (user, body.eventId) a.event
  positions : db'.positions = if advances (db.positions.get? user) body then db.positions.set user q else db.positions
  samples : ∀ key row, db'.samples.get? key = some row →
    (key = (user, body.eventId) ∧ a.sample = some row) ∨ db.samples.get? key = some row
  log : db'.log = db.log ++ [a]
  same : db'.installed = db.installed ∧ db'.graph = db.graph ∧ db'.catalog = db.catalog

theorem insertSome_ok {κ ν : Type} [DecidableEq κ] {d d' : Dict κ ν} {k key : κ} {v : Option ν} {w : ν}
    (h : v.elim (.ok d) (insertNew d k) = .ok d') (hget : d'.get? key = some w) : (key = k ∧ v = some w) ∨ d.get? key = some w := by
  cases v with
  | none =>
    cases h
    exact .inr hget
  | some v =>
    obtain ⟨-, rfl⟩ := insertNew_eq_ok.mp h
    obtain ⟨hkey, rfl⟩ | ⟨-, hold⟩ := get?_set_cases hget
    · exact .inl ⟨hkey, rfl⟩
    · exact .inr hold

variable {body : Report}

theorem accept_ok {stored : Stored} (h : db.accept c user now body = .ok (db', stored)) :
    ∃ a q, Accepts c user now body db db' stored a q := by
  unfold Db.accept at h
  obtain ⟨_, hwindow, h⟩ := of_bind h
  obtain ⟨⟨lat, lon⟩, -, h⟩ := of_bind h
  replace h := of_check h
  obtain ⟨matched, hmatched, h⟩ := of_bind h
  obtain ⟨samples, hsamples, h⟩ := of_bind h
  obtain ⟨events, hevents, h⟩ := of_bind h
  obtain ⟨-, rfl⟩ := insertNew_eq_ok.mp hevents
  cases h
  refine ⟨_, ⟨body.sequence, body.timestamp, lat, lon, db.graph, body.drivingMode, matched, now⟩,
    (require_eq_ok.mp hwindow).2.1, ⟨rfl, rfl, rfl, rfl⟩, ⟨rfl, rfl, rfl, rfl⟩, ?_, rfl, rfl, rfl, rfl, ?_, rfl, ⟨rfl, rfl, rfl⟩⟩
  · rintro m rfl
    exact matchRoad_mem hmatched
  · exact fun key row => insertSome_ok hsamples

theorem lastAccepted_append (log : List Applied) (a : Applied) : lastAccepted user (log ++ [a]) =
    if a.user = user ∧ a.position.isSome then some a else lastAccepted user log := by
  unfold lastAccepted
  by_cases h : a.user = user ∧ a.position.isSome
  · simp [filter_append, h]
  · rw [if_neg h, filter_append, filter_cons_of_neg (by simpa using h), filter_nil, append_nil]

theorem sampleOf_ok {previous : Option Position} {next : Position} {row : Sample} (h : db.sampleOf c now previous next = some row) :
    ∃ p old new, previous = some p ∧ p.matched = some old ∧ next.matched = some new ∧ p.graph = db.graph ∧
      old.edge = row.edge ∧ new.edge = row.edge ∧ 1 ≤ c.minus next.timestamp p.timestamp ∧
      c.minus next.timestamp p.timestamp ≤ 120 := by
  unfold Db.sampleOf at h
  split at h
  · rename_i p new hnew
    split at h
    · rename_i old hold
      dsimp only at h
      split at h
      · rename_i hcheck
        cases h
        obtain ⟨-, -, hgraph, -, -, hedge, hone, hmost, -⟩ := hcheck
        exact ⟨p, old, new, rfl, hold, hnew, hgraph, hedge, rfl, hone, hmost⟩
      · cases h
    · cases h
  · cases h

section

variable {body : Report} {stored : Stored} {a : Applied} {q : Position}

theorem Accepts.follows (h : Accepts c user now body db db' stored a q) (hsound : Sound c now db)
    (hfree : db.events.get? (user, body.eventId) = none) : Follows c db.log a := by
  obtain ⟨huser, hreport, hcatalog, hevent⟩ := h.entry
  have hover : ∀ b ∈ db.log, b.key = a.key → b.event.received ≤ c.minus a.event.received 86400 := by
    intro b hb hkey
    obtain hrow | hlapsed := hsound.kept b hb
    · rw [hkey, Applied.key, huser, hreport, hfree] at hrow
      cases hrow
    · rw [hevent]
      exact hlapsed
  have hposition : ∀ q', a.position = some q' → advances (db.positions.get? user) body = true ∧ q = q' := by
    intro q' hq'
    rw [h.position] at hq'
    split at hq'
    · rename_i hcurrent
      exact ⟨hcurrent, Option.some.inj hq'⟩
    · cases hq'
  refine ⟨hover, ?_, ?_, ?_⟩
  · intro b hb hsame hreports
    have hkey : b.key = a.key := by rw [Applied.key, Applied.key, hsame, hreports]
    have hlapsed := hover b hb hkey
    rw [hevent] at hlapsed
    rw [hreports, hreport]
    exact lt_of_le_of_lt hlapsed h.window
  · intro b p q' hlast hp hq'
    obtain ⟨hcurrent, rfl⟩ := hposition q' hq'
    rw [huser] at hlast
    obtain ⟨hsequence, htimestamp, -, hreceived⟩ := h.made
    cases hprevious : db.positions.get? user with
    | none =>
      rw [hreceived]
      exact .inr (hsound.lapsed user b p hprevious hlast hp)
    | some row =>
      obtain ⟨b', hlast', hrow⟩ := hsound.positions user row hprevious
      cases hlast.symm.trans hlast'
      cases hp.symm.trans hrow
      rw [hprevious] at hcurrent
      rw [hsequence, htimestamp]
      exact .inl (by simpa [advances] using hcurrent)
  · intro row hrow
    rw [h.sample] at hrow
    split at hrow
    · rename_i hcurrent
      obtain ⟨p, old, new, hprevious, hold, hnew, hgraph, holdEdge, hnewEdge, hone, hmost⟩ := sampleOf_ok hrow
      obtain ⟨b, hlast, hp⟩ := hsound.positions user p hprevious
      have hb : b ∈ db.log := (mem_filter.mp (mem_of_getLast? hlast)).1
      have hinstalled := ((hsound.wrote b hb).2 p hp).2
      rw [hgraph] at hinstalled
      refine ⟨⟨b, p, q, old, new, by rw [huser]; exact hlast, hp, by rw [h.position, if_pos hcurrent], hold, hnew, holdEdge, hnewEdge,
        ?_, hone, hmost⟩, ?_⟩
      · rw [hcatalog]
        exact hinstalled.unique hsound.catalog
      · rw [hcatalog, ← hnewEdge]
        exact h.road new hnew
    · cases hrow

theorem Accepts.sound (h : Accepts c user now body db db' stored a q) (hsound : Sound c now db)
    (hfree : db.events.get? (user, body.eventId) = none) : Sound c now db' := by
  obtain ⟨huser, hreport, hcatalog, hevent⟩ := h.entry
  obtain ⟨hinstalled, hgraph, hcurrent⟩ := h.same
  have hkey : a.key = (user, body.eventId) := by rw [Applied.key, huser, hreport]
  have hlast : ∀ name, lastAccepted name db'.log = if a.user = name ∧ a.position.isSome then some a else lastAccepted name db.log := by
    intro name
    rw [h.log, lastAccepted_append]
  have hsome : a.position.isSome = advances (db.positions.get? user) body := by
    rw [h.position]
    split <;> simp_all
  refine ⟨?_, ?_, ?_, ?_, ?_, ?_, ?_, ?_, ?_⟩
  · intro b hb
    rw [h.log, mem_append, mem_singleton] at hb
    obtain hb | rfl := hb
    · exact hsound.past b hb
    · rw [hevent]
  · intro b hb
    rw [h.log, mem_append, mem_singleton] at hb
    rw [h.events]
    obtain hb | rfl := hb
    · by_cases hsame : b.key = (user, body.eventId)
      · have hlapsed := (h.follows hsound hfree).apart b hb (hsame.trans hkey.symm)
        rw [hevent] at hlapsed
        exact .inr hlapsed
      · rw [get?_set_of_ne _ hsame]
        exact hsound.kept b hb
    · rw [hkey, get?_set_self]
      exact .inl rfl
  · intro key row hrow
    rw [h.events] at hrow
    rw [h.log]
    obtain ⟨rfl, rfl⟩ | ⟨-, hold⟩ := get?_set_cases hrow
    · exact ⟨a, by simp, hkey, rfl⟩
    · obtain ⟨b, hb, hsame, hevent'⟩ := hsound.events key row hold
      exact ⟨b, by simp [hb], hsame, hevent'⟩
  · intro name row hrow
    rw [hlast, huser, hsome]
    rw [h.positions] at hrow
    by_cases hadvance : advances (db.positions.get? user) body = true
    · rw [if_pos hadvance] at hrow
      obtain ⟨rfl, rfl⟩ | ⟨hne, hold⟩ := get?_set_cases hrow
      · rw [if_pos ⟨rfl, hadvance⟩]
        exact ⟨a, rfl, by rw [h.position, if_pos hadvance]⟩
      · rw [if_neg fun hsame => hne hsame.1.symm]
        exact hsound.positions name row hold
    · rw [if_neg hadvance] at hrow
      rw [if_neg fun hsame => hadvance hsame.2]
      exact hsound.positions name row hrow
  · intro name b row hnone hlast' hrow
    rw [hlast, huser, hsome] at hlast'
    rw [h.positions] at hnone
    by_cases hadvance : advances (db.positions.get? user) body = true
    · rw [if_pos hadvance, get?_set] at hnone
      by_cases hsame : name = user
      · rw [if_pos hsame] at hnone
        cases hnone
      · rw [if_neg hsame] at hnone
        rw [if_neg fun hboth => hsame hboth.1.symm] at hlast'
        exact hsound.lapsed name b row hnone hlast' hrow
    · rw [if_neg hadvance] at hnone
      rw [if_neg fun hboth => hadvance hboth.2] at hlast'
      exact hsound.lapsed name b row hnone hlast' hrow
  · intro key row hrow
    rw [h.log]
    obtain ⟨rfl, hsample⟩ | hold := h.samples key row hrow
    · exact ⟨a, by simp, hkey, hsample⟩
    · obtain ⟨b, hb, hsame, hsample⟩ := hsound.samples key row hold
      exact ⟨b, by simp [hb], hsame, hsample⟩
  · intro b hb
    rw [h.log, mem_append, mem_singleton] at hb
    rw [hinstalled]
    obtain hb | rfl := hb
    · exact hsound.wrote b hb
    · refine ⟨by rw [hevent, hreport], fun row hrow => ?_⟩
      rw [h.position] at hrow
      split at hrow
      · cases hrow
        rw [h.made.2.2.1, h.made.2.2.2, hevent, hcatalog]
        exact ⟨rfl, hsound.catalog⟩
      · cases hrow
  · rw [hinstalled, hgraph, hcurrent]
    exact hsound.catalog
  · intro log b later hsplit
    rw [h.log] at hsplit
    obtain rfl | ⟨earlier, last, rfl⟩ := later.eq_nil_or_concat
    · obtain ⟨rfl, hsame⟩ := append_inj' hsplit rfl
      cases hsame
      exact h.follows hsound hfree
    · rw [concat_eq_append, ← cons_append, ← append_assoc] at hsplit
      exact hsound.follows log b earlier (append_inj' hsplit rfl).1

end

/-! ### A batch -/

/-- A batch so far: the tables are sound, no row is lost, and each report was answered by the row of its event. -/
structure Answers (c : Setup) (user : String) (now : ℚ) (start : Db) (state : Db × List Stored) (done : List Report) : Prop where
  sound : Sound c now state.1
  rows : ∀ key row, start.events.get? key = some row → state.1.events.get? key = some row
  length : state.2.length = done.length
  answered : ∀ (i : ℕ) (body : Report), done[i]? = some body → ∃ row, state.1.events.get? (user, body.eventId) = some row ∧
    row.hash = c.fingerprint body ∧ state.2[i]? = some row.result

/-- One more report, answered by a row that is there afterwards. -/
theorem Answers.append {start : Db} {state : Db × List Stored} {done : List Report}
    (h : Answers c user now start state done) {row : Event} (hsound : Sound c now db')
    (hrows : ∀ key row, state.1.events.get? key = some row → db'.events.get? key = some row)
    (hrow : db'.events.get? (user, body.eventId) = some row) (hhash : row.hash = c.fingerprint body) :
    Answers c user now start (db', state.2 ++ [row.result]) (done ++ [body]) where
  sound := hsound
  rows key row hrow := hrows key row (h.rows key row hrow)
  length := by simp [h.length]
  answered i body' hbody := by
    rcases Nat.lt_or_ge i done.length with hlt | hge
    · rw [getElem?_append_left hlt] at hbody
      obtain ⟨row', hrow', hhash', hanswer⟩ := h.answered i body' hbody
      refine ⟨row', hrows _ _ hrow', hhash', ?_⟩
      rw [getElem?_append_left (h.length ▸ hlt)]
      exact hanswer
    · have hi : i = done.length := by
        have := (List.getElem?_eq_some_iff.mp hbody).1
        rw [length_append, length_singleton] at this
        omega
      subst hi
      rw [getElem?_concat_length] at hbody
      cases hbody
      refine ⟨row, hrow, hhash, ?_⟩
      rw [← h.length, getElem?_concat_length]

theorem ingestOne_ok {start : Db} {state state' : Db × List Stored} {done : List Report}
    (h : Answers c user now start state done) (hrun : ingestOne c user now state body = .ok state') :
    Answers c user now start state' (done ++ [body]) := by
  unfold ingestOne at hrun
  replace hrun := of_check hrun
  split at hrun
  · rename_i row hrow
    obtain ⟨_, hhash, hrun⟩ := of_bind hrun
    cases hrun
    exact h.append h.sound (fun _ _ hold => hold) hrow (require_eq_ok.mp hhash)
  · rename_i hfree
    obtain ⟨⟨next, stored⟩, haccept, hrun⟩ := of_bind hrun
    cases hrun
    obtain ⟨a, q, haccepts⟩ := accept_ok haccept
    have hevent := haccepts.entry.2.2.2
    have hresult : a.event.result = stored := by rw [hevent]
    rw [← hresult]
    refine h.append (haccepts.sound h.sound hfree) ?_ ?_ (by rw [hevent])
    · intro key row hrow
      rw [haccepts.events]
      by_cases hkey : key = (user, body.eventId)
      · rw [hkey, hfree] at hrow
        cases hrow
      · rw [get?_set_of_ne _ hkey]
        exact hrow
    · rw [haccepts.events, get?_set_self]

theorem ingest_ok {reports : List Report} {stored : List Stored} (hsound : Sound c now db)
    (h : db.ingest c user reports now = .ok (db', stored)) :
    Answers c user now (db.prune c now (some user)) (db', stored) reports := by
  unfold Db.ingest at h
  replace h := of_check h
  replace h := of_check h
  replace h := of_check h
  replace h := of_check h
  replace h := of_check h
  have hstart : Answers c user now (db.prune c now (some user)) (db.prune c now (some user), []) [] := by
    refine ⟨hsound.prune _, fun _ _ hrow => hrow, rfl, fun i body hbody => ?_⟩
    rw [getElem?_nil] at hbody
    cases hbody
  exact foldlM_ok (I := fun state done => Answers c user now (db.prune c now (some user)) state done)
    (fun _ _ _ _ => ingestOne_ok) reports [] hstart h

/-! ### Other calls -/

/-- Traffic apart, nothing was written. -/
def TrafficOnly (db db' : Db) : Prop :=
  ∃ traffic revision version, db' = { db with traffic := traffic, revision := revision, trafficVersion := version }

theorem TrafficOnly.trans {db'' : Db} (h : TrafficOnly db db') (h' : TrafficOnly db' db'') : TrafficOnly db db'' := by
  obtain ⟨_, _, _, rfl⟩ := h
  obtain ⟨traffic, revision, version, rfl⟩ := h'
  exact ⟨traffic, revision, version, rfl⟩

theorem TrafficOnly.sound (h : TrafficOnly db db') (hsound : Sound c now db) : Sound c now db' := by
  obtain ⟨_, _, _, rfl⟩ := h
  exact hsound.congr rfl rfl (fun _ _ hrow => hrow) rfl ⟨[], (append_nil _).symm⟩ hsound.catalog

theorem trafficRecord_only {edge : String} {speed : Option ℚ} {closed : Bool} {expires : ℚ}
    (h : db.trafficRecord edge speed closed expires = .ok db') : TrafficOnly db db' := by
  unfold Db.trafficRecord at h
  obtain ⟨_, -, h⟩ := of_bind h
  obtain ⟨_, -, h⟩ := of_bind h
  obtain ⟨_, -, h⟩ := of_bind h
  cases h
  exact ⟨_, _, _, rfl⟩

theorem setTraffic_only {records : List TrafficRecord} {ttl : ℚ} {versions : ℕ × ℕ}
    (h : db.setTraffic c records ttl now = .ok (db', versions)) : TrafficOnly db db' := by
  unfold Db.setTraffic at h
  obtain ⟨_, -, h⟩ := of_bind h
  obtain ⟨_, -, h⟩ := of_bind h
  obtain ⟨_, -, h⟩ := of_bind h
  obtain ⟨_, -, h⟩ := of_bind h
  obtain ⟨written, hwritten, h⟩ := of_bind h
  cases h
  exact (foldlM_ok (I := fun db' _ => TrafficOnly db db') (fun _ _ _ _ h h' => h.trans (trafficRecord_only h')) _ []
    ⟨_, _, _, rfl⟩ hwritten).trans ⟨_, _, _, rfl⟩

theorem aggregateEdge_only {minUsers : ℤ} {closed : List String} {state state' : Db × List Updated}
    {e : String × Dict String ℚ} (h : aggregateEdge c minUsers now closed state e = .ok state') : TrafficOnly state.1 state'.1 := by
  unfold aggregateEdge at h
  split at h
  · cases h
    exact ⟨_, _, _, rfl⟩
  · split at h
    · obtain ⟨_, hrecord, h⟩ := of_bind h
      cases h
      exact trafficRecord_only hrecord
    · cases h
      exact ⟨_, _, _, rfl⟩

theorem aggregate_only {minUsers : ℤ} {updated : List Updated × ℕ}
    (h : db.aggregate c minUsers now = .ok (db', updated)) : TrafficOnly db db' := by
  unfold Db.aggregate at h
  replace h := of_check h
  replace h := of_check h
  obtain ⟨⟨written, records⟩, hwritten, h⟩ := of_bind h
  have honly := foldlM_ok (I := fun state _ => TrafficOnly db state.1) (fun _ _ _ _ h h' => h.trans (aggregateEdge_only h')) _ []
    ⟨_, _, _, rfl⟩ hwritten
  dsimp only at h
  split at h
  · cases h
    exact honly
  · cases h
    exact honly.trans ⟨_, _, _, rfl⟩

theorem importGraph_sound {hook : Py Unit} {u : Unit} (hsound : Sound c now db)
    (h : db.importGraph c catalog hook = .ok (db', u)) : Sound c now db' := by
  unfold Db.importGraph at h
  replace h := of_check h
  cases h
  refine hsound.congr rfl rfl (fun key row hrow => ?_) rfl ⟨[catalog], rfl⟩ ⟨db.installed.length, rfl, by simp⟩
  cases hrow

theorem provision_sound {u : Unit} (hsound : Sound c now db) (h : db.provision user = .ok (db', u)) : Sound c now db' := by
  unfold Db.provision at h
  replace h := of_check h
  replace h := of_check h
  cases h
  exact hsound.congr rfl rfl (fun _ _ hrow => hrow) rfl ⟨[], (append_nil _).symm⟩ hsound.catalog

theorem Call.sound {call : Call} {reply : Reply} (hsound : Sound c now db) (h : call.body c now db = .ok (db', reply)) :
    Sound c now db' := by
  cases call with
  | prune =>
    cases h
    exact hsound.prune none
  | provision user =>
    obtain ⟨⟨next, u⟩, hcall, h⟩ := of_bind h
    cases h
    exact provision_sound hsound hcall
  | ingest user reports =>
    obtain ⟨⟨next, stored⟩, hcall, h⟩ := of_bind h
    cases h
    exact (ingest_ok hsound hcall).sound
  | importGraph catalog hook =>
    obtain ⟨⟨next, u⟩, hcall, h⟩ := of_bind h
    cases h
    exact importGraph_sound hsound hcall
  | traffic records ttl =>
    obtain ⟨⟨next, versions⟩, hcall, h⟩ := of_bind h
    cases h
    exact (setTraffic_only hcall).sound hsound
  | aggregate minUsers =>
    obtain ⟨⟨next, updated⟩, hcall, h⟩ := of_bind h
    cases h
    exact (aggregate_only hcall).sound hsound

theorem Sound.perform (hsound : Sound c now db) (call : Call) : Sound c now (db.perform c call now).1 := by
  obtain ⟨next, reply, hcall, hrun⟩ | ⟨e, -, hrun⟩ := transaction_cases db (call.body c now)
  · rw [Db.perform, hrun]
    exact call.sound hsound hcall
  · rw [Db.perform, hrun]
    exact hsound

/-! ### Whole runs -/

theorem Sound.new (now : ℚ) : Sound c now (.new c) where
  past _ h := by cases h
  kept _ h := by cases h
  events _ _ h := by cases h
  positions _ _ h := by cases h
  lapsed _ _ _ _ h := by cases h
  samples _ _ h := by cases h
  wrote _ h := by cases h
  catalog := ⟨0, rfl, rfl⟩
  follows log a later h := by cases log <;> cases h

theorem telemetry_sound {s : Server} (h : (telemetry c).Reachable s) : Sound c s.clock s.db := by
  refine h.invariant (P := fun s => Sound c s.clock s.db) ?_ ?_
  · rintro s rfl
    exact .new 0
  · rintro s s' - hsound ⟨call, hclock, hdb⟩
    rw [hdb]
    exact (hsound.later hclock).perform call

theorem perform_ingest {reports : List Report} {stored : List Stored}
    (h : (db.perform c (.ingest user reports) now).2 = .ok (.reports stored)) :
    db.ingest c user reports now = .ok ((db.perform c (.ingest user reports) now).1, stored) := by
  obtain ⟨next, reply, hcall, hrun⟩ | ⟨e, -, hrun⟩ := transaction_cases db (Call.body c now (.ingest user reports))
  · rw [Db.perform, hrun] at h ⊢
    obtain ⟨⟨next', stored'⟩, hingest, hcall⟩ := of_bind hcall
    cases hcall
    cases h
    exact hingest
  · rw [Db.perform, hrun] at h
    cases h

/-- A call that fails changes nothing; what is accepted follows what was accepted before; positions and samples
are what accepted reports wrote; a batch that returns answers each report with what its event stored, and
that is what an earlier acceptance stored while its row is not over. -/
theorem ingestion_exact {s : Server} (h : (telemetry c).Reachable s) :
    (∀ log a later, s.db.log = log ++ a :: later → Follows c log a) ∧
    (∀ user row, s.db.positions.get? user = some row → ∃ a, lastAccepted user s.db.log = some a ∧ a.position = some row) ∧
    (∀ key row, s.db.samples.get? key = some row → ∃ a ∈ s.db.log, a.key = key ∧ a.sample = some row) ∧
    ∀ now, s.clock ≤ now → (∀ call e, (s.db.perform c call now).2 = .error e → (s.db.perform c call now).1 = s.db) ∧
      ∀ user reports stored, (s.db.perform c (.ingest user reports) now).2 = .ok (.reports stored) →
        stored.length = reports.length ∧ ∀ (i : ℕ) (body : Report), reports[i]? = some body →
          ∃ a ∈ (s.db.perform c (.ingest user reports) now).1.log, a.key = (user, body.eventId) ∧
            a.event.hash = c.fingerprint body ∧ stored[i]? = some a.event.result ∧
            ∀ b ∈ s.db.log, b.key = a.key → c.minus now 86400 < b.event.received → a.event = b.event := by
  have hsound := telemetry_sound h
  refine ⟨hsound.follows, hsound.positions, hsound.samples, fun now hnow => ⟨fun call e herror => ?_, ?_⟩⟩
  · obtain ⟨next, reply, -, hrun⟩ | ⟨e', -, hrun⟩ := transaction_cases s.db (call.body c now)
    · rw [Db.perform, hrun] at herror
      cases herror
    · rw [Db.perform, hrun]
  · intro user reports stored hreply
    have hlater := hsound.later hnow
    have hanswers := ingest_ok hlater (perform_ingest hreply)
    refine ⟨hanswers.length, fun i body hbody => ?_⟩
    obtain ⟨row, hrow, hhash, hresult⟩ := hanswers.answered i body hbody
    obtain ⟨a, ha, hkey, rfl⟩ := hanswers.sound.events _ row hrow
    refine ⟨a, ha, hkey, hhash, hresult, fun b hb hsame hretained => ?_⟩
    obtain hkept | hlapsed := hlater.kept b hb
    · have hpruned : (s.db.prune c now (some user)).events.get? b.key = some b.event := by
        simp [Db.prune, get?_keepRows, hkept, hretained]
      have hstill := hanswers.rows _ _ hpruned
      rw [hsame, hkey, hrow] at hstill
      exact Option.some.inj hstill
    · exact absurd hretained (not_lt.mpr hlapsed)

/-! ### A report ahead of its receipt -/

/-- A map without roads. -/
def plain : Setup where
  minus a b := a - b
  plus a b := a + b
  minus_mono _ _ _ h := by simpa using h
  nearbyBoxes _ _ := []
  spatialEdges _ _ := []
  spatialEdges_mem _ _ _ h := by cases h
  matchPoint _ _ := (0, 0, 0)
  turn _ _ := 0
  speed _ _ _ _ := 0
  mean _ := 0
  fingerprint body := body.eventId
  uuid n := String.ofList (List.replicate n 'a')
  uuid_injective n m h := by simpa using congrArg (fun s : String => s.toList.length) h

def aheadReport : Report := ⟨"e", 1, 30, some 0, some 0, none, none⟩

/-- What accepting the report at a time writes. -/
def aheadApplied (now : ℚ) : Applied :=
  ⟨"u", aheadReport, ⟨"e", ⟨"e", 1, true, "a", none, aheadReport⟩, now⟩, some ⟨1, 30, 0, 0, "a", "driving", none, now⟩, none, ⟨[]⟩⟩

theorem perform_reachable {s : Server} (h : (telemetry c).Reachable s) (call : Call) (now : ℚ) (hnow : s.clock ≤ now) :
    (telemetry c).Reachable ⟨now, (s.db.perform c call now).1⟩ :=
  h.step ⟨call, hnow, rfl⟩

/-- The same report, a day after its receipt. -/
theorem ahead_again : ∃ s, (telemetry plain).Reachable s ∧ s.db.log = [aheadApplied 0, aheadApplied 86400] := by
  have h0 : (telemetry plain).Reachable ⟨0, .new plain⟩ := .start rfl
  have h1 := perform_reachable h0 (.provision "u") 0 le_rfl
  have h2 := perform_reachable h1 (.importGraph ⟨[]⟩ (.ok ())) 0 le_rfl
  have h3 := perform_reachable h2 (.ingest "u" [aheadReport]) 0 le_rfl
  have h4 := perform_reachable h3 (.ingest "u" [aheadReport]) 86400 (by norm_num)
  exact ⟨_, h4, by decide +kernel⟩

theorem event_not_once : ¬ ∀ s, (telemetry plain).Reachable s → (s.db.log.map Applied.key).Nodup := by
  intro hall
  obtain ⟨s, hreachable, hlog⟩ := ahead_again
  have hnodup := hall s hreachable
  rw [hlog] at hnodup
  exact absurd hnodup (by decide +kernel)

theorem ingestion_exact_ahead : ∃ s, (telemetry plain).Reachable s ∧ s.db.log = [aheadApplied 0, aheadApplied 86400] ∧
    Follows plain [aheadApplied 0] (aheadApplied 86400) := by
  obtain ⟨s, hreachable, hlog⟩ := ahead_again
  exact ⟨s, hreachable, hlog, (ingestion_exact hreachable).1 _ _ [] hlog⟩

end SystemDesign.Maps
