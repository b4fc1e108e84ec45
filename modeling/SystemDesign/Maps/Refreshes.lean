import SystemDesign.Maps.Sessions

/-!
Which routes are refreshed.

A session keeps the state that its route was computed in. A change of the store that a run has read lies before that
state or leaves the roads of the route alone, if every step is tidy.
-/

namespace SystemDesign.Maps

open List hiding not_lt

variable {c : Tracker}

/-! ### Tidy steps -/

def RunPhase.affected : RunPhase → Option (List Box)
  | .state => none
  | .boxes affected => some affected
  | .rows affected _ _ => some affected
  | .routed affected _ _ _ _ _ _ _ => some affected

def RunPhase.listed : RunPhase → Prop
  | .rows _ _ _ => True
  | .routed _ _ _ _ _ _ _ _ => True
  | _ => False

namespace Tracking

variable {s s' : Tracking} {tidy : Prop}

/-- What a run knows, and which sessions it has still to look at. -/
structure RunCurrent (c : Tracker) (s : Tracking) (run : Run) : Prop where
  began : run.began = s.lastRead
  graph : run.graph = (s.states run.began).db.graph
  traffic : run.traffic = active (s.states run.began)
  unforced : run.force = false → ∃ last, s.finished = some last ∧ (s.states last).db.graph = run.graph ∧
    ∀ edge, (active (s.states last)).get? edge ≠ run.traffic.get? edge → edge ∈ run.changed
  boxes : run.force = false → ∀ affected, run.phase.affected = some affected →
    ∀ edge ∈ (s.states run.began).db.catalog.edges, edge.id ∈ run.changed → ∀ box ∈ c.boxes edge, box ∈ affected
  rows : run.phase.listed → ∀ id x, s.sessions.get? id = some x → s.server.clock < x.expires →
    s.Untouched x.result x.read run.began ∨ (id, x) ∈ run.phase.pending
  routed : ∀ affected now id row result tile read rest, run.phase = .routed affected now id row result tile read rest →
    run.began ≤ read

/-- What the last run that completed had read leaves every session alone. -/
structure Current (c : Tracker) (s : Tracking) : Prop where
  last : s.lastRead ≤ s.age
  done : ∀ last, s.finished = some last → last ≤ s.lastRead ∧ ∀ id x, s.sessions.get? id = some x →
    s.server.clock < x.expires → s.Untouched x.result x.read last
  previous : ∀ snapshot, s.previous = some snapshot → ∃ last, s.finished = some last ∧
    snapshot = ((s.states last).db.graph, active (s.states last))
  run : ∀ run, s.run = some run → RunCurrent c s run

variable {result : Result}

theorem Untouched.mono {first last last' : ℕ} (h : s.Untouched result first last) (hle : last' ≤ last) :
    s.Untouched result first last' := fun n hn hlt => h n hn (hlt.trans_le hle)

theorem untouched_of_le {first last : ℕ} (hle : last ≤ first) : s.Untouched result first last :=
  fun _ hn hlt => absurd hlt (by omega)

theorem Untouched.advance {first last : ℕ} (h : s.Untouched result first last) (hle : last ≤ s.age) (server : Server) :
    (s.advance server).Untouched result first last := by
  intro n hn hlt htouches
  refine h n hn hlt ?_
  unfold Touches at htouches ⊢
  rwa [advance_states (by omega), advance_states (by omega)] at htouches

theorem mem_changedEdges {old new : Dict String Traffic} {edge : String} (h : old.get? edge ≠ new.get? edge) :
    edge ∈ changedEdges old new := by
  refine mem_filter.mpr ⟨mem_dedup.mpr (mem_append.mpr ?_), decide_eq_true h⟩
  by_contra hnot
  rw [not_or, Dict.mem_keys, Dict.mem_keys, ← Option.ne_none_iff_exists', ← Option.ne_none_iff_exists', not_not, not_not] at hnot
  exact h (hnot.1.trans hnot.2.symm)

/-- A row that a run passes by has not been touched since its route was computed. -/
theorem RunCurrent.passed (hs : s.Sound c) (h : s.Current c) {run : Run} (hrun : s.run = some run) {affected : List Box} {now : ℚ}
    {id : String} {row : Session} (haffected : run.phase.affected = some affected) (hrow : s.sessions.get? id = some row)
    (hlive : s.server.clock < row.expires) (hpasses : run.passes c affected now row = true)
    (hvisible : s.Visible c run row.result) : s.Untouched row.result row.read run.began := by
  have hr := h.run run hrun
  simp only [Run.passes, Bool.and_eq_true, Bool.not_eq_true'] at hpasses
  obtain ⟨⟨hforce, -⟩, hmisses⟩ := hpasses
  obtain ⟨last, hlast, hgraph, hchanged⟩ := hr.unforced hforce
  have hbegan : run.began ≤ s.age := hr.began ▸ h.last
  have hdone := (h.done last hlast).2 id row hrow hlive
  have hsame : (s.states last).db.graph = (s.states run.began).db.graph := hgraph.trans hr.graph
  have hgraphs : ∀ n, row.read ≤ n → n < run.began → (s.states n).db.graph = (s.states (n + 1)).db.graph := by
    intro n hn hlt
    by_cases hbefore : n < last
    · by_contra hne
      exact hdone n hn hbefore (.inl hne)
    · have hhere := (hs.catalogued.unchanged hbegan hsame (not_lt.mp hbefore) hlt.le).1
      have hnext := (hs.catalogued.unchanged hbegan hsame (Nat.le_succ_of_le (not_lt.mp hbefore)) hlt).1
      exact hhere.trans hnext.symm
  intro n hn hlt htouches
  obtain hne | ⟨route, hroute, edge, hedge, hdiffers⟩ := htouches
  · exact hne (hgraphs n hn hlt)
  · by_cases hbefore : n < last
    · exact hdone n hn hbefore (.inr ⟨route, hroute, edge, hedge, hdiffers⟩)
    · obtain ⟨hseen, hmeets⟩ := hvisible route hroute edge hedge
      have hnow : (active (s.states last)).get? edge.id ≠ (active (s.states run.began)).get? edge.id := fun heq =>
        hdiffers (hseen last hlast heq n (not_lt.mp hbefore) hlt)
      rw [← hr.traffic] at hnow
      obtain ⟨hcompute, htile⟩ | ⟨hnone, -⟩ := (hs.honest id row hrow).result
      · obtain ⟨result, hresult, hcompute⟩ := of_bind hcompute
        replace hcompute := of_check hcompute
        cases hcompute
        obtain ⟨hconnected, hroads⟩ := c.route_path _ _ _ _ hresult route hroute
        have hcatalog := (hs.catalogued.unchanged hbegan (graph_eq (by omega) hgraphs) (by omega : row.read ≤ run.began) le_rfl).2
        have hbox := hr.boxes hforce affected haffected edge (hcatalog ▸ hroads edge hedge) (hchanged edge.id hnow)
        obtain ⟨z, hz, hcover⟩ := cover_eq hroute (hconnected.source_mem hedge)
        have htrue := intersects_of_subset (hmeets z hz) hbox
        rw [← hcover, ← htile, hmisses] at htrue
        cases htrue
      · rw [hnone] at hroute
        cases hroute

/-- Sessions that change get a route that has not been touched up to what was last read. -/
theorem Current.sessions (h : s.Current c) {sessions : Dict String Session} {drawn : ℕ} {works : ℕ → Option Work}
    (hnew : ∀ id x, sessions.get? id = some x → s.sessions.get? id = some x ∨ s.Untouched x.result x.read s.lastRead) :
    Current c { s with sessions := sessions, drawn := drawn, works := works } := by
  refine ⟨h.last, fun last hlast => ?_, h.previous, fun run hrun => ?_⟩
  · obtain ⟨hle, hdone⟩ := h.done last hlast
    refine ⟨hle, fun id x hx hlive => ?_⟩
    obtain hold | huntouched := hnew id x hx
    · exact hdone id x hold hlive
    · exact huntouched.mono hle
  · have hr := h.run run hrun
    refine ⟨hr.began, hr.graph, hr.traffic, hr.unforced, hr.boxes, fun hlisted id x hx hlive => ?_, hr.routed⟩
    obtain hold | huntouched := hnew id x hx
    · exact hr.rows hlisted id x hold hlive
    · exact .inl (huntouched.mono hr.began.le)

theorem Current.stop (h : s.Current c) {previous : Option (String × Dict String Traffic)}
    (hprevious : previous = s.previous ∨ previous = none) : Current c { s with run := none, previous := previous } := by
  refine ⟨h.last, h.done, fun snapshot hsnapshot => ?_, ?_⟩
  · obtain rfl | rfl := hprevious
    · exact h.previous snapshot hsnapshot
    · cases hsnapshot
  · rintro run ⟨⟩

/-- A run that goes on, with the sessions as they are. -/
theorem Current.goOn (h : s.Current c) {run : Run} (hrun : s.run = some run) {phase : RunPhase}
    (hboxes : run.force = false → ∀ affected, phase.affected = some affected →
      ∀ edge ∈ (s.states run.began).db.catalog.edges, edge.id ∈ run.changed → ∀ box ∈ c.boxes edge, box ∈ affected)
    (hrows : phase.listed → ∀ id x, s.sessions.get? id = some x → s.server.clock < x.expires →
      s.Untouched x.result x.read run.began ∨ (id, x) ∈ phase.pending)
    (hrouted : ∀ affected now id row result tile read rest, phase = .routed affected now id row result tile read rest →
      run.began ≤ read) : Current c { s with run := some { run with phase := phase } } := by
  have hr := h.run run hrun
  refine ⟨h.last, h.done, h.previous, ?_⟩
  rintro _ ⟨⟩
  exact ⟨hr.began, hr.graph, hr.traffic, hr.unforced, hboxes, hrows, hrouted⟩

theorem Tracks.current (hstep : Tracks c s tidy s') (htidy : tidy) (hs : s.Sound c) (h : s.Current c) : s'.Current c := by
  cases hstep with
  | perform call clock hclock =>
    refine ⟨h.last.trans (Nat.le_succ _), fun last hlast => ?_, fun snapshot hsnapshot => ?_, fun run hrun => ?_⟩
    · obtain ⟨hle, hdone⟩ := h.done last hlast
      refine ⟨hle, fun id x hx hlive => (hdone id x hx ?_).advance (hle.trans h.last) _⟩
      rw [server_advance] at hlive
      exact hclock.trans_lt hlive
    · obtain ⟨last, hlast, hsame⟩ := h.previous snapshot hsnapshot
      refine ⟨last, hlast, ?_⟩
      rw [advance_states ((h.done last hlast).1.trans h.last)]
      exact hsame
    · have hr := h.run run hrun
      have hbegan : run.began ≤ s.age := hr.began ▸ h.last
      refine ⟨hr.began, ?_, ?_, fun hforce => ?_, ?_, fun hlisted id x hx hlive => ?_, hr.routed⟩
      · rw [advance_states hbegan]
        exact hr.graph
      · rw [advance_states hbegan]
        exact hr.traffic
      · obtain ⟨last, hlast, hsame⟩ := hr.unforced hforce
        refine ⟨last, hlast, ?_⟩
        rw [advance_states ((h.done last hlast).1.trans h.last)]
        exact hsame
      · rw [advance_states hbegan]
        exact hr.boxes
      · rw [server_advance] at hlive
        exact (hr.rows hlisted id x hx (hclock.trans_lt hlive)).imp_left fun huntouched => huntouched.advance hbegan _
  | createRoute i hfree user options ttl httl hcompute => exact h.sessions fun id x hx => .inl hx
  | create i user options ttl result read hwork huser hroom =>
    refine h.sessions fun id x hx => ?_
    obtain ⟨-, rfl⟩ | ⟨-, hx⟩ := Dict.get?_set_cases hx
    · exact .inr htidy
    · exact .inl (kept_get?.mp hx).1
  | moveRead i hfree user id origin hlookup => exact h.sessions fun id x hx => .inl hx
  | moveRoute i user id options revision hwork hcompute => exact h.sessions fun id x hx => .inl hx
  | move i user id options revision result read hwork hlookup hrevision =>
    refine h.sessions fun id' x hx => ?_
    obtain ⟨-, rfl⟩ | ⟨-, hx⟩ := Dict.get?_set_cases hx
    · exact .inr htidy
    · exact .inl hx
  | drop i => exact h.sessions fun id x hx => .inl hx
  | remove user id hrow huser =>
    refine h.sessions fun id' x hx => .inl ?_
    rw [Dict.get?_erase] at hx
    split at hx
    · cases hx
    · exact hx
  | runState hrun hready =>
    refine ⟨le_rfl, fun last hlast => ?_, h.previous, ?_⟩
    · obtain ⟨hle, hdone⟩ := h.done last hlast
      exact ⟨hle.trans h.last, hdone⟩
    · rintro _ ⟨⟩
      refine ⟨rfl, rfl, rfl, fun hforce => ?_, by intros; contradiction, by intros; contradiction,
        fun _ _ _ _ _ _ _ _ hrouted => RunPhase.noConfusion hrouted⟩
      cases hprevious : s.previous with
      | none =>
        rw [hprevious] at hforce
        simp [Run.start] at hforce
      | some snapshot =>
        obtain ⟨last, hlast, rfl⟩ := h.previous snapshot hprevious
        rw [hprevious] at hforce
        simp only [Run.start, Option.elim_some, Bool.or_eq_false_iff, decide_eq_false_iff_not, not_not] at hforce
        exact ⟨last, hlast, hforce.1, fun edge hdiffers => mem_changedEdges hdiffers⟩
  | runBoxes run hrun hphase =>
    have hr := h.run run hrun
    refine h.goOn hrun (fun hforce affected haffected edge hedge hmem box hbox => ?_) (by intros; contradiction)
      fun _ _ _ _ _ _ _ _ hrouted => RunPhase.noConfusion hrouted
    cases haffected
    have hcatalog := (hs.catalogued.unchanged le_rfl (hr.graph.symm.trans htidy.symm) (hr.began ▸ h.last) le_rfl).2
    unfold Run.affected
    rw [if_neg]
    · refine mem_flatMap.mpr ⟨edge, mem_filter.mpr ⟨?_, decide_eq_true hmem⟩, hbox⟩
      rw [server, hcatalog]
      exact hedge
    · rw [hforce, Bool.false_or, List.isEmpty_iff]
      exact ne_nil_of_mem hmem
  | runRows run hrun affected hphase rows hrows =>
    have hr := h.run run hrun
    have hkept : Current c { s with sessions := s.kept } := h.sessions fun id x hx => .inl (kept_get?.mp hx).1
    refine hkept.goOn hrun (fun hforce affected' haffected' => ?_) (fun _ id x hx _ => .inr ?_) fun _ _ _ _ _ _ _ _ hrouted =>
      RunPhase.noConfusion hrouted
    · exact hr.boxes hforce affected' (by rw [hphase]; exact haffected')
    · exact hrows.mem_iff.mpr (Dict.mem_entries.mpr hx)
  | runPass run hrun affected now id row rest hphase hpasses =>
    have hr := h.run run hrun
    refine h.goOn hrun (fun hforce affected' haffected' => ?_) (fun _ id' x hx hlive => ?_) fun _ _ _ _ _ _ _ _ hrouted =>
      RunPhase.noConfusion hrouted
    · exact hr.boxes hforce affected' (by rw [hphase]; exact haffected')
    · have hrows := hr.rows (by rw [hphase]; trivial) id' x hx hlive
      rw [hphase] at hrows
      obtain huntouched | hpending := hrows
      · exact .inl huntouched
      · obtain heq | hpending := mem_cons.mp hpending
        · cases heq
          exact .inl (RunCurrent.passed hs h hrun (by rw [hphase]; rfl) hx hlive hpasses htidy)
        · exact .inr hpending
  | runRoute run hrun affected now id row rest hphase hdue hrefresh =>
    have hr := h.run run hrun
    refine h.goOn hrun (fun hforce affected' haffected' => ?_) (fun _ id' x hx hlive => ?_) ?_
    · exact hr.boxes hforce affected' (by rw [hphase]; exact haffected')
    · have hrows := hr.rows (by rw [hphase]; trivial) id' x hx hlive
      rwa [hphase] at hrows
    · rintro _ _ _ _ _ _ _ _ ⟨⟩
      exact hr.began ▸ h.last
  | runInstall run hrun affected now id row result tile read rest hphase =>
    have hr := h.run run hrun
    have hread := hr.routed affected now id row result tile read rest hphase
    have hnew : ∀ id' x', (s.refreshed c id row result tile read).get? id' = some x' →
        s.sessions.get? id' = some x' ∨ s.Untouched x'.result x'.read s.lastRead := by
      intro id' x' hx'
      obtain ⟨rfl, x, -, -, rfl⟩ | ⟨hx', -⟩ := refreshed_cases hx'
      · exact .inr (untouched_of_le (hr.began ▸ hread))
      · exact .inl hx'
    have hset : Current c { s with sessions := s.refreshed c id row result tile read } := h.sessions hnew
    refine hset.goOn hrun (fun hforce affected' haffected' => ?_) (fun _ id' x' hx' hlive => ?_) fun _ _ _ _ _ _ _ _ hrouted =>
      RunPhase.noConfusion hrouted
    · exact hr.boxes hforce affected' (by rw [hphase]; exact haffected')
    · obtain ⟨rfl, x, -, -, rfl⟩ | ⟨hx', hcas⟩ := refreshed_cases hx'
      · exact .inl (untouched_of_le hread)
      · have hrows := hr.rows (by rw [hphase]; trivial) id' x' hx' hlive
        rw [hphase] at hrows
        obtain huntouched | hpending := hrows
        · exact .inl huntouched
        · obtain heq | hpending := mem_cons.mp hpending
          · cases heq
            exact absurd rfl (hcas rfl hlive)
          · exact .inr hpending
  | runDone run hrun affected now hphase =>
    have hr := h.run run hrun
    refine ⟨h.last, ?_, ?_, ?_⟩
    · rintro _ ⟨⟩
      refine ⟨hr.began.le, fun id x hx hlive => ?_⟩
      obtain huntouched | hpending := hr.rows (by rw [hphase]; trivial) id x hx hlive
      · exact huntouched
      · rw [hphase] at hpending
        cases hpending
    · rintro _ ⟨⟩
      exact ⟨run.began, rfl, by rw [hr.graph, hr.traffic]⟩
    · rintro run ⟨⟩
  | runFails => exact h.stop (.inl rfl)
  | restart => exact h.stop (.inr rfl)

theorem init_current : (init c).Current c where
  last := le_rfl
  done _ hlast := by cases hlast
  previous _ hsnapshot := by cases hsnapshot
  run _ hrun := by cases hrun

theorem tidy_reachable (h : (tidyTracking c).Reachable s) : (tracking c).Reachable s := by
  induction h with
  | start h => exact .start h
  | step _ hstep ih =>
    obtain ⟨tidy, hstep, -⟩ := hstep
    exact ih.step ⟨tidy, hstep⟩

theorem tidyTracking_current (h : (tidyTracking c).Reachable s) : s.Current c := by
  induction h with
  | start h => exact h ▸ init_current
  | step hreachable hstep ih =>
    obtain ⟨tidy, hstep, htidy⟩ := hstep
    exact Tracks.current hstep htidy (tracking_sound (tidy_reachable hreachable)) ih

end Tracking

open Tracking

/-- In every run a session shows a route for its own options, and its revision grows whenever its route or its options
change. If every step is tidy, then no live session shows a route that was touched before a state that a completed run
has read. -/
theorem navigation_current :
    (∀ s, (tracking c).Reachable s →
      (∀ id x, s.sessions.get? id = some x → Honest c s.states s.age x.options x.result x.tile x.read) ∧
      (∀ user id after events, s.events user id after = .ok events → ∃ row, s.sessions.get? id = some row ∧ row.user = user ∧
        ((after < row.revision ∧ events = [(row.revision, row.result)]) ∨ (row.revision = after ∧ events = []))) ∧
      ∀ s', Relation.ReflTransGen (tracking c).step s s' → ∀ id x x', s.sessions.get? id = some x →
        s'.sessions.get? id = some x' → x'.user = x.user ∧ x.revision ≤ x'.revision ∧
          (x'.result ≠ x.result ∨ x'.options ≠ x.options → x.revision < x'.revision)) ∧
    ∀ s, (tidyTracking c).Reachable s → ∀ last, s.finished = some last → ∀ id x, s.sessions.get? id = some x →
      s.server.clock < x.expires → s.Untouched x.result x.read last := by
  refine ⟨fun s h => ?_, fun s h last hlast => ((tidyTracking_current h).done last hlast).2⟩
  have hs := tracking_sound h
  refine ⟨hs.honest, fun user id after events => events_newest, fun s' hrun id x x' hx hx' => ?_⟩
  obtain ⟨old, hold, hlater⟩ := (run_later hs hrun).2.2 id x' hx' (hs.known id x hx)
  cases hx.symm.trans hold
  refine ⟨hlater.user, hlater.revision, fun hchanged => lt_of_le_of_ne hlater.revision fun heq => ?_⟩
  obtain ⟨hresult, hoptions⟩ := hlater.same heq.symm
  exact hchanged.elim (absurd hresult) (absurd hoptions)

/-! ### A session that begins late -/

def lane : Edge := ⟨"e", (0, 0), (0, 1), 111195, ["driving"]⟩

def laneResult (db : Db) : Result := ⟨db.graph, db.trafficVersion, [⟨(0, 0), [lane], ""⟩], none, ""⟩

/-- A map of one road, on the equator; routes go along it unless it is closed. -/
def laneTracker : Tracker where
  setup := plain
  route db now _ :=
    if lane ∈ db.catalog.edges ∧ ((active ⟨now, db⟩).get? lane.id).all (fun row => !row.closed) = true then .ok (laneResult db)
    else .error (.http 404 "destination unreachable for selected mode/options")
  route_path db now _ result h r hr := by
    split at h
    · rename_i hlane
      cases h
      cases mem_singleton.mp hr
      exact ⟨⟨rfl, trivial⟩, fun edge hedge => mem_singleton.mp hedge ▸ hlane.1⟩
    · cases h
  size _ := 300
  project point := ((point.2 + 180) / 360, 1 / 2)
  unproject x y := (180 * (1 - 2 * y), x * 360 - 180)
  refreshInterval := 30
  maxSessions := 128

theorem idle_run {s : Tracking} (h : (tidyTracking c).Reachable s) (hrun : s.run = none) (hready : s.server.db.ready = true)
    (hnone : s.sessions = .empty) : ∃ s', (tidyTracking c).Reachable s' ∧ s'.states = s.states ∧ s'.server = s.server ∧
      s'.sessions = .empty ∧ s'.drawn = s.drawn ∧ s'.works = s.works ∧ s'.lastRead = s.age ∧ s'.finished = some s.age := by
  have hkept : s.kept = .empty := by
    unfold Tracking.kept
    rw [hnone]
    rfl
  have hrows : ([] : List (String × Session)).Perm s.kept.entries := by rw [hkept]; exact .refl _
  have h1 := h.step ⟨_, .runState hrun hready, trivial⟩
  have h2 := h1.step ⟨_, .runBoxes _ rfl rfl, rfl⟩
  have h3 := h2.step ⟨_, .runRows _ rfl _ rfl [] hrows, trivial⟩
  have h4 := h3.step ⟨_, .runDone _ rfl _ _ rfl, trivial⟩
  exact ⟨_, h4, rfl, rfl, hkept, rfl, rfl, rfl, rfl⟩

/-- The tables after a user was provisioned and a number of installations. -/
def laneDb (installed : ℕ) : Db := { Db.new plain with
  users := ["ann"]
  ready := installed ≠ 0
  graph := plain.uuid installed
  revision := installed
  catalog := if installed = 0 then ⟨[]⟩ else ⟨[lane]⟩
  installed := ⟨[]⟩ :: List.replicate installed ⟨[lane]⟩ }

def laneWork (read : ℕ) : Work := .create "ann" ⟨"A", "B"⟩ 900 (laneResult (laneDb 1)) read

/-- A state without sessions and runs. -/
def idle (states : ℕ → Server) (age : ℕ) (works : ℕ → Option Work) : Tracking where
  states := states
  age := age
  sessions := .empty
  drawn := 0
  works := works
  previous := none
  run := none
  lastRead := 0
  finished := none

/-- A route is computed for a new session. -/
theorem lane_computed : ∃ states : ℕ → Server,
    (tidyTracking laneTracker).Reachable (idle states 2 (Function.update (fun _ => none) 0 (some (laneWork 2)))) ∧
    states 2 = ⟨0, laneDb 1⟩ := by
  have h0 : (tidyTracking laneTracker).Reachable (idle (fun _ => ⟨0, .new plain⟩) 0 fun _ => none) := .start rfl
  have h1 := h0.step ⟨_, .perform (.provision "ann") 0 le_rfl, trivial⟩
  have h2 := h1.step ⟨_, .perform (.importGraph ⟨[lane]⟩ (.ok ())) 0 (by rw [server_advance]), trivial⟩
  have hcompute : laneTracker.compute ⟨"A", "B"⟩ ⟨0, laneDb 1⟩ = .ok (laneResult (laneDb 1)) := rfl
  have h3 := h2.step ⟨_, .createRoute 0 rfl "ann" ⟨"A", "B"⟩ 900 (by norm_num) hcompute, trivial⟩
  exact ⟨_, h3, rfl⟩

def laneSession (read : ℕ) : Session :=
  ⟨"ann", ⟨"A", "B"⟩, laneResult (laneDb 1), 1, plain.plus 0 900, 0, plain.plus 0 30, laneTracker.cover (laneResult (laneDb 1)), read⟩

/-- The call that computed a route stores its session. -/
theorem lane_stored {s : Tracking} {read installed : ℕ} (hwork : s.works 0 = some (laneWork read))
    (hserver : s.server = ⟨0, laneDb installed⟩) (hsessions : s.sessions = .empty) (hdrawn : s.drawn = 0) :
    ∃ s', Tracks laneTracker s (s.Untouched (laneResult (laneDb 1)) read s.lastRead) s' ∧ s'.states = s.states ∧
      s'.finished = s.finished ∧ s'.server = s.server ∧ s'.sessions.get? (plain.uuid 0) = some (laneSession read) := by
  have hkept : s.kept = .empty := by
    unfold Tracking.kept
    rw [hsessions]
    rfl
  have hann : "ann" ∈ (laneDb installed).users := mem_singleton_self _
  refine ⟨_, .create 0 "ann" ⟨"A", "B"⟩ 900 (laneResult (laneDb 1)) read hwork ?_ ?_, rfl, rfl, rfl, ?_⟩
  · rw [hserver]
    exact hann
  · rw [hkept]
    decide
  · rw [hdrawn, hserver]
    exact Dict.get?_set_self _ _ _

theorem laneSession_live (read : ℕ) : 0 < (laneSession read).expires := by
  norm_num [laneSession, plain]

/-- The graph is installed again and a run completes before the session is stored. -/
theorem navigation_late : ¬ ∀ s, (tracking laneTracker).Reachable s → ∀ last, s.finished = some last → ∀ id x,
    s.sessions.get? id = some x → s.server.clock < x.expires → s.Untouched x.result x.read last := by
  intro hall
  obtain ⟨states, h0, hstate⟩ := lane_computed
  have hserver : (idle states 2 (Function.update (fun _ => none) 0 (some (laneWork 2)))).server = ⟨0, laneDb 1⟩ := hstate
  have h1 := h0.step ⟨_, .perform (.importGraph ⟨[lane]⟩ (.ok ())) 0 (by rw [hserver]), trivial⟩
  rw [hserver] at h1
  obtain ⟨s, h2, hstates, hlater, hsessions, hdrawn, hworks, -, hfinished⟩ := idle_run h1 rfl (by rw [server_advance]; rfl) rfl
  have hwork : s.works 0 = some (laneWork 2) := by
    rw [hworks]
    rfl
  have hagain : s.server = ⟨0, laneDb 2⟩ := hlater.trans (server_advance _)
  obtain ⟨s', hstored, hstates', hfinished', hlater', hget⟩ := lane_stored hwork hagain hsessions hdrawn
  have h3 := (tidy_reachable h2).step ⟨_, hstored⟩
  have huntouched := hall s' h3 3 (hfinished'.trans hfinished) _ _ hget
    (by rw [hlater', hagain]; exact laneSession_live 2)
  refine huntouched 2 le_rfl (by decide) (.inl ?_)
  have hbefore : s'.states 2 = ⟨0, laneDb 1⟩ := by
    rw [hstates', hstates]
    exact (advance_states le_rfl _).trans hstate
  have hafter : s'.states 3 = ⟨0, laneDb 2⟩ := by
    rw [hstates', hstates]
    exact server_advance (⟨0, laneDb 2⟩ : Server)
  rw [hbefore, hafter]
  decide

/-- A session that is stored while no run has begun is current after the run. -/
theorem navigation_current_lane : ∃ s, (tidyTracking laneTracker).Reachable s ∧ s.finished = some 2 ∧
    s.sessions.get? (plain.uuid 0) = some (laneSession 2) ∧ s.Untouched (laneSession 2).result 2 2 := by
  obtain ⟨states, h0, hstate⟩ := lane_computed
  have hserver : (idle states 2 (Function.update (fun _ => none) 0 (some (laneWork 2)))).server = ⟨0, laneDb 1⟩ := hstate
  obtain ⟨s, h1, hstates, hsame, hsessions, hdrawn, hworks, hlast, hfinished⟩ := idle_run h0 rfl (by rw [hserver]; rfl) rfl
  have hwork : s.works 0 = some (laneWork 2) := by
    rw [hworks]
    rfl
  obtain ⟨s', hstored, hstates', hfinished', hsame', hget⟩ := lane_stored hwork (hsame.trans hserver) hsessions hdrawn
  have h2 := h1.step ⟨_, hstored, untouched_of_le (hlast.trans_le le_rfl)⟩
  refine ⟨s', h2, hfinished'.trans hfinished, hget, ?_⟩
  exact navigation_current.2 s' h2 2 (hfinished'.trans hfinished) _ _ hget (by rw [hsame', hsame, hserver]; exact laneSession_live 2)

end SystemDesign.Maps
