import SystemDesign.Maps.Reports
import SystemDesign.Maps.Tracking

/-!
What a navigation session shows, and how it changes.

A listed row of a run is the session, or an older revision of it; so what a run installs was computed for the options
that the session has.
-/

namespace SystemDesign.Maps

open List hiding lt_of_le_of_lt
open Dict

variable {c : Tracker}

/-! ### Tiles -/

theorem cover_eq {result : Result} {route : Route} (hroute : route ∈ result.routes) {point : ℚ × ℚ}
    (hpoint : point ∈ route.geometry) : ∃ z ≤ 16, c.cover result = ancestor (c.cell point 16) z := by
  have hcell : c.cell point 16 ∈ (result.routes.flatMap Route.geometry).map fun point => c.cell point 16 :=
    mem_map_of_mem (mem_flatMap.mpr ⟨route, hroute, hpoint⟩)
  unfold Tracker.cover
  dsimp only
  generalize (result.routes.flatMap Route.geometry).map (fun point => c.cell point 16) = tiles at hcell ⊢
  generalize hfound : (List.range 17).reverse.findSome? _ = found
  cases found with
  | none =>
    refine ⟨0, Nat.zero_le _, ?_⟩
    have hbound : ∀ n : ℕ, min (2 ^ 16 - 1) n >>> (16 - 0) = 0 := by
      intro n
      rw [Nat.shiftRight_eq_div_pow]
      exact Nat.div_eq_of_lt (lt_of_le_of_lt (min_le_left _ _) (by decide))
    simp only [Option.getD_none, ancestor, Tracker.cell, hbound]
  | some tile =>
    obtain ⟨z, hz, hmatch⟩ := exists_of_findSome?_eq_some hfound
    refine ⟨z, Nat.le_of_lt_succ (mem_range.mp (mem_reverse.mp hz)), ?_⟩
    split at hmatch
    · rename_i only hdedup
      cases hmatch
      have hmem : ancestor (c.cell point 16) z ∈ (tiles.map fun tile => ancestor tile z).dedup :=
        mem_dedup.mpr (mem_map_of_mem hcell)
      rw [hdedup, mem_singleton] at hmem
      exact hmem.symm
    · cases hmatch

theorem Connected.source_mem {edges : List Edge} {start : ℚ × ℚ} (h : Connected start edges) {edge : Edge} (hedge : edge ∈ edges) :
    edge.source ∈ start :: edges.map Edge.target := by
  induction edges generalizing start with
  | nil => cases hedge
  | cons first rest ih =>
    obtain hfirst | hrest := mem_cons.mp hedge
    · rw [hfirst, h.1]
      exact mem_cons_self
    · exact mem_cons_of_mem _ (ih h.2 hrest)

theorem intersects_of_subset {tile : Tile} {boxes affected : List Box} (h : c.intersects tile boxes = true)
    (hsub : ∀ box ∈ boxes, box ∈ affected) : c.intersects tile affected = true := by
  unfold Tracker.intersects at h ⊢
  rw [any_eq_true] at h ⊢
  obtain ⟨box, hbox, hmeets⟩ := h
  exact ⟨box, hsub box hbox, hmeets⟩

/-! ### Catalogs -/

/-- The catalog is the same, or a new one. -/
def Grown (c : Setup) (db db' : Db) : Prop :=
  (db'.installed = db.installed ∧ db'.graph = db.graph ∧ db'.catalog = db.catalog) ∨
    (db'.installed.length = db.installed.length + 1 ∧ db'.graph = c.uuid db.installed.length)

theorem Grown.refl (c : Setup) (db : Db) : Grown c db db := .inl ⟨rfl, rfl, rfl⟩

theorem TrafficOnly.grown {c : Setup} {db db' : Db} (h : TrafficOnly db db') : Grown c db db' := by
  obtain ⟨_, _, _, rfl⟩ := h
  exact .refl c db

theorem ingest_grown {c : Setup} {user : String} {reports : List Report} {now : ℚ} {db db' : Db} {stored : List Stored}
    (h : db.ingest c user reports now = .ok (db', stored)) : Grown c db db' := by
  unfold Db.ingest at h
  replace h := of_check h
  replace h := of_check h
  replace h := of_check h
  replace h := of_check h
  replace h := of_check h
  refine .inl (foldlM_ok (I := fun (state : Db × List Stored) _ => state.1.installed = db.installed ∧ state.1.graph = db.graph ∧
    state.1.catalog = db.catalog) (fun state state' done body hsame hone => ?_) reports [] ⟨rfl, rfl, rfl⟩ h)
  unfold ingestOne at hone
  replace hone := of_check hone
  split at hone
  · replace hone := of_check hone
    cases hone
    exact hsame
  · obtain ⟨⟨next, row⟩, haccept, hone⟩ := of_bind hone
    cases hone
    obtain ⟨a, q, haccepts⟩ := accept_ok haccept
    exact ⟨haccepts.same.1.trans hsame.1, haccepts.same.2.1.trans hsame.2.1, haccepts.same.2.2.trans hsame.2.2⟩

theorem Call.grown {c : Setup} {call : Call} {now : ℚ} {db db' : Db} {reply : Reply} (h : call.body c now db = .ok (db', reply)) :
    Grown c db db' := by
  cases call with
  | prune =>
    cases h
    exact .inl ⟨rfl, rfl, rfl⟩
  | provision user =>
    obtain ⟨⟨next, u⟩, hcall, h⟩ := of_bind h
    cases h
    replace hcall := of_check hcall
    replace hcall := of_check hcall
    cases hcall
    exact .inl ⟨rfl, rfl, rfl⟩
  | ingest user reports =>
    obtain ⟨⟨next, stored⟩, hcall, h⟩ := of_bind h
    cases h
    exact ingest_grown hcall
  | importGraph catalog hook =>
    obtain ⟨⟨next, u⟩, hcall, h⟩ := of_bind h
    cases h
    replace hcall := of_check hcall
    cases hcall
    exact .inr ⟨by simp, rfl⟩
  | traffic records ttl =>
    obtain ⟨⟨next, versions⟩, hcall, h⟩ := of_bind h
    cases h
    exact (setTraffic_only hcall).grown
  | aggregate minUsers =>
    obtain ⟨⟨next, updated⟩, hcall, h⟩ := of_bind h
    cases h
    exact (aggregate_only hcall).grown

theorem perform_grown {c : Setup} (db : Db) (call : Call) (now : ℚ) : Grown c db (db.perform c call now).1 := by
  obtain ⟨next, reply, hcall, hrun⟩ | ⟨e, -, hrun⟩ := transaction_cases db (call.body c now)
  · rw [Db.perform, hrun]
    exact call.grown hcall
  · rw [Db.perform, hrun]
    exact .refl c db

namespace Tracking

variable {s s' : Tracking} {tidy : Prop}

@[simp] theorem server_advance (server : Server) : (s.advance server).server = server := Function.update_self ..

theorem advance_states {n : ℕ} (hn : n ≤ s.age) (server : Server) : (s.advance server).states n = s.states n :=
  Function.update_of_ne (by omega) ..

/-- A graph identifier names one catalog, and none comes back. -/
structure Catalogued (c : Tracker) (states : ℕ → Server) (age : ℕ) : Prop where
  graph : ∀ n ≤ age, ∃ k, (states n).db.graph = c.setup.uuid k ∧ k + 1 = (states n).db.installed.length
  next : ∀ n < age, Grown c.setup (states n).db (states (n + 1)).db

theorem Catalogued.advance (h : Catalogued c s.states s.age) {server : Server} (hgrown : Grown c.setup s.server.db server.db) :
    Catalogued c (s.advance server).states (s.advance server).age where
  graph n hn := by
    obtain hn | rfl := Nat.le_succ_iff.mp hn
    · rw [advance_states hn]
      exact h.graph n hn
    · have hstate : (s.advance server).states s.age.succ = server := Function.update_self ..
      rw [hstate]
      obtain ⟨k, hgraph, hlength⟩ := h.graph s.age le_rfl
      obtain ⟨hinstalled, hsame, -⟩ | ⟨hinstalled, hnew⟩ := hgrown
      · exact ⟨k, hsame.trans hgraph, by rw [hinstalled]; exact hlength⟩
      · exact ⟨_, hnew, hinstalled.symm⟩
  next n hn := by
    obtain hn | rfl := Nat.lt_succ_iff_lt_or_eq.mp hn
    · rw [advance_states hn.le, advance_states hn]
      exact h.next n hn
    · have hstate : (s.advance server).states (s.age + 1) = server := Function.update_self ..
      rw [advance_states le_rfl, hstate]
      exact hgrown

theorem Catalogued.length_le (h : Catalogued c s.states s.age) {n m : ℕ} (hnm : n ≤ m) (hm : m ≤ s.age) :
    (s.states n).db.installed.length ≤ (s.states m).db.installed.length := by
  induction m, hnm using Nat.le_induction with
  | base => exact le_rfl
  | succ m hnm ih =>
    refine (ih (by omega)).trans ?_
    obtain ⟨hinstalled, -, -⟩ | ⟨hinstalled, -⟩ := h.next m hm
    · rw [hinstalled]
    · omega

/-- Between two states with one graph there is no other. -/
theorem Catalogued.unchanged (h : Catalogued c s.states s.age) {n m : ℕ} (hm : m ≤ s.age)
    (hgraph : (s.states n).db.graph = (s.states m).db.graph) {k : ℕ} (hnk : n ≤ k) (hkm : k ≤ m) :
    (s.states k).db.graph = (s.states n).db.graph ∧ (s.states k).db.catalog = (s.states n).db.catalog := by
  have hlength : (s.states n).db.installed.length = (s.states m).db.installed.length := by
    obtain ⟨i, hi, hilength⟩ := h.graph n (by omega)
    obtain ⟨j, hj, hjlength⟩ := h.graph m hm
    have hij := c.setup.uuid_injective (hi.symm.trans (hgraph.trans hj))
    omega
  induction k, hnk using Nat.le_induction with
  | base => exact ⟨rfl, rfl⟩
  | succ k hnk ih =>
    obtain ⟨hsame, hcatalog⟩ := ih (by omega)
    obtain ⟨-, hnext, hnextCatalog⟩ | ⟨hinstalled, -⟩ := h.next k (by omega)
    · exact ⟨hnext.trans hsame, hnextCatalog.trans hcatalog⟩
    · have hbefore := h.length_le hnk (by omega)
      have hafter := h.length_le hkm hm
      omega

theorem graph_eq {first last : ℕ} (hle : first ≤ last)
    (h : ∀ n, first ≤ n → n < last → (s.states n).db.graph = (s.states (n + 1)).db.graph) :
    (s.states first).db.graph = (s.states last).db.graph := by
  induction last, hle using Nat.le_induction with
  | base => rfl
  | succ last hle ih =>
    exact (ih fun n hn hlt => h n hn (by omega)).trans (h last hle (Nat.lt_succ_self _))

/-! ### Sessions -/

/-- A result was computed for the options in an earlier state. -/
structure Computed (c : Tracker) (states : ℕ → Server) (age : ℕ) (options : Options) (result : Result) (read : ℕ) : Prop where
  past : read ≤ age
  result : c.compute options (states read) = .ok result

/-- It is a route for the options, or says why there is none. -/
structure Honest (c : Tracker) (states : ℕ → Server) (age : ℕ) (options : Options) (result : Result) (tile : Tile) (read : ℕ) : Prop where
  past : read ≤ age
  result : (c.compute options (states read) = .ok result ∧ tile = c.cover result) ∨
    (result.routes = [] ∧ ∃ status message, c.compute options (states read) = .error (.http status message) ∧
      result.error = some (status, message))

def WorkHonest (c : Tracker) (states : ℕ → Server) (age : ℕ) : Work → Prop
  | .create _ options _ result read => Computed c states age options result read
  | .move _ _ _ _ => True
  | .moved _ _ options _ result read => Computed c states age options result read

end Tracking

/-- The rows that a run has still to install. -/
def RunPhase.pending : RunPhase → List (String × Session)
  | .rows _ _ rest => rest
  | .routed _ _ id row _ _ _ rest => (id, row) :: rest
  | _ => []

namespace Tracking

variable {s s' : Tracking} {tidy : Prop}

/-- The identifier of a session that was created. -/
def Known (c : Tracker) (drawn : ℕ) (id : String) : Prop := ∃ n < drawn, id = c.setup.uuid n

/-- A row that is listed is the session, or an older revision of it. -/
structure Listed (c : Tracker) (drawn : ℕ) (sessions : Dict String Session) (rows : List (String × Session)) : Prop where
  once : (rows.map Prod.fst).Nodup
  known : ∀ e ∈ rows, Known c drawn e.1
  older : ∀ e ∈ rows, ∀ x, sessions.get? e.1 = some x → e.2.revision ≤ x.revision ∧ (x.revision = e.2.revision → x = e.2)

structure Sound (c : Tracker) (s : Tracking) : Prop where
  catalogued : Catalogued c s.states s.age
  known : ∀ id x, s.sessions.get? id = some x → Known c s.drawn id
  honest : ∀ id x, s.sessions.get? id = some x → Honest c s.states s.age x.options x.result x.tile x.read
  works : ∀ i work, s.works i = some work → WorkHonest c s.states s.age work
  listed : ∀ run, s.run = some run → Listed c s.drawn s.sessions run.phase.pending
  routed : ∀ run affected now id row result tile read rest, s.run = some run →
    run.phase = .routed affected now id row result tile read rest → Honest c s.states s.age row.options result tile read

/-- What becomes of a session: its route and its options change only with its revision. -/
structure Later (x x' : Session) : Prop where
  user : x'.user = x.user
  revision : x.revision ≤ x'.revision
  same : x'.revision = x.revision → x'.result = x.result ∧ x'.options = x.options

theorem Later.refl (x : Session) : Later x x := ⟨rfl, le_rfl, fun _ => ⟨rfl, rfl⟩⟩

theorem Later.trans {x x' x'' : Session} (h : Later x x') (h' : Later x' x'') : Later x x'' where
  user := h'.user.trans h.user
  revision := h.revision.trans h'.revision
  same heq := by
    have hbefore := h.revision
    have hafter := h'.revision
    obtain ⟨hresult, hoptions⟩ := h.same (by omega)
    obtain ⟨hresult', hoptions'⟩ := h'.same (by omega)
    exact ⟨hresult'.trans hresult, hoptions'.trans hoptions⟩

/-- Sessions that were there are as they were, or have a higher revision. -/
def Moves (c : Tracker) (s : Tracking) (sessions : Dict String Session) : Prop := ∀ id x', sessions.get? id = some x' →
  Known c s.drawn id → ∃ x, s.sessions.get? id = some x ∧ (x' = x ∨ (x'.user = x.user ∧ x.revision < x'.revision))

theorem kept_get? {id : String} {x : Session} : s.kept.get? id = some x ↔
    s.sessions.get? id = some x ∧ s.server.clock < x.expires := by
  rw [kept, get?_keepRows, Option.filter_eq_some_iff, decide_eq_true_eq]

theorem Listed.moves {rows : List (String × Session)} (h : Listed c s.drawn s.sessions rows) {sessions : Dict String Session}
    (hmoves : s.Moves c sessions) (drawn : ℕ) (hdrawn : s.drawn ≤ drawn) :
    Listed c drawn sessions rows where
  once := h.once
  known e he := (h.known e he).imp fun _ hn => ⟨hn.1.trans_le hdrawn, hn.2⟩
  older e he x' hx' := by
    obtain ⟨x, hx, rfl | ⟨-, hlt⟩⟩ := hmoves e.1 x' hx' (h.known e he)
    · exact h.older e he x' hx
    · have hle := (h.older e he x hx).1
      exact ⟨hle.trans hlt.le, fun heq => by omega⟩

theorem moves_kept : s.Moves c s.kept := fun _ x' hx' _ => ⟨x', (kept_get?.mp hx').1, .inl rfl⟩

theorem not_known_drawn : ¬ Known c s.drawn (c.setup.uuid s.drawn) := by
  rintro ⟨n, hn, heq⟩
  exact absurd (c.setup.uuid_injective heq) (Nat.ne_of_gt hn)

theorem moves_create (row : Session) : s.Moves c (s.kept.set (c.setup.uuid s.drawn) row) := by
  intro id x' hx' hknown
  obtain ⟨rfl, -⟩ | ⟨-, hx'⟩ := get?_set_cases hx'
  · exact absurd hknown not_known_drawn
  · exact moves_kept id x' hx' hknown

variable {row : Session}

theorem moves_set {id : String} {row' : Session} (hrow : s.sessions.get? id = some row) (huser : row'.user = row.user)
    (hrevision : row.revision < row'.revision) : s.Moves c (s.sessions.set id row') := by
  intro id' x' hx' _
  obtain ⟨rfl, rfl⟩ | ⟨-, hx'⟩ := get?_set_cases hx'
  · exact ⟨row, hrow, .inr ⟨huser, hrevision⟩⟩
  · exact ⟨x', hx', .inl rfl⟩

theorem moves_erase (id : String) : s.Moves c (s.sessions.erase id) := by
  intro id' x' hx' _
  rw [get?_erase] at hx'
  split at hx'
  · cases hx'
  · exact ⟨x', hx', .inl rfl⟩

theorem lookup_eq_some {user id : String} : s.lookup user id = some row ↔
    s.sessions.get? id = some row ∧ row.user = user ∧ s.server.clock < row.expires := by
  rw [lookup, Option.filter_eq_some_iff, Bool.and_eq_true, decide_eq_true_eq, decide_eq_true_eq]

variable {result : Result} {tile : Tile} {read : ℕ}

/-- The sessions after a row was refreshed. -/
theorem refreshed_cases {id : String} {id' : String} {x' : Session}
    (h : (s.refreshed c id row result tile read).get? id' = some x') :
    (id' = id ∧ ∃ x, s.sessions.get? id = some x ∧ x.revision = row.revision ∧ x' = { x with
        result := result
        revision := if result = row.result then x.revision else x.revision + 1
        updated := s.server.clock
        nextRefresh := c.setup.plus s.server.clock c.refreshInterval
        tile := tile
        read := read }) ∨
      (s.sessions.get? id' = some x' ∧ (id' = id → s.server.clock < x'.expires → x'.revision ≠ row.revision)) := by
  unfold refreshed at h
  split at h
  · rename_i hnone
    refine .inr ⟨h, fun hid => ?_⟩
    rw [hid, hnone] at h
    cases h
  · rename_i current hcurrent
    split at h
    · rename_i hcas
      obtain ⟨rfl, rfl⟩ | ⟨hne, h⟩ := get?_set_cases h
      · exact .inl ⟨rfl, current, hcurrent, hcas.1, rfl⟩
      · exact .inr ⟨h, fun hid => absurd hid hne⟩
    · rename_i hcas
      refine .inr ⟨h, fun hid hlive hrevision => hcas ?_⟩
      rw [hid, hcurrent] at h
      cases h
      exact ⟨hrevision, hlive⟩

theorem refresh_honest {run : Run} (h : run.refresh c row s.server = .ok (result, tile)) :
    Honest c s.states s.age row.options result tile s.age := by
  refine ⟨le_rfl, ?_⟩
  unfold Run.refresh at h
  split at h
  · rename_i result' hcompute
    cases h
    exact .inl ⟨hcompute, rfl⟩
  · rename_i status message hcompute
    cases h
    exact .inr ⟨rfl, status, message, hcompute, rfl⟩
  · cases h

theorem Honest.advance {options : Options} (h : Honest c s.states s.age options result tile read) (server : Server) :
    Honest c (s.advance server).states (s.advance server).age options result tile read where
  past := h.past.trans (Nat.le_succ _)
  result := by
    rw [advance_states h.past]
    exact h.result

theorem WorkHonest.advance {work : Work} (h : WorkHonest c s.states s.age work) (server : Server) :
    WorkHonest c (s.advance server).states (s.advance server).age work := by
  cases work with
  | create user options ttl result read => exact ⟨h.past.trans (Nat.le_succ _), by rw [advance_states h.past]; exact h.result⟩
  | move user id options revision => trivial
  | moved user id options revision result read => exact ⟨h.past.trans (Nat.le_succ _), by rw [advance_states h.past]; exact h.result⟩

theorem Sound.work (h : s.Sound c) (i : ℕ) {work : Work} (hwork : WorkHonest c s.states s.age work) :
    Sound c { s with works := Function.update s.works i (some work) } := by
  refine ⟨h.catalogued, h.known, h.honest, fun j work' hj => ?_, h.listed, h.routed⟩
  simp only [Function.update_apply] at hj
  split at hj
  · cases hj
    exact hwork
  · exact h.works j work' hj

theorem works_drop (h : s.Sound c) (i : ℕ) : ∀ j work, Function.update s.works i none j = some work → WorkHonest c s.states s.age work := by
  intro j work hj
  simp only [Function.update_apply] at hj
  split at hj
  · cases hj
  · exact h.works j work hj

theorem Computed.honest {options : Options} (h : Computed c s.states s.age options result read) :
    Honest c s.states s.age options result (c.cover result) read := ⟨h.past, .inl ⟨h.result, rfl⟩⟩

theorem Moves.later {sessions : Dict String Session} (h : s.Moves c sessions) {id : String} {x' : Session}
    (hx' : sessions.get? id = some x') (hknown : Known c s.drawn id) : ∃ x, s.sessions.get? id = some x ∧ Later x x' := by
  obtain ⟨x, hx, rfl | ⟨huser, hlt⟩⟩ := h id x' hx' hknown
  · exact ⟨x', hx, .refl x'⟩
  · exact ⟨x, hx, huser, hlt.le, fun heq => absurd heq (Nat.ne_of_gt hlt)⟩

theorem moves_refl : s.Moves c s.sessions := fun _ x' hx' _ => ⟨x', hx', .inl rfl⟩

theorem Sound.refreshed_later (h : s.Sound c) {run : Run} (hrun : s.run = some run) {affected : List Box} {now : ℚ}
    {id : String} {rest : List (String × Session)}
    (hphase : run.phase = .routed affected now id row result tile read rest) {id' : String} {x' : Session}
    (hx' : (s.refreshed c id row result tile read).get? id' = some x') :
    ∃ x, s.sessions.get? id' = some x ∧ Later x x' ∧ (x' = x ∨ (id' = id ∧ x = row ∧ x'.options = row.options ∧
      x'.result = result ∧ x'.tile = tile ∧ x'.read = read)) := by
  obtain ⟨rfl, x, hx, hrevision, rfl⟩ | ⟨hx', -⟩ := refreshed_cases hx'
  · have hlisted := h.listed run hrun
    rw [hphase] at hlisted
    obtain rfl := (hlisted.older (id', row) mem_cons_self x hx).2 hrevision
    refine ⟨x, hx, ⟨rfl, ?_, fun heq => ?_⟩, .inr ⟨rfl, rfl, rfl, rfl, rfl, rfl⟩⟩
    · dsimp only
      split
      · exact le_rfl
      · exact Nat.le_succ _
    · dsimp only at heq ⊢
      split at heq
      · rename_i hsame
        exact ⟨hsame, rfl⟩
      · exact absurd heq (Nat.succ_ne_self _)
  · exact ⟨x', hx', .refl x', .inl rfl⟩

theorem Tracks.later (hstep : Tracks c s tidy s') (h : s.Sound c) : s.drawn ≤ s'.drawn ∧ ∀ id x', s'.sessions.get? id = some x' →
    Known c s.drawn id → ∃ x, s.sessions.get? id = some x ∧ Later x x' := by
  cases hstep with
  | create i user options ttl result read hwork huser hroom =>
    exact ⟨Nat.le_succ _, fun id x' hx' hknown => (moves_create _).later hx' hknown⟩
  | move i user id options revision result read hwork hlookup hrevision =>
    refine ⟨le_rfl, fun id' x' hx' hknown => (moves_set (lookup_eq_some.mp hlookup).1 ?_ ?_).later hx' hknown⟩
    · rfl
    · exact hrevision ▸ Nat.lt_succ_self _
  | remove user id hrow huser => exact ⟨le_rfl, fun id' x' hx' hknown => (moves_erase id).later hx' hknown⟩
  | runRows run hrun affected hphase rows hrows => exact ⟨le_rfl, fun id' x' hx' hknown => moves_kept.later hx' hknown⟩
  | runInstall run hrun affected now id row result tile read rest hphase =>
    refine ⟨le_rfl, fun id' x' hx' _ => ?_⟩
    obtain ⟨x, hx, hlater, -⟩ := h.refreshed_later hrun hphase hx'
    exact ⟨x, hx, hlater⟩
  | perform call clock hclock => exact ⟨le_rfl, fun id' x' hx' hknown => moves_refl.later hx' hknown⟩
  | createRoute i hfree user options ttl httl hcompute => exact ⟨le_rfl, fun id' x' hx' hknown => moves_refl.later hx' hknown⟩
  | moveRead i hfree user id origin hlookup => exact ⟨le_rfl, fun id' x' hx' hknown => moves_refl.later hx' hknown⟩
  | moveRoute i user id options revision hwork hcompute =>
    exact ⟨le_rfl, fun id' x' hx' hknown => moves_refl.later hx' hknown⟩
  | drop i => exact ⟨le_rfl, fun id' x' hx' hknown => moves_refl.later hx' hknown⟩
  | runState hrun hready => exact ⟨le_rfl, fun id' x' hx' hknown => moves_refl.later hx' hknown⟩
  | runBoxes run hrun hphase => exact ⟨le_rfl, fun id' x' hx' hknown => moves_refl.later hx' hknown⟩
  | runPass run hrun affected now id row rest hphase hpasses =>
    exact ⟨le_rfl, fun id' x' hx' hknown => moves_refl.later hx' hknown⟩
  | runRoute run hrun affected now id row rest hphase hdue hrefresh =>
    exact ⟨le_rfl, fun id' x' hx' hknown => moves_refl.later hx' hknown⟩
  | runDone run hrun affected now hphase => exact ⟨le_rfl, fun id' x' hx' hknown => moves_refl.later hx' hknown⟩
  | runFails => exact ⟨le_rfl, fun id' x' hx' hknown => moves_refl.later hx' hknown⟩
  | restart => exact ⟨le_rfl, fun id' x' hx' hknown => moves_refl.later hx' hknown⟩

/-- A run that goes on with the same rows or fewer. -/
theorem Sound.goOn (h : s.Sound c) {run run' : Run} (hrun : s.run = some run) (hpending : run'.phase.pending.Sublist run.phase.pending)
    (hrouted : ∀ affected now id row result tile read rest, run'.phase = .routed affected now id row result tile read rest →
      Honest c s.states s.age row.options result tile read) : Sound c { s with run := some run' } := by
  refine ⟨h.catalogued, h.known, h.honest, h.works, ?_, ?_⟩
  · rintro _ ⟨⟩
    have hlisted := h.listed run hrun
    exact ⟨hlisted.once.sublist (hpending.map _), fun e he => hlisted.known e (hpending.subset he),
      fun e he => hlisted.older e (hpending.subset he)⟩
  · rintro _ affected now id row result tile read rest ⟨⟩ hphase
    exact hrouted affected now id row result tile read rest hphase

theorem Sound.stop (h : s.Sound c) (previous : Option (String × Dict String Traffic)) (finished : Option ℕ) :
    Sound c { s with previous := previous, run := none, finished := finished } := by
  refine ⟨h.catalogued, h.known, h.honest, h.works, ?_, ?_⟩
  · rintro run ⟨⟩
  · rintro run affected now id row result tile read rest ⟨⟩

/-- Sessions change and the run goes on where it was. -/
theorem Sound.sessions (h : s.Sound c) {sessions : Dict String Session} {drawn : ℕ} (hdrawn : s.drawn ≤ drawn)
    {works : ℕ → Option Work} (hworks : ∀ i work, works i = some work → WorkHonest c s.states s.age work)
    (hmoves : s.Moves c sessions) (hnew : ∀ id x, sessions.get? id = some x → s.sessions.get? id = some x ∨
      (Known c drawn id ∧ Honest c s.states s.age x.options x.result x.tile x.read)) :
    Sound c { s with sessions := sessions, drawn := drawn, works := works } := by
  refine ⟨h.catalogued, fun id x hx => ?_, fun id x hx => ?_, hworks, fun run hrun => ?_, h.routed⟩
  · obtain hold | ⟨hknown, -⟩ := hnew id x hx
    · exact (h.known id x hold).imp fun _ hn => ⟨hn.1.trans_le hdrawn, hn.2⟩
    · exact hknown
  · obtain hold | ⟨-, hhonest⟩ := hnew id x hx
    · exact h.honest id x hold
    · exact hhonest
  · exact (h.listed run hrun).moves hmoves drawn hdrawn

theorem Tracks.sound (hstep : Tracks c s tidy s') (h : s.Sound c) : s'.Sound c := by
  cases hstep with
  | perform call clock hclock =>
    refine ⟨h.catalogued.advance (perform_grown s.server.db call clock), h.known, fun id x hx => (h.honest id x hx).advance _,
      fun i work hwork => (h.works i work hwork).advance _, h.listed, ?_⟩
    intro run affected now id row result tile read rest hrun hphase
    exact (h.routed run affected now id row result tile read rest hrun hphase).advance _
  | createRoute i hfree user options ttl httl hcompute => exact h.work i ⟨le_rfl, hcompute⟩
  | create i user options ttl result read hwork huser hroom =>
    refine h.sessions (Nat.le_succ _) (works_drop h i) (moves_create _) fun id x hx => ?_
    obtain ⟨rfl, rfl⟩ | ⟨-, hx⟩ := get?_set_cases hx
    · exact .inr ⟨⟨s.drawn, Nat.lt_succ_self _, rfl⟩, (h.works i _ hwork).honest⟩
    · exact .inl (kept_get?.mp hx).1
  | moveRead i hfree user id origin hlookup => exact h.work i trivial
  | moveRoute i user id options revision hwork hcompute => exact h.work i ⟨le_rfl, hcompute⟩
  | move i user id options revision result read hwork hlookup hrevision =>
    have hrow := (lookup_eq_some.mp hlookup).1
    refine h.sessions le_rfl (works_drop h i) (moves_set hrow ?_ ?_) fun id' x hx => ?_
    · rfl
    · exact hrevision ▸ Nat.lt_succ_self _
    · obtain ⟨rfl, rfl⟩ | ⟨-, hx⟩ := get?_set_cases hx
      · exact .inr ⟨h.known _ _ hrow, (h.works i _ hwork).honest⟩
      · exact .inl hx
  | drop i => exact ⟨h.catalogued, h.known, h.honest, works_drop h i, h.listed, h.routed⟩
  | remove user id hrow huser =>
    refine h.sessions le_rfl h.works (moves_erase id) fun id' x hx => .inl ?_
    rw [get?_erase] at hx
    split at hx
    · cases hx
    · exact hx
  | runState hrun hready =>
    refine ⟨h.catalogued, h.known, h.honest, h.works, ?_, ?_⟩
    · rintro _ ⟨⟩
      exact ⟨nodup_nil, by intros; contradiction, by intros; contradiction⟩
    · rintro _ affected now id row result tile read rest ⟨⟩ hphase
      cases hphase
  | runBoxes run hrun hphase => exact h.goOn hrun (nil_sublist _) (by intros; contradiction)
  | runRows run hrun affected hphase rows hrows =>
    refine ⟨h.catalogued, fun id x hx => h.known id x (kept_get?.mp hx).1, fun id x hx => h.honest id x (kept_get?.mp hx).1,
      h.works, ?_, ?_⟩
    · rintro _ ⟨⟩
      refine ⟨(hrows.map Prod.fst).nodup_iff.mpr s.kept.nodup, fun e he => ?_, fun e he x hx => ?_⟩
      · exact h.known _ _ (kept_get?.mp (mem_entries.mp (hrows.mem_iff.mp he))).1
      · cases (mem_entries.mp (hrows.mem_iff.mp he)).symm.trans hx
        exact ⟨le_rfl, fun _ => rfl⟩
    · rintro _ affected' now id row result tile read rest ⟨⟩ hrouted
      cases hrouted
  | runPass run hrun affected now id row rest hphase hpasses =>
    refine h.goOn hrun ?_ (by intros; contradiction)
    rw [hphase]
    exact sublist_cons_self _ _
  | runRoute run hrun affected now id row rest hphase hdue hrefresh =>
    refine h.goOn hrun ?_ ?_
    · rw [hphase]
      exact .refl _
    · rintro _ _ _ _ _ _ _ _ ⟨⟩
      exact refresh_honest hrefresh
  | runInstall run hrun affected now id row result tile read rest hphase =>
    have hlisted := h.listed run hrun
    rw [hphase] at hlisted
    have hhonest := h.routed run affected now id row result tile read rest hrun hphase
    refine ⟨h.catalogued, fun id' x' hx' => ?_, fun id' x' hx' => ?_, h.works, ?_, ?_⟩
    · obtain ⟨x, hx, -⟩ := h.refreshed_later hrun hphase hx'
      exact h.known id' x hx
    · obtain ⟨x, hx, -, rfl | ⟨-, -, hoptions, hresult, htile, hread⟩⟩ := h.refreshed_later hrun hphase hx'
      · exact h.honest id' _ hx
      · rw [hoptions, hresult, htile, hread]
        exact hhonest
    · rintro _ ⟨⟩
      refine ⟨(nodup_cons.mp hlisted.once).2, fun e he => hlisted.known e (mem_cons_of_mem _ he), fun e he x' hx' => ?_⟩
      obtain ⟨x, hx, -, rfl | ⟨hid, -⟩⟩ := h.refreshed_later hrun hphase hx'
      · exact hlisted.older e (mem_cons_of_mem _ he) _ hx
      · exact absurd (mem_map.mpr ⟨e, he, hid⟩) (nodup_cons.mp hlisted.once).1
    · rintro _ affected' now' id' row' result' tile' read' rest' ⟨⟩ hrouted
      cases hrouted
  | runDone run hrun affected now hphase => exact h.stop _ _
  | runFails => exact h.stop s.previous s.finished
  | restart => exact h.stop none s.finished

/-! ### Runs -/

theorem init_sound : (init c).Sound c where
  catalogued := ⟨fun n hn => ⟨0, rfl, rfl⟩, fun n hn => absurd hn (Nat.not_lt_zero n)⟩
  known _ _ hx := by cases hx
  honest _ _ hx := by cases hx
  works _ _ hwork := by cases hwork
  listed _ hrun := by cases hrun
  routed _ _ _ _ _ _ _ _ _ hrun := by cases hrun

theorem tracking_sound (h : (tracking c).Reachable s) : s.Sound c := by
  refine h.invariant (P := Sound c) ?_ ?_
  · rintro s rfl
    exact init_sound
  · rintro s s' - hs ⟨tidy, hstep⟩
    exact Tracks.sound hstep hs

theorem run_later (h : s.Sound c) (hrun : Relation.ReflTransGen (tracking c).step s s') : s'.Sound c ∧ s.drawn ≤ s'.drawn ∧
    ∀ id x', s'.sessions.get? id = some x' → Known c s.drawn id → ∃ x, s.sessions.get? id = some x ∧ Later x x' := by
  induction hrun with
  | refl => exact ⟨h, le_rfl, fun id x' hx' _ => ⟨x', hx', .refl x'⟩⟩
  | tail _ hstep ih =>
    obtain ⟨hsound, hdrawn, hlater⟩ := ih
    obtain ⟨_, hstep⟩ := hstep
    obtain ⟨hdrawn', hlater'⟩ := Tracks.later hstep hsound
    refine ⟨Tracks.sound hstep hsound, hdrawn.trans hdrawn', fun id x'' hx'' hknown => ?_⟩
    obtain ⟨x', hx', hx'later⟩ := hlater' id x'' hx'' (hknown.imp fun _ hn => ⟨hn.1.trans_le hdrawn, hn.2⟩)
    obtain ⟨x, hx, hxlater⟩ := hlater id x' hx' hknown
    exact ⟨x, hx, hxlater.trans hx'later⟩

/-- A look of `events` gives the route exactly if it is newer than the cursor. -/
theorem events_newest {user id : String} {after : ℕ} {events : List (ℕ × Result)} (h : s.events user id after = .ok events) :
    ∃ row, s.sessions.get? id = some row ∧ row.user = user ∧
      ((after < row.revision ∧ events = [(row.revision, row.result)]) ∨ (row.revision = after ∧ events = [])) := by
  unfold Tracking.events at h
  split at h
  · cases h
  · rename_i row hlookup
    obtain ⟨hrow, huser, -⟩ := lookup_eq_some.mp hlookup
    refine ⟨row, hrow, huser, ?_⟩
    split at h
    · cases h
    · rename_i hle
      cases h
      split
      · rename_i hlt
        exact .inl ⟨hlt, rfl⟩
      · rename_i hge
        exact .inr ⟨by omega, rfl⟩

end Tracking

end SystemDesign.Maps
