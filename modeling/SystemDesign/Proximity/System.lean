import SystemDesign.Proximity.Store

/-!
A primary, its publishers and its replicas, one transaction at a time.

Four fields are for statements only. `mutations` and `generations` record what was accepted
and what was installed, the latest first; `seen` is what had been accepted when a publisher
read the drafts; `exports` are the snapshots taken so far.
-/

namespace SystemDesign.Proximity

/-- An accepted mutation and the day on which its guard ran. -/
structure Mutation where
  day : ℕ
  change : Change

/-- An installed generation and the mutations it was prepared from. -/
structure Generation where
  head : Head
  forced : Bool
  content : Content
  source : List Mutation

structure State (τ : Type) where
  now : τ
  primary : Primary τ
  publishers : Dict ℕ Publisher
  replicas : ℕ → Replica
  exports : List Snapshot
  mutations : List Mutation
  generations : List Generation
  seen : ℕ → List Mutation

/-- The drafts after the mutations. -/
def draftsOf (mutations : List Mutation) : Dict String Draft :=
  mutations.foldr (fun m drafts => m.change.apply drafts) .empty

variable {τ : Type} [LinearOrder τ] (c : Setup τ)

namespace State

/-- What is left of a publisher after a step. -/
def settle (pid : ℕ) (publisher : Publisher) (outcome : Outcome) (s : State τ) : State τ :=
  { s with publishers := match outcome with
    | .goesOn phase => s.publishers.set pid { publisher with phase := phase }
    | _ => s.publishers.erase pid }

/-- A generation, if one was installed. -/
def record (pid : ℕ) (forced : Bool) (primary : Primary τ) (s : State τ) : State τ :=
  if primary.head = s.primary.head then s
  else { s with
    primary := primary
    generations := ⟨primary.head, forced, primary.content, s.seen pid⟩ :: s.generations }

/-- The next step of a publisher. -/
def advance (pid : ℕ) (now : τ) (fails : Bool) (s : State τ) : State τ :=
  match s.publishers.get? pid with
  | none => s
  | some publisher => match publisher.phase with
    | .checking => { s with now := now }.settle pid publisher (checkDay c now s.primary)
    | .starting left => { s with now := now }.settle pid publisher (target c now left)
    | .targeted left day =>
      { s with now := now, seen := Function.update s.seen pid s.mutations }.settle pid publisher
        (readDrafts c publisher.force left day s.primary)
    | .prepared left day head revision content =>
      let result := install c now publisher.force fails left day head revision content s.primary
      ({ s with now := now }.record pid publisher.force result.2).settle pid publisher result.1

/-- A mutation; one that raises leaves the tables. -/
def accept (readings : Readings τ) (request : Request) (n : ℕ) (s : State τ) : State τ :=
  match mutate c readings request n s.primary with
  | .error _ => { s with now := readings.created }
  | .ok (_, none, primary) => { s with now := readings.created, primary := primary }
  | .ok (_, some change, primary) => { s with
      now := readings.created
      primary := primary
      mutations := ⟨c.dayOf readings.guard, change⟩ :: s.mutations }

/-- A replica imports a snapshot; what raises leaves it. -/
def receive (r : ℕ) (snapshot : Snapshot) (s : State τ) : State τ :=
  match importSnapshot c snapshot (s.replicas r) with
  | .error _ => s
  | .ok (_, replica) => { s with replicas := Function.update s.replicas r replica }

inductive Step : State τ → State τ → Prop
  | mutate (s : State τ) (readings : Readings τ) (request : Request) (n : ℕ) :
      s.now ≤ readings.guard → readings.guard ≤ readings.expiry → readings.expiry ≤ readings.effective →
      readings.effective ≤ readings.created → Step s (s.accept c readings request n)
  | publish (s : State τ) (pid : ℕ) (force : Bool) :
      Step s { s with publishers := s.publishers.set pid ⟨force, if force then .starting 3 else .checking⟩ }
  | advance (s : State τ) (pid : ℕ) (now : τ) (fails : Bool) : s.now ≤ now → Step s (s.advance c pid now fails)
  | lost (s : State τ) (pid : ℕ) : Step s { s with publishers := s.publishers.erase pid }
  | exported (s : State τ) : Step s { s with exports := exportSnapshot s.primary :: s.exports }
  | imported (s : State τ) (r : ℕ) (snapshot : Snapshot) : snapshot ∈ s.exports → Step s (s.receive c r snapshot)
  | clock (s : State τ) (now : τ) : s.now ≤ now → Step s { s with now := now }

end State

/-- A new primary: version zero is empty and labelled with its first day. -/
structure Fresh (s : State τ) : Prop where
  version : s.primary.head.version = 0
  day : s.primary.head.day = c.dayOf s.now
  lineage : c.isLineage s.primary.head.lineage = true
  drafts : s.primary.drafts = .empty
  revision : s.primary.draftRevision = 0
  content : s.primary.content = prepare c s.primary.shards []
  publishers : s.publishers = .empty
  replicas : ∀ r, (s.replicas r).initialized = false
  exports : s.exports = []
  mutations : s.mutations = []
  generations : s.generations = [⟨s.primary.head, false, s.primary.content, []⟩]

def system : Transitions (State τ) where
  start := Fresh c
  step := State.Step c

/-! ### Businesses are valid as they are published -/

/-- Reading the object back gives the business. -/
def Business.Valid (business : Business) : Prop := validateBusiness business.body = .ok business

theorem body_get (business : Business) : business.body.get? "name" = some (.text business.name) ∧
    business.body.get? "address" = some (.text business.address) ∧
    business.body.get? "category" = some (.text business.category) ∧
    business.body.get? "latitude" = some (.number business.latitude) ∧
    business.body.get? "longitude" = some (.number business.longitude) ∧
    business.body.get? "hours" = some (.windows (business.hours.map some)) := by
  unfold Business.body
  refine ⟨?_, ?_, ?_, ?_, ?_, ?_⟩ <;> simp [Dict.get?_set]

theorem validText_ok {key : String} {value : Option Value} {text : String} (h : validText key value = .ok text) :
    value = some (.text text) ∧ validText key (some (.text text)) = .ok text := by
  unfold validText at h
  split at h
  · rename_i value
    obtain ⟨-, hvalid, heq⟩ := of_bind h
    cases heq
    exact ⟨rfl, h⟩
  · cases h

theorem validWindow_ok {window : Option Window} {window' : Window} (h : validWindow window = .ok window') :
    validWindow (some window') = .ok window' := by
  unfold validWindow at h
  split at h
  · obtain ⟨-, -, heq⟩ := of_bind h
    cases heq
    exact h
  · cases h

theorem mapM_validWindow {windows : List (Option Window)} {windows' : List Window}
    (h : windows.mapM validWindow = .ok windows') :
    windows'.length = windows.length ∧ (windows'.map some).mapM validWindow = .ok windows' := by
  induction windows generalizing windows' with
  | nil =>
    cases h
    exact ⟨rfl, rfl⟩
  | cons window windows ih =>
    rw [List.mapM_cons] at h
    obtain ⟨first, hfirst, h⟩ := of_bind h
    obtain ⟨rest, hrest, heq⟩ := of_bind h
    cases heq
    obtain ⟨hlength, hvalid⟩ := ih hrest
    refine ⟨congrArg (· + 1) hlength, ?_⟩
    rw [List.map_cons, List.mapM_cons, validWindow_ok hfirst, hvalid]
    rfl

theorem validateBusiness_valid {body : Dict String Value} {business : Business}
    (h : validateBusiness body = .ok business) : business.Valid := by
  unfold validateBusiness at h
  obtain ⟨-, -, h⟩ := of_bind h
  obtain ⟨name, hname, h⟩ := of_bind h
  obtain ⟨address, haddress, h⟩ := of_bind h
  obtain ⟨category, hcategory, h⟩ := of_bind h
  split at h
  · rename_i latitude longitude _ _
    obtain ⟨place, hplace, h⟩ := of_bind h
    split at h
    · rename_i hours _
      obtain ⟨_, hlength, h⟩ := of_bind h
      obtain ⟨windows, hwindows, heq⟩ := of_bind h
      cases heq
      unfold coordinates at hplace
      obtain ⟨_, hrange, heq⟩ := of_bind hplace
      cases heq
      obtain ⟨hsame, hvalid⟩ := mapM_validWindow hwindows
      have hkeys : ∀ b : Business, b.body.keys.all (fun key => key ∈ fields) = true := by
        intro b
        rfl
      have hlength' : (windows.map some).length ≤ 100 := by
        rw [List.length_map, hsame]
        exact require_eq_ok.mp hlength
      have hname' := (validText_ok hname).2
      have haddress' := (validText_ok haddress).2
      have hcategory' := (validText_ok hcategory).2
      unfold Business.Valid validateBusiness
      have hplace' : coordinates latitude longitude = .ok (latitude, longitude) := hplace
      obtain ⟨hname₀, haddress₀, hcategory₀, hlatitude₀, hlongitude₀, hhours₀⟩ :=
        body_get ⟨name, address, category, latitude, longitude, windows⟩
      rw [(require_eq_ok (u := ())).mpr (hkeys _), hname₀, haddress₀, hcategory₀, hlatitude₀, hlongitude₀, hhours₀]
      have hroom : require ((windows.map some).length ≤ 100) (PyError.valueError "invalid hours") = .ok () :=
        require_eq_ok.mpr hlength'
      simp only [Py.bind_ok, Option.getD_some, hname', haddress', hcategory', hplace', hroom, hvalid]
      rfl
    · cases h
  · cases h

/-! ### What the transactions do -/

/-- A change that `mutate` makes. -/
def Change.Valid : Change → Prop
  | .put id _ body => isIdentifier id = true ∧ body.Valid
  | .delete _ => True

theorem checkRequest_ok {request : Request} {body : Dict String Value ⊕ Business}
    (h : checkRequest request = .ok body) :
    (∀ id ∈ request.identifier, isIdentifier id = true) ∧ ∀ business, body = .inr business → business.Valid := by
  unfold checkRequest at h
  obtain ⟨-, -, h⟩ := of_bind h
  obtain ⟨-, -, h⟩ := of_bind h
  obtain ⟨-, -, h⟩ := of_bind h
  obtain ⟨-, -, h⟩ := of_bind h
  obtain ⟨_, hid, h⟩ := of_bind h
  refine ⟨require_eq_ok.mp hid, ?_⟩
  rintro business rfl
  split at h
  · cases h
  · obtain ⟨business', hvalid, heq⟩ := of_bind h
    cases heq
    exact validateBusiness_valid hvalid

theorem targetOf_ok {request : Request} {body : Dict String Value ⊕ Business} {n : ℕ} {drafts : Dict String Draft}
    {id : String} {change : Change} (hcheck : checkRequest request = .ok body)
    (h : targetOf c request body n drafts = .ok (id, change)) : change.Valid := by
  obtain ⟨hidentifier, hbody⟩ := checkRequest_ok hcheck
  unfold targetOf at h
  split at h
  · split at h
    · cases h
      exact ⟨c.uuid_identifier n, hbody _ rfl⟩
    · cases h
      trivial
  · rename_i id' hid
    split at h
    · cases h
    · obtain ⟨-, -, h⟩ := of_bind h
      obtain ⟨-, -, h⟩ := of_bind h
      split at h
      · cases h
        exact ⟨hidentifier _ hid, hbody _ rfl⟩
      · cases h
        trivial

theorem mutate_ok {readings : Readings τ} {request : Request} {n : ℕ} {s s' : Primary τ} {response : Response}
    {change : Option Change} (h : mutate c readings request n s = .ok (response, change, s')) :
    c.dayOf readings.guard ≤ s.head.day ∧ s'.head = s.head ∧ s'.content = s.content ∧ s'.shards = s.shards ∧
      match change with
      | none => s'.drafts = s.drafts ∧ s'.draftRevision = s.draftRevision
      | some change => change.Valid ∧ s'.drafts = change.apply s.drafts ∧ s'.draftRevision = s.draftRevision + 1 := by
  unfold mutate at h
  obtain ⟨body, hcheck, h⟩ := of_bind h
  obtain ⟨_, hguard, h⟩ := of_bind h
  refine ⟨not_lt.mp (require_eq_ok.mp hguard), ?_⟩
  dsimp only at h
  split at h
  · obtain ⟨-, -, heq⟩ := of_bind h
    cases heq
    exact ⟨rfl, rfl, rfl, rfl, rfl⟩
  · obtain ⟨⟨id, change'⟩, htarget, heq⟩ := of_bind h
    cases heq
    exact ⟨rfl, rfl, rfl, targetOf_ok c hcheck htarget, rfl, rfl⟩

/-- The write transaction of a publication installs a generation or changes nothing. -/
theorem install_cases (now : τ) (force fails : Bool) (left day : ℕ) (head : Head) (revision : ℕ) (content : Content)
    (s : Primary τ) :
    (install c now force fails left day head revision content s).2 = s ∨
      fails = false ∧ (force = false → s.head.day < day) ∧ s.head = head ∧ s.draftRevision = revision ∧
        day = c.dayOf now ∧ (install c now force fails left day head revision content s).2 =
          { s with head := ⟨s.head.version + 1, day, s.head.lineage⟩, content := content } := by
  unfold install
  split_ifs with hday hfence htarget hfails
  · exact .inl rfl
  · exact .inl rfl
  · exact .inl rfl
  · exact .inl rfl
  · obtain ⟨hhead, hrevision⟩ := Prod.ext_iff.mp (not_not.mp hfence)
    refine .inr ⟨Bool.not_eq_true _ ▸ hfails, fun hforce => ?_, hhead, hrevision, not_not.mp htarget, rfl⟩
    exact not_le.mp fun hle => hday ⟨hforce, hle⟩

/-- An import installs a later generation of the lineage, or leaves the replica. -/
theorem importSnapshot_ok {snapshot : Snapshot} {r r' : Replica} {installed : Bool}
    (h : importSnapshot c snapshot r = .ok (installed, r')) :
    ∃ businesses, snapshot.businesses.mapM validItem = .ok businesses ∧
      (installed = false ∧ r' = r ∧ r.initialized = true ∧ snapshot.head.version = r.head.version ∨
        installed = true ∧ r' = { r with
          initialized := true
          head := snapshot.head
          content := prepare c r.shards businesses } ∧
        (r.initialized = true → snapshot.head.lineage = r.head.lineage ∧
          r.head.version < snapshot.head.version ∧ r.head.day ≤ snapshot.head.day)) := by
  unfold importSnapshot at h
  obtain ⟨-, -, h⟩ := of_bind h
  obtain ⟨-, -, h⟩ := of_bind h
  obtain ⟨businesses, hbusinesses, h⟩ := of_bind h
  refine ⟨businesses, hbusinesses, ?_⟩
  dsimp only at h
  split at h
  · rename_i huninitialized
    cases h
    refine .inr ⟨rfl, rfl, fun hinitialized => ?_⟩
    rw [huninitialized] at hinitialized
    cases hinitialized
  · rename_i hinitialized
    obtain ⟨_, hlineage, h⟩ := of_bind h
    obtain ⟨hlineage, hversion⟩ := require_eq_ok.mp hlineage
    split at h
    · rename_i hsame
      obtain ⟨-, -, heq⟩ := of_bind h
      cases heq
      exact .inl ⟨rfl, rfl, Bool.not_eq_false _ ▸ hinitialized, hsame⟩
    · rename_i hdifferent
      obtain ⟨_, hday, heq⟩ := of_bind h
      cases heq
      refine .inr ⟨rfl, rfl, fun _ => ⟨hlineage, ?_, not_lt.mp (require_eq_ok.mp hday)⟩⟩
      exact lt_of_le_of_ne (not_lt.mp hversion) (Ne.symm hdifferent)

end SystemDesign.Proximity
