import Mathlib.Data.Nat.Digits.Lemmas
import SystemDesign.Lib.Binary
import SystemDesign.Lib.Transaction
import SystemDesign.Lib.Transitions

/-!
Short links (`strategies.py`, `sqlite_storage.py` and `shortener.py`).

A transaction of the storage is one step, and so is a read outside of one; between them calls of any number of instances
interleave. URLs are as the validation let them through. Clicks and domains are not represented.
-/

namespace SystemDesign.UrlShortener

open List

/-! ### Codes -/

abbrev Code := List Char

def base62Chars : List Char := "0123456789abcdefghijklmnopqrstuvwxyzABCDEFGHIJKLMNOPQRSTUVWXYZ".toList

/-- The loop over `divmod` appends the least digit first. -/
def encodeBase62 (number : ℕ) : Code :=
  if number = 0 then ['0'] else ((Nat.digits 62 number).map (base62Chars.getD · '0')).reverse

/-- `none` where the source raises. -/
def decodeBase62 (encoded : Code) : Option ℕ :=
  encoded.foldlM (fun result char => (base62Chars.idxOf? char).map (result * 62 + ·)) 0

def shortCodeLength : ℕ := 7

/-- `rjust` -/
def padded (number : ℕ) : Code := (encodeBase62 number).leftpad shortCodeLength '0'

def computeCode (text : String) : Code :=
  ((encodeBase62 (Crc32.crc32 (utf8Bytes text) % 2 ^ 32)).take shortCodeLength).rightpad shortCodeLength '0'

theorem idxOf_base62Chars : ∀ d < 62, base62Chars.idxOf? (base62Chars.getD d '0') = some d := by decide

theorem foldlM_digits {digits : List ℕ} (h : ∀ d ∈ digits, d < 62) (start : ℕ) :
    (digits.map (base62Chars.getD · '0')).foldlM
      (fun result char => (base62Chars.idxOf? char).map (result * 62 + ·)) start =
      some (digits.foldl (fun result d => result * 62 + d) start) := by
  induction digits generalizing start with
  | nil => rfl
  | cons d digits ih =>
    rw [map_cons, foldlM_cons, idxOf_base62Chars d (h d mem_cons_self)]
    exact ih (fun e he => h e (mem_cons_of_mem _ he)) _

theorem decodeBase62_encodeBase62 (n : ℕ) : decodeBase62 (encodeBase62 n) = some n := by
  unfold encodeBase62
  split
  · rename_i hzero
    subst hzero
    decide
  · have hdigits : ∀ d ∈ (Nat.digits 62 n).reverse, d < 62 := fun d hd =>
      Nat.digits_lt_base (by decide) (mem_reverse.mp hd)
    have hfold : (fun (d result : ℕ) => result * 62 + d) = fun d result => d + 62 * result := by
      funext d result
      omega
    rw [decodeBase62, ← map_reverse, foldlM_digits hdigits, foldl_reverse, hfold]
    exact congrArg some ((Nat.ofDigits_eq_foldr 62 _).symm.trans (Nat.ofDigits_digits 62 n))

theorem decodeBase62_zeros (k : ℕ) (code : Code) : decodeBase62 (replicate k '0' ++ code) = decodeBase62 code := by
  induction k with
  | zero => rfl
  | succ k ih => exact ih

theorem padded_injective : Function.Injective padded := by
  intro n m h
  have hdecode (k : ℕ) : decodeBase62 (padded k) = some k :=
    (decodeBase62_zeros _ _).trans (decodeBase62_encodeBase62 k)
  exact Option.some.inj ((hdecode n).symm.trans ((congrArg decodeBase62 h).trans (hdecode m)))

/-! ### The storage -/

inductive RedirectType
  | permanent
  | temporary
deriving DecidableEq

structure Mapping where
  shortCode : Code
  longUrl : String
  redirectType : RedirectType
  createdAt : ℕ
deriving DecidableEq

/-- What `shorten` asks the storage for. -/
structure Draft where
  longUrl : String
  redirectType : RedirectType
  createdAt : ℕ
deriving DecidableEq

/-- The tables `urls` and `id_sequence`. -/
structure Db where
  urls : List Mapping
  sequence : ℕ

inductive Error
  | collisionLimitExceeded
  | sequenceExhausted
  | conflict

def Db.getByShortCode (db : Db) (code : Code) : Option Mapping := db.urls.find? fun row => decide (row.shortCode = code)

def Db.getByLongUrl (db : Db) (url : String) : Option Mapping := db.urls.find? fun row => decide (row.longUrl = url)

inductive Strategy
  | hashCollision (maxRetries : ℤ)
  | base62

/-- The loop of `HashCollisionStrategy.generate` over the attempts that are left. -/
def rehash (db : Db) (longUrl : String) : ℕ → String → Except Error Code
  | 0, _ => .error .collisionLimitExceeded
  | attempts + 1, urlToHash =>
    match db.getByShortCode (computeCode urlToHash) with
    | none => .ok (computeCode urlToHash)
    | some existing =>
      if existing.longUrl = longUrl then .ok (computeCode urlToHash) else rehash db longUrl attempts (urlToHash ++ "~rehash")

def nextId (db : Db) : Except Error (ℕ × Db) :=
  if 2 ^ 63 - 1 ≤ db.sequence then .error .sequenceExhausted
  else .ok (db.sequence + 1, { db with sequence := db.sequence + 1 })

def Strategy.generate (db : Db) (longUrl : String) : Strategy → Except Error (Code × Db)
  | .hashCollision maxRetries => do
    let code ← rehash db longUrl (maxRetries + 1).toNat longUrl
    .ok (code, db)
  | .base62 => do
    let id ← nextId db
    .ok (padded id.1, id.2)

/-- The two columns are unique; a mapping that is stored already is kept. -/
def save (db : Db) (mapping : Mapping) : Except Error Db :=
  if ∃ row ∈ db.urls, row.shortCode = mapping.shortCode ∨ row.longUrl = mapping.longUrl then
    if db.getByShortCode mapping.shortCode = some mapping then .ok db else .error .conflict
  else .ok { db with urls := db.urls ++ [mapping] }

/-- The transaction of `get_or_create`: what raises is rolled back. -/
def getOrCreate (strategy : Strategy) (db : Db) (draft : Draft) : Except Error (Mapping × Db) :=
  match db.getByLongUrl draft.longUrl with
  | some mapping => .ok (mapping, db)
  | none => do
    let generated ← strategy.generate db draft.longUrl
    let mapping : Mapping := ⟨generated.1, draft.longUrl, draft.redirectType, draft.createdAt⟩
    let db ← save generated.2 mapping
    .ok (mapping, db)

/-- No code and no URL stands in two rows. -/
structure Db.Unique (db : Db) : Prop where
  codes : (db.urls.map Mapping.shortCode).Nodup
  urls : (db.urls.map Mapping.longUrl).Nodup

variable {db db' : Db} {mapping : Mapping} {strategy : Strategy} {code : Code} {url : String}

theorem getByShortCode_eq_some (h : db.Unique) :
    db.getByShortCode code = some mapping ↔ mapping ∈ db.urls ∧ mapping.shortCode = code := by
  constructor
  · intro hfind
    exact ⟨mem_of_find?_eq_some hfind, by simpa using find?_some hfind⟩
  · rintro ⟨hmem, rfl⟩
    obtain ⟨row, hrow⟩ := Option.isSome_iff_exists.mp (find?_isSome (p := fun row : Mapping =>
      decide (row.shortCode = mapping.shortCode)).mpr ⟨mapping, hmem, decide_eq_true rfl⟩)
    have hcode : row.shortCode = mapping.shortCode := by simpa using find?_some hrow
    obtain rfl := inj_on_of_nodup_map h.codes (mem_of_find?_eq_some hrow) hmem hcode
    exact hrow

theorem generate_urls {generated : Code × Db} (h : strategy.generate db url = .ok generated) : generated.2.urls = db.urls := by
  cases strategy with
  | hashCollision maxRetries =>
    obtain ⟨_, -, heq⟩ := of_bind h
    cases heq
    rfl
  | base62 =>
    obtain ⟨id, hid, heq⟩ := of_bind h
    cases heq
    unfold nextId at hid
    split at hid
    · cases hid
    · cases hid
      rfl

theorem save_spec (h : db.Unique) (hsave : save db mapping = .ok db') :
    db'.Unique ∧ db.urls <+: db'.urls ∧ mapping ∈ db'.urls := by
  unfold save at hsave
  split at hsave
  · split at hsave
    · rename_i hfound
      cases hsave
      exact ⟨h, prefix_rfl, mem_of_find?_eq_some hfound⟩
    · cases hsave
  · rename_i hnew
    push Not at hnew
    cases hsave
    refine ⟨⟨?_, ?_⟩, prefix_append .., mem_append_right _ (mem_singleton_self _)⟩
    · rw [map_append, map_singleton, nodup_append]
      refine ⟨h.codes, nodup_singleton _, fun a ha b hb => ?_⟩
      obtain ⟨row, hrow, rfl⟩ := mem_map.mp ha
      exact mem_singleton.mp hb ▸ (hnew row hrow).1
    · rw [map_append, map_singleton, nodup_append]
      refine ⟨h.urls, nodup_singleton _, fun a ha b hb => ?_⟩
      obtain ⟨row, hrow, rfl⟩ := mem_map.mp ha
      exact mem_singleton.mp hb ▸ (hnew row hrow).2

/-- A transaction that commits answers a row of the URL, and keeps all rows. -/
theorem getOrCreate_spec (h : db.Unique) {draft : Draft} (hcall : getOrCreate strategy db draft = .ok (mapping, db')) :
    (db'.Unique ∧ db.urls <+: db'.urls) ∧ mapping ∈ db'.urls ∧ mapping.longUrl = draft.longUrl := by
  unfold getOrCreate at hcall
  split at hcall
  · rename_i hfound
    cases hcall
    exact ⟨⟨h, prefix_rfl⟩, mem_of_find?_eq_some hfound, by simpa using find?_some hfound⟩
  · obtain ⟨generated, hgenerated, hcall⟩ := of_bind hcall
    obtain ⟨stored, hsave, hcall⟩ := of_bind hcall
    cases hcall
    have hsame := generate_urls hgenerated
    have hunique : generated.2.Unique := ⟨hsame ▸ h.codes, hsame ▸ h.urls⟩
    obtain ⟨hunique', hgrow, hmem⟩ := save_spec hunique hsave
    exact ⟨⟨hunique', hsame ▸ hgrow⟩, hmem, rfl⟩

/-! ### Instances -/

/-- A call between two of its steps: `shorten` that found no row, `resolve` that found no cache entry, and with what the
storage answered. -/
inductive Call
  | creating (node : ℕ) (draft : Draft)
  | reading (node : ℕ) (code : Code)
  | caching (node : ℕ) (code : Code) (mapping : Mapping)
deriving DecidableEq

inductive Answer
  | shortened (longUrl : String) (code : Code)
  | failed (longUrl : String) (error : Error)
  | resolved (code : Code) (longUrl : String)
  | notFound (code : Code)

/-- An `OrderedDict`, the latest entry last. -/
abbrev Cache := List (Code × Mapping)

def Cache.put (cache : Cache) (code : Code) (mapping : Mapping) : Cache :=
  cache.filter (fun entry => decide (entry.1 ≠ code)) ++ [(code, mapping)]

def Cache.remember (capacity : ℕ) (cache : Cache) (code : Code) (mapping : Mapping) : Cache :=
  if capacity = 0 then cache else (cache.put code mapping).drop ((cache.put code mapping).length - capacity)

structure State where
  db : Db
  caches : ℕ → Cache
  calls : List Call
  /-- All answers, the latest first. -/
  log : List Answer

/-- One step of some call; `answers` adds its answer to the log. -/
def State.answers (s : State) (answer : Answer) : State := { s with log := answer :: s.log }

inductive Step (strategy : ℕ → Strategy) (capacity : ℕ → ℕ) (s : State) : State → Prop
  | found {url : String} {mapping : Mapping} (h : s.db.getByLongUrl url = some mapping) :
      Step strategy capacity s (s.answers (.shortened url mapping.shortCode))
  | absent (i : ℕ) {draft : Draft} (h : s.db.getByLongUrl draft.longUrl = none) :
      Step strategy capacity s { s with calls := .creating i draft :: s.calls }
  | commit {i : ℕ} {draft : Draft} {mapping : Mapping} {db : Db} (hcall : .creating i draft ∈ s.calls)
      (h : getOrCreate (strategy i) s.db draft = .ok (mapping, db)) :
      Step strategy capacity s ({ s with db, calls := s.calls.erase (.creating i draft) }.answers
        (.shortened draft.longUrl mapping.shortCode))
  | rollback {i : ℕ} {draft : Draft} {e : Error} (hcall : .creating i draft ∈ s.calls)
      (h : getOrCreate (strategy i) s.db draft = .error e) :
      Step strategy capacity s ({ s with calls := s.calls.erase (.creating i draft) }.answers (.failed draft.longUrl e))
  | hit {i : ℕ} {code : Code} {mapping : Mapping} (h : (s.caches i).lookup code = some mapping) :
      Step strategy capacity s ({ s with caches := Function.update s.caches i ((s.caches i).put code mapping) }.answers
        (.resolved code mapping.longUrl))
  | miss {i : ℕ} {code : Code} (h : (s.caches i).lookup code = none) :
      Step strategy capacity s { s with calls := .reading i code :: s.calls }
  | read {i : ℕ} {code : Code} {mapping : Mapping} (hcall : .reading i code ∈ s.calls)
      (h : s.db.getByShortCode code = some mapping) :
      Step strategy capacity s { s with calls := .caching i code mapping :: s.calls.erase (.reading i code) }
  | unknown {i : ℕ} {code : Code} (hcall : .reading i code ∈ s.calls) (h : s.db.getByShortCode code = none) :
      Step strategy capacity s ({ s with calls := s.calls.erase (.reading i code) }.answers (.notFound code))
  | answer {i : ℕ} {code : Code} {mapping : Mapping} (hcall : .caching i code mapping ∈ s.calls) :
      Step strategy capacity s ({ s with
        caches := Function.update s.caches i ((s.caches i).remember (capacity i) code mapping)
        calls := s.calls.erase (.caching i code mapping) }.answers (.resolved code mapping.longUrl))

/-- Instances with their strategies and capacities start on a storage whose columns are unique. -/
def service (strategy : ℕ → Strategy) (capacity : ℕ → ℕ) : Transitions State where
  start s := s.db.Unique ∧ (∀ i, s.caches i = []) ∧ s.calls = [] ∧ s.log = []
  step := Step strategy capacity

/-- What an answer says of the rows, now and later. -/
def Answer.Holds (db : Db) : Answer → Prop
  | .shortened url code | .resolved code url => ∃ row ∈ db.urls, row.shortCode = code ∧ row.longUrl = url
  | .failed .. | .notFound _ => True

structure Inv (s : State) : Prop where
  unique : s.db.Unique
  cached : ∀ i, ∀ entry ∈ s.caches i, entry.2 ∈ s.db.urls ∧ entry.2.shortCode = entry.1
  read : ∀ i code mapping, .caching i code mapping ∈ s.calls → mapping ∈ s.db.urls ∧ mapping.shortCode = code
  holds : ∀ answer ∈ s.log, answer.Holds s.db
  known : s.log.Pairwise fun later earlier => ∀ code url, later = .notFound code → earlier ≠ .shortened url code

variable {s s' : State} {strategies : ℕ → Strategy} {capacity : ℕ → ℕ}

theorem Answer.Holds.mono {answer : Answer} (h : answer.Holds db) (hgrow : db.urls <+: db'.urls) : answer.Holds db' := by
  cases answer with
  | shortened url code | resolved code url =>
    obtain ⟨row, hrow, hsame⟩ := h
    exact ⟨row, hgrow.subset hrow, hsame⟩
  | failed | notFound => trivial

theorem mem_of_lookup {cache : Cache} (h : cache.lookup code = some mapping) : (code, mapping) ∈ cache := by
  obtain ⟨front, back, rfl, -⟩ := lookup_eq_some_iff.mp h
  exact mem_append_right _ mem_cons_self

theorem mem_put {cache : Cache} {entry : Code × Mapping} (h : entry ∈ cache.put code mapping) :
    entry ∈ cache ∨ entry = (code, mapping) :=
  (mem_append.mp h).imp mem_of_mem_filter mem_singleton.mp

theorem mem_remember {cache : Cache} {n : ℕ} {entry : Code × Mapping} (h : entry ∈ cache.remember n code mapping) :
    entry ∈ cache ∨ entry = (code, mapping) := by
  unfold Cache.remember at h
  split at h
  · exact .inl h
  · exact mem_put (mem_of_mem_drop h)

/-- A call answers, and the cache of an instance may keep a row under its code. -/
theorem Inv.answers (h : Inv s) (answer : Answer) (hholds : answer.Holds s.db)
    (hunknown : ∀ code, answer = .notFound code → s.db.getByShortCode code = none) : Inv (s.answers answer) where
  unique := h.unique
  cached := h.cached
  read := h.read
  holds other hother := (mem_cons.mp hother).elim (fun heq => heq ▸ hholds) (h.holds other)
  known := by
    refine pairwise_cons.mpr ⟨fun earlier hearlier code url heq hsame => ?_, h.known⟩
    obtain ⟨row, hrow, hcode, -⟩ := hsame ▸ h.holds earlier hearlier
    have hfound := (getByShortCode_eq_some h.unique).mpr ⟨hrow, hcode⟩
    rw [hunknown code heq] at hfound
    cases hfound

theorem Inv.grows (h : Inv s) (hunique : db.Unique) (hgrow : s.db.urls <+: db.urls) : Inv { s with db } where
  unique := hunique
  cached i entry hentry := (h.cached i entry hentry).imp_left (hgrow.subset ·)
  read i code mapping hcall := (h.read i code mapping hcall).imp_left (hgrow.subset ·)
  holds answer hanswer := (h.holds answer hanswer).mono hgrow
  known := h.known

theorem Inv.called (h : Inv s) {calls : List Call} (hcalls : ∀ i code mapping, .caching i code mapping ∈ calls →
    .caching i code mapping ∈ s.calls ∨ mapping ∈ s.db.urls ∧ mapping.shortCode = code) : Inv { s with calls } :=
  { h with read := fun i code mapping hcall => (hcalls i code mapping hcall).elim (h.read i code mapping) id }

theorem Inv.erased (h : Inv s) (call : Call) : Inv { s with calls := s.calls.erase call } :=
  h.called fun _ _ _ hcall => .inl (mem_of_mem_erase hcall)

/-- The cache of an instance may keep a row under its code. -/
theorem Inv.cache (h : Inv s) (i : ℕ) {cache : Cache} (hrow : mapping ∈ s.db.urls ∧ mapping.shortCode = code)
    (hcache : ∀ entry ∈ cache, entry ∈ s.caches i ∨ entry = (code, mapping)) :
    Inv { s with caches := Function.update s.caches i cache } := by
  refine { h with cached := fun j entry hentry => ?_ }
  dsimp only at hentry
  by_cases heq : j = i
  · subst heq
    rw [Function.update_self] at hentry
    rcases hcache entry hentry with hentry | rfl
    · exact h.cached j entry hentry
    · exact hrow
  · rw [Function.update_of_ne heq] at hentry
    exact h.cached j entry hentry

theorem Inv.step (h : Inv s) (hs : Step strategies capacity s s') : Inv s' := by
  cases hs with
  | found hfound =>
    exact h.answers _ ⟨_, mem_of_find?_eq_some hfound, rfl, by simpa using find?_some hfound⟩ nofun
  | absent i hnone => exact h.called fun _ _ _ hcall => .inl ((mem_cons.mp hcall).resolve_left nofun)
  | commit hcall hcommit =>
    obtain ⟨⟨hunique, hgrow⟩, hmem, hurl⟩ := getOrCreate_spec h.unique hcommit
    exact ((h.grows hunique hgrow).erased _).answers _ ⟨_, hmem, rfl, hurl⟩ nofun
  | rollback hcall hfailed => exact (h.erased _).answers (.failed _ _) trivial nofun
  | @hit i code mapping hlookup =>
    have hrow := h.cached i (code, mapping) (mem_of_lookup hlookup)
    exact (h.cache i hrow fun _ => mem_put).answers _ ⟨_, hrow.1, hrow.2, rfl⟩ nofun
  | miss hnone => exact h.called fun _ _ _ hcall => .inl ((mem_cons.mp hcall).resolve_left nofun)
  | read hcall hread =>
    refine h.called fun _ _ _ hcall' => ?_
    rcases mem_cons.mp hcall' with heq | hcall'
    · cases heq
      exact .inr ((getByShortCode_eq_some h.unique).mp hread)
    · exact .inl (mem_of_mem_erase hcall')
  | unknown hcall hnone =>
    refine (h.erased _).answers (.notFound _) trivial fun _ heq => ?_
    cases heq
    exact hnone
  | @answer i code mapping hcall =>
    have hrow := h.read i code mapping hcall
    exact ((h.cache i hrow fun _ => mem_remember).erased _).answers _ ⟨_, hrow.1, hrow.2, rfl⟩ nofun

theorem inv_reachable (h : (service strategies capacity).Reachable s) : Inv s := by
  refine h.invariant (fun s hstart => ?_) fun _ _ _ hinv hs => hinv.step hs
  obtain ⟨hunique, hcaches, hcalls, hlog⟩ := hstart
  refine ⟨hunique, fun i entry hentry => ?_, fun i code mapping hcall => ?_, fun answer hanswer => ?_, hlog ▸ .nil⟩
  · exact absurd (hcaches i ▸ hentry) not_mem_nil
  · exact absurd (hcalls ▸ hcall) not_mem_nil
  · exact absurd (hlog ▸ hanswer) not_mem_nil

/-- Codes and URLs correspond, answers about a URL and its code agree for ever, and failures leave no trace. -/
structure Links (strategies : ℕ → Strategy) (capacity : ℕ → ℕ) (s : State) : Prop where
  oneToOne : ∀ row ∈ s.db.urls, ∀ row' ∈ s.db.urls, row.shortCode = row'.shortCode ↔ row.longUrl = row'.longUrl
  stable : ∀ url code code', .shortened url code ∈ s.log → .shortened url code' ∈ s.log → code = code'
  resolves : ∀ url code url', .shortened url code ∈ s.log → .resolved code url' ∈ s.log → url' = url
  known : ∀ newer older code url, s.log = newer ++ .notFound code :: older → .shortened url code ∉ older
  failure : ∀ s' url e, Step strategies capacity s s' → s'.log = .failed url e :: s.log → s'.db = s.db ∧ s'.caches = s.caches

theorem Inv.oneToOne (h : Inv s) {row row' : Mapping} (hrow : row ∈ s.db.urls) (hrow' : row' ∈ s.db.urls) :
    row.shortCode = row'.shortCode ↔ row.longUrl = row'.longUrl :=
  ⟨fun heq => congrArg _ (inj_on_of_nodup_map h.unique.codes hrow hrow' heq),
    fun heq => congrArg _ (inj_on_of_nodup_map h.unique.urls hrow hrow' heq)⟩

def storedLink : Mapping := ⟨padded 1, "http://a.example", .temporary, 0⟩

/-- A stored URL was shortened again. -/
def firstLink : State := ⟨⟨[storedLink], 1⟩, fun _ => [], [], [.shortened "http://a.example" storedLink.shortCode]⟩

theorem firstLink_reachable : (service (fun _ => .base62) fun _ => 1).Reachable firstLink := by
  have hstart : (service (fun _ => .base62) fun _ => 1).Reachable ⟨⟨[storedLink], 1⟩, fun _ => [], [], []⟩ :=
    .start ⟨⟨nodup_singleton _, nodup_singleton _⟩, fun _ => rfl, rfl, rfl⟩
  exact hstart.step (.found rfl)

end SystemDesign.UrlShortener
