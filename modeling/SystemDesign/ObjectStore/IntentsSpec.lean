import SystemDesign.ObjectStore.Service

/-!
When a frozen upload can be completed.

A frozen upload, an intent and a receipt of one request must speak of one payload.
`freeze` does not look at the intents, so a put or a delete marker under the request key
of an upload can leave an intent of other content, and the upload is then stuck:
`intent_poisons_completion`. `Harmless` steps keep them apart, and
`completion_never_poisoned` shows that this is enough for every run: a frozen upload can
always be completed and maintenance stops at nothing but its budgets.
-/

namespace SystemDesign.ObjectStore

open Dict List

/-! ### Checks that passed -/

variable {manifest : List ChunkRef}

theorem manifestCopy_eq_ok {frozen : List ChunkRef} (h : manifestCopy manifest = .ok frozen) : frozen = manifest := by
  unfold manifestCopy at h
  obtain ⟨_, _, h⟩ := of_bind h
  obtain ⟨_, _, h⟩ := of_bind h
  cases h
  rfl

theorem publication_eq_ok {p : Payload} {frozen : List ChunkRef} (h : publication p = .ok frozen) :
    frozen = p.manifest := by
  unfold publication at h
  obtain ⟨_, _, h⟩ := of_bind h
  obtain ⟨_, _, h⟩ := of_bind h
  obtain ⟨_, _, h⟩ := of_bind h
  obtain ⟨_, _, h⟩ := of_bind h
  obtain ⟨_, _, h⟩ := of_bind h
  obtain ⟨copy, hcopy, h⟩ := of_bind h
  obtain ⟨_, _, h⟩ := of_bind h
  obtain ⟨_, _, h⟩ := of_bind h
  obtain ⟨_, _, h⟩ := of_bind h
  cases h
  exact manifestCopy_eq_ok hcopy

/-- A payload the checks let through. -/
def Payload.Ok (p : Payload) : Prop := publication p = .ok p.manifest

def ManifestOk (manifest : List ChunkRef) : Prop := manifestCopy manifest = .ok manifest

/-- An identity the checks let through. -/
structure Identity.Ok (id : Identity) : Prop where
  bucket : isIdentifier id.bucket = true
  key : isObjectKey id.key = true
  request : isIdentifier id.request = true

theorem Payload.Ok.parts {p : Payload} (h : p.Ok) : p.id.Ok ∧ ManifestOk p.manifest := by
  unfold Payload.Ok publication at h
  obtain ⟨_, h₁, h⟩ := of_bind h
  obtain ⟨_, h₂, h⟩ := of_bind h
  obtain ⟨_, h₃, h⟩ := of_bind h
  obtain ⟨_, _, h⟩ := of_bind h
  obtain ⟨_, _, h⟩ := of_bind h
  obtain ⟨copy, hcopy, _⟩ := of_bind h
  have heq := manifestCopy_eq_ok hcopy
  subst heq
  exact ⟨⟨require_eq_ok.mp h₁, require_eq_ok.mp h₂, require_eq_ok.mp h₃⟩, hcopy⟩

theorem checkChunk_eq_ok {c : ChunkRef} :
    checkChunk c = .ok () ↔ isChecksum c.hash = true ∧ 1 ≤ c.size ∧ c.size ≤ chunkSize := by
  constructor
  · intro h
    obtain ⟨_, h₁, h₂⟩ := of_bind h
    have hsize := require_eq_ok.mp h₂
    exact ⟨require_eq_ok.mp h₁, by omega, by omega⟩
  · rintro ⟨h₁, h₂, h₃⟩
    apply bind_eq_ok.mpr
    exact ⟨(), require_eq_ok.mpr h₁, require_eq_ok.mpr ⟨by omega, by omega⟩⟩

theorem forM_eq_ok {α : Type} {f : α → Py Unit} {xs : List α} : xs.forM f = .ok () ↔ ∀ x ∈ xs, f x = .ok () := by
  induction xs with
  | nil => exact ⟨fun _ x hx => (nomatch hx), fun _ => rfl⟩
  | cons x xs ih =>
    rw [forall_mem_cons, ← ih]
    change ((f x >>= fun _ => xs.forM f) = .ok ()) ↔ _
    constructor
    · intro h
      obtain ⟨u, hx, hxs⟩ := of_bind h
      exact ⟨hx, hxs⟩
    · rintro ⟨hx, hxs⟩
      exact bind_eq_ok.mpr ⟨(), hx, hxs⟩

theorem manifestOk_iff : ManifestOk manifest ↔ manifest.length ≤ maxChunks ∧ ∀ c ∈ manifest, checkChunk c = .ok () := by
  constructor
  · intro h
    obtain ⟨_, h₁, h⟩ := of_bind h
    obtain ⟨_, h₂, _⟩ := of_bind h
    exact ⟨require_eq_ok.mp h₁, forM_eq_ok.mp h₂⟩
  · rintro ⟨h₁, h₂⟩
    apply bind_eq_ok.mpr
    refine ⟨(), require_eq_ok.mpr h₁, bind_eq_ok.mpr ⟨(), forM_eq_ok.mpr h₂, rfl⟩⟩

section

variable {τ : Type} [LinearOrder τ] [Add τ] [Sub τ] [NatCast τ]

/-! ### The invariant -/

/-- An upload as `start` and `part` leave it, and its frozen manifest once it has one. -/
structure UploadOk (u : Upload τ) : Prop where
  id : u.id.Ok
  sha : isChecksum u.sha = true
  size : u.size ≤ maxObjectBytes
  empty : u.size = 0 → u.sha = emptySha
  parts : ∀ n part, u.parts.get? n = some part → ManifestOk part.manifest
  frozen : u.state = .completing → ∃ m, u.manifest = some m ∧ (u.payload m).Ok
  answer : u.state = .complete → ∃ receipt, u.result = some receipt

structure IntentOk (id : Identity) (row : Intent τ) : Prop where
  id : row.payload.id = id
  hash : row.hash = row.payload.digest
  payload : row.payload.Ok

/-- The frozen uploads under an identity have the payload `p`. -/
def UploadsAgree (s : System τ) (p : Payload) : Prop :=
  ∀ k u m, s.catalog.uploads.get? k = some u → u.state = .completing → u.manifest = some m →
    u.id = p.id → u.payload m = p

structure Intact (s : System τ) : Prop where
  uploads : ∀ k u, s.catalog.uploads.get? k = some u → UploadOk u
  names : ∀ k u, s.catalog.uploads.get? k = some u → isIdentifier k = true
  unique : ∀ k k' u u', s.catalog.uploads.get? k = some u → s.catalog.uploads.get? k' = some u' → u.id = u'.id → k = k'
  intents : ∀ id row, s.catalog.publications.get? id = some row → IntentOk id row
  agree : ∀ id row, s.catalog.publications.get? id = some row → UploadsAgree s row.payload
  prepared : ∀ p ∈ s.prepared, ∃ row, s.catalog.publications.get? p.id = some row ∧ row.payload = p
  receipts : ∀ i id r, (s.shards i).receipts.get? id = some r → isIdentifier r.version = true ∧
    ∃ row, s.catalog.publications.get? id = some row ∧ r.hash = row.payload.contentDigest
  versions : ∀ i, ∀ v ∈ (s.shards i).versions, ManifestOk v.manifest

variable {s : System τ}

omit [LinearOrder τ] [Add τ] [Sub τ] [NatCast τ] in
theorem intact_empty (h : s.Empty) : Intact s := by
  obtain ⟨hcat, hshards, hprepared⟩ := h
  have huploads : ∀ k, s.catalog.uploads.get? k = none := by
    intro k
    rw [hcat]
    rfl
  have hintents : ∀ id, s.catalog.publications.get? id = none := by
    intro id
    rw [hcat]
    rfl
  constructor
  · intro k u hu
    rw [huploads] at hu
    cases hu
  · intro k u hu
    rw [huploads] at hu
    cases hu
  · intro k k' u u' hu
    rw [huploads] at hu
    cases hu
  · intro id row hrow
    rw [hintents] at hrow
    cases hrow
  · intro id row hrow
    rw [hintents] at hrow
    cases hrow
  · intro p hp
    rw [hprepared] at hp
    cases hp
  · intro i id r hr
    rw [hshards] at hr
    cases hr
  · intro i v hv
    rw [hshards] at hv
    cases hv

/-! ### Preparing -/

/-- An intent under the identity of `p` either has its payload or another digest. -/
def NoCollision (s : System τ) (p : Payload) : Prop :=
  ∀ row, s.catalog.publications.get? p.id = some row → row.hash = p.digest → row.payload = p

variable {p : Payload} {s' : System τ} {now : τ}

variable {id : Identity} {row : Intent τ}

section
omit [LinearOrder τ] [Add τ] [Sub τ] [NatCast τ]

theorem prepare_spec (h : prepare s now p = .ok s') : p.Ok ∧ s'.prepared = s.prepared ++ [p] ∧ s'.shards = s.shards ∧
      s'.catalog.uploads = s.catalog.uploads ∧
      ((s.catalog.publications.get? p.id = none ∧ s'.catalog.publications =
          s.catalog.publications.set p.id ⟨p.digest, p, false, now⟩) ∨
        ∃ row, s.catalog.publications.get? p.id = some row ∧ row.hash = p.digest ∧
          s'.catalog.publications = s.catalog.publications) := by
  unfold prepare at h
  obtain ⟨manifest, hmanifest, h⟩ := of_bind h
  have heq := publication_eq_ok hmanifest
  subst heq
  obtain ⟨cat, hcat, h⟩ := of_bind h
  cases h
  unfold preparePublication at hcat
  obtain ⟨frozen, hfrozen, hcat⟩ := of_bind hcat
  have heq := publication_eq_ok hfrozen
  subst heq
  refine ⟨hmanifest, rfl, rfl, ?_⟩
  split at hcat
  · rename_i row hrow
    dsimp only at hcat
    split at hcat
    · cases hcat
    · rename_i hhash
      cases hcat
      exact ⟨rfl, .inr ⟨row, hrow, not_not.mp hhash, rfl⟩⟩
  · rename_i hnone
    cases hcat
    exact ⟨rfl, .inl ⟨hnone, rfl⟩⟩

theorem prepare_keeps {s s' : System τ} {now : τ} {p : Payload} (h : prepare s now p = .ok s')
    (hrow : s.catalog.publications.get? id = some row) : s'.catalog.publications.get? id = some row := by
  obtain ⟨-, -, -, -, ⟨hnone, hset⟩ | ⟨_, _, _, hsame⟩⟩ := prepare_spec h
  · rw [hset, get?_set_of_ne]
    · exact hrow
    · rintro rfl
      rw [hnone] at hrow
      cases hrow
  · rw [hsame]
    exact hrow

theorem Intact.prepare (inv : Intact s) (h : prepare s now p = .ok s') (hcollision : NoCollision s p)
    (hagree : UploadsAgree s p) : Intact s' := by
  have hkeeps : ∀ id row, s.catalog.publications.get? id = some row →
      s'.catalog.publications.get? id = some row := fun _ _ => prepare_keeps h
  obtain ⟨hok, hprepared, hshards, huploads, hrows⟩ := prepare_spec h
  have hrow : ∀ id row, s'.catalog.publications.get? id = some row →
      s.catalog.publications.get? id = some row ∨ (id = p.id ∧ row = ⟨p.digest, p, false, now⟩) := by
    intro id row hrow
    obtain ⟨-, hset⟩ | ⟨_, _, _, hsame⟩ := hrows
    · rw [hset] at hrow
      obtain ⟨rfl, rfl⟩ | ⟨-, hrow⟩ := get?_set_cases hrow
      · exact .inr ⟨rfl, rfl⟩
      · exact .inl hrow
    · rw [hsame] at hrow
      exact .inl hrow
  constructor
  · rw [huploads]
    exact inv.uploads
  · rw [huploads]
    exact inv.names
  · rw [huploads]
    exact inv.unique
  · intro id row h
    obtain h | ⟨rfl, rfl⟩ := hrow id row h
    · exact inv.intents id row h
    · exact ⟨rfl, Eq.refl p.digest, hok⟩
  · intro id row h
    unfold UploadsAgree
    rw [huploads]
    obtain h | ⟨rfl, rfl⟩ := hrow id row h
    · exact inv.agree id row h
    · exact hagree
  · intro q hq
    rw [hprepared, mem_append, mem_singleton] at hq
    obtain hq | rfl := hq
    · obtain ⟨row, hrow, hpayload⟩ := inv.prepared q hq
      exact ⟨row, hkeeps _ _ hrow, hpayload⟩
    · obtain ⟨-, hset⟩ | ⟨row, hrow, hhash, hsame⟩ := hrows
      · exact ⟨_, by rw [hset]; exact get?_set_self _ _ _, rfl⟩
      · exact ⟨row, hkeeps _ _ hrow, hcollision row hrow hhash⟩
  · rw [hshards]
    intro i id r hr
    obtain ⟨hversion, row, hrow, hhash⟩ := inv.receipts i id r hr
    exact ⟨hversion, row, hkeeps _ _ hrow, hhash⟩
  · rw [hshards]
    exact inv.versions

end

/-! ### Shards -/

section
omit [LinearOrder τ] [Add τ] [Sub τ] [NatCast τ]

theorem publish_spec {d : Shard τ} {shard shards : ℕ} {fresh : String} {result : PublishResult τ}
    (h : d.publish shard shards now fresh p = .ok result) :
    p.Ok ∧ ((∃ prior, d.receipts.get? p.id = some prior ∧ result = ⟨d, prior.version, true⟩) ∨
      ∃ row : Version τ, row.manifest = p.manifest ∧ result =
        ⟨⟨d.versions ++ [row], d.receipts.set p.id ⟨p.contentDigest, fresh⟩⟩, fresh, false⟩) := by
  unfold Shard.publish at h
  obtain ⟨_, _, h⟩ := of_bind h
  obtain ⟨manifest, hmanifest, h⟩ := of_bind h
  have heq := publication_eq_ok hmanifest
  subst heq
  refine ⟨hmanifest, ?_⟩
  dsimp only at h
  split at h
  · rename_i prior hprior
    split at h
    · cases h
    · cases h
      exact .inl ⟨prior, hprior, rfl⟩
  · cases h
    exact .inr ⟨_, rfl, rfl⟩

theorem Intact.deliver {s s' : System τ} (inv : Intact s) {cfg : Config} {now : τ} {fresh : String}
    {p : Payload} {receipt : Receipt} (hp : p ∈ s.prepared) (hfresh : isIdentifier fresh = true)
    (h : deliver cfg s now fresh p = .ok (s', receipt)) :
    Intact s' ∧ s'.catalog = s.catalog ∧ s'.prepared = s.prepared ∧ isIdentifier receipt.version = true := by
  unfold ObjectStore.deliver at h
  obtain ⟨result, hresult, h⟩ := of_bind h
  cases h
  obtain ⟨hok, hcases⟩ := publish_spec hresult
  obtain ⟨row, hrow, hpayload⟩ := inv.prepared p hp
  have hreceipts : ∀ i id r,
      ((Function.update s.shards (shardFor p.id.bucket p.id.key cfg.shards) result.store i)).receipts.get?
        id = some r → isIdentifier r.version = true ∧
          ∃ row, s.catalog.publications.get? id = some row ∧ r.hash = row.payload.contentDigest := by
    intro i id r hr
    by_cases hi : i = shardFor p.id.bucket p.id.key cfg.shards
    · subst hi
      rw [Function.update_self] at hr
      obtain ⟨prior, -, rfl⟩ | ⟨version, -, rfl⟩ := hcases
      · exact inv.receipts _ id r hr
      · obtain ⟨rfl, rfl⟩ | ⟨-, hr⟩ := get?_set_cases hr
        · exact ⟨hfresh, row, hrow, by rw [hpayload]⟩
        · exact inv.receipts _ id r hr
    · rw [Function.update_of_ne hi] at hr
      exact inv.receipts i id r hr
  refine ⟨⟨inv.uploads, inv.names, inv.unique, inv.intents, inv.agree, inv.prepared, hreceipts, ?_⟩, rfl, rfl, ?_⟩
  · intro i v hv
    by_cases hi : i = shardFor p.id.bucket p.id.key cfg.shards
    · subst hi
      simp only [Function.update_self] at hv
      obtain ⟨prior, -, rfl⟩ | ⟨version, hversion, rfl⟩ := hcases
      · exact inv.versions _ v hv
      · rw [mem_append, mem_singleton] at hv
        obtain hv | rfl := hv
        · exact inv.versions _ v hv
        · rw [hversion]
          exact hok.parts.2
    · simp only [Function.update_of_ne hi] at hv
      exact inv.versions i v hv
  · obtain ⟨prior, hprior, rfl⟩ | ⟨version, -, rfl⟩ := hcases
    · exact (inv.receipts _ _ _ hprior).1
    · exact hfresh

end

variable {receipt : Receipt}

section
omit [LinearOrder τ] [Add τ] [Sub τ] [NatCast τ]

theorem finish_spec (h : finish s id receipt = .ok s') : s'.shards = s.shards ∧ s'.prepared = s.prepared ∧
      s'.catalog.uploads = s.catalog.uploads ∧ ∃ row, s.catalog.publications.get? id = some row ∧
        s'.catalog.publications = s.catalog.publications.set id { row with done := true } := by
  unfold finish at h
  obtain ⟨_, _, h⟩ := of_bind h
  obtain ⟨cat, hcat, h⟩ := of_bind h
  cases h
  unfold finishPublication at hcat
  obtain ⟨_, _, hcat⟩ := of_bind hcat
  obtain ⟨_, _, hcat⟩ := of_bind hcat
  obtain ⟨_, _, hcat⟩ := of_bind hcat
  split at hcat
  · cases hcat
  · rename_i row hrow
    cases hcat
    exact ⟨rfl, rfl, rfl, row, hrow, rfl⟩

theorem finish_keeps {s s' : System τ} {receipt : Receipt} (h : finish s id receipt = .ok s') {id' : Identity}
    (hrow : s.catalog.publications.get? id' = some row) :
    ∃ row', s'.catalog.publications.get? id' = some row' ∧ row'.payload = row.payload := by
  obtain ⟨-, -, -, old, hold, hset⟩ := finish_spec h
  rw [hset]
  by_cases hid : id' = id
  · subst hid
    rw [hold] at hrow
    cases hrow
    exact ⟨_, get?_set_self _ _ _, rfl⟩
  · exact ⟨row, by rw [get?_set_of_ne _ hid]; exact hrow, rfl⟩

theorem Intact.finish (inv : Intact s) {id : Identity} (h : finish s id receipt = .ok s') : Intact s' := by
  have hkeeps : ∀ id' row, s.catalog.publications.get? id' = some row →
      ∃ row', s'.catalog.publications.get? id' = some row' ∧ row'.payload = row.payload :=
    fun _ _ => finish_keeps h
  obtain ⟨hshards, hprepared, huploads, old, hold, hset⟩ := finish_spec h
  have hrow : ∀ id' row, s'.catalog.publications.get? id' = some row →
      ∃ row₀, s.catalog.publications.get? id' = some row₀ ∧ row.hash = row₀.hash ∧ row.payload = row₀.payload := by
    intro id' row hrow
    rw [hset] at hrow
    obtain ⟨rfl, rfl⟩ | ⟨-, hrow⟩ := get?_set_cases hrow
    · exact ⟨old, hold, rfl, rfl⟩
    · exact ⟨row, hrow, rfl, rfl⟩
  constructor
  · rw [huploads]
    exact inv.uploads
  · rw [huploads]
    exact inv.names
  · rw [huploads]
    exact inv.unique
  · intro id' row h
    obtain ⟨row₀, hrow₀, hhash, hpayload⟩ := hrow id' row h
    have hok := inv.intents id' row₀ hrow₀
    exact ⟨by rw [hpayload]; exact hok.id, by rw [hhash, hpayload]; exact hok.hash,
      by rw [hpayload]; exact hok.payload⟩
  · intro id' row h
    obtain ⟨row₀, hrow₀, -, hpayload⟩ := hrow id' row h
    unfold UploadsAgree
    rw [huploads, hpayload]
    exact inv.agree id' row₀ hrow₀
  · rw [hprepared]
    intro p hp
    obtain ⟨row, hrow, hpayload⟩ := inv.prepared p hp
    obtain ⟨row', hrow', hsame⟩ := hkeeps _ _ hrow
    exact ⟨row', hrow', hsame.trans hpayload⟩
  · rw [hshards]
    intro i id' r hr
    obtain ⟨hversion, row, hrow, hhash⟩ := inv.receipts i id' r hr
    obtain ⟨row', hrow', hsame⟩ := hkeeps _ _ hrow
    exact ⟨hversion, row', hrow', by rw [hsame]; exact hhash⟩
  · rw [hshards]
    exact inv.versions

end

/-! ### Uploads -/

variable {k : String} {u : Upload τ}

section
omit [LinearOrder τ] [Add τ] [Sub τ] [NatCast τ]

/-- An upload is replaced or added, and what it would publish agrees with the intents. -/
theorem Intact.setUpload {s : System τ} (inv : Intact s) (hu : UploadOk u) (hk : isIdentifier k = true)
    (hunique : ∀ k' u', k' ≠ k → s.catalog.uploads.get? k' = some u' → u'.id ≠ u.id)
    (hagree : u.state = .completing → ∀ m, u.manifest = some m → ∀ row, s.catalog.publications.get? u.id = some row → row.payload = u.payload m) :
    Intact (setUpload s k u) := by
  constructor
  · intro k' u' h
    obtain ⟨-, rfl⟩ | ⟨-, h⟩ := get?_set_cases h
    · exact hu
    · exact inv.uploads k' u' h
  · intro k' u' h
    obtain ⟨rfl, -⟩ | ⟨-, h⟩ := get?_set_cases h
    · exact hk
    · exact inv.names k' u' h
  · intro k₁ k₂ u₁ u₂ h₁ h₂ hid
    obtain ⟨rfl, rfl⟩ | ⟨hne₁, hold₁⟩ := get?_set_cases h₁
    · obtain ⟨rfl, -⟩ | ⟨hne₂, hold₂⟩ := get?_set_cases h₂
      · rfl
      · exact absurd hid.symm (hunique k₂ u₂ hne₂ hold₂)
    · obtain ⟨rfl, rfl⟩ | ⟨-, hold₂⟩ := get?_set_cases h₂
      · exact absurd hid (hunique k₁ u₁ hne₁ hold₁)
      · exact inv.unique k₁ k₂ u₁ u₂ hold₁ hold₂ hid
  · exact inv.intents
  · intro id row hrow k' u' m h hstate hm hid
    obtain ⟨-, rfl⟩ | ⟨-, h⟩ := get?_set_cases h
    · have hrowId := (inv.intents id row hrow).id
      rw [hid, hrowId] at hagree
      exact (hagree hstate m hm row hrow).symm
    · exact inv.agree id row hrow k' u' m h hstate hm hid
  · exact inv.prepared
  · exact inv.receipts
  · exact inv.versions

/-- An upload that keeps its identity stays the only one of it. -/
theorem Intact.replaceUpload {s : System τ} (inv : Intact s) {u₀ : Upload τ}
    (hget : s.catalog.uploads.get? k = some u₀) (u : Upload τ) (hid : u.id = u₀.id) (hu : UploadOk u)
    (hagree : u.state = .completing → ∀ m, u.manifest = some m → ∀ row, s.catalog.publications.get? u.id = some row → row.payload = u.payload m) :
    Intact (ObjectStore.setUpload s k u) := by
  apply inv.setUpload hu (inv.names k u₀ hget) _ hagree
  intro k' u' hne hu' heq
  exact hne (inv.unique k' k u' u₀ hu' hget (heq.trans hid))

end

variable {upload user : String}

variable {cat : Catalog τ}

omit [LinearOrder τ] [Add τ] [Sub τ] [NatCast τ] in
theorem getUpload_spec (h : getUpload cat upload user = .ok u) : cat.uploads.get? upload = some u ∧ u.user = user := by
  unfold getUpload at h
  split at h
  · rename_i u' hu'
    split at h
    · rename_i huser
      cases h
      exact ⟨hu', huser⟩
    · cases h
  · cases h

omit [LinearOrder τ] [Sub τ] in
theorem Intact.start {s : System τ} (inv : Intact s) {now : τ} {user expected : String} {size : ℤ}
    {fresh upload : String} (hid : isIdentifier fresh = true)
    (h : start s.catalog now id user expected size fresh = .ok (cat, upload)) :
    Intact { s with catalog := cat } := by
  unfold ObjectStore.start at h
  obtain ⟨_, hbucket, h⟩ := of_bind h
  obtain ⟨_, _, h⟩ := of_bind h
  obtain ⟨_, hkey, h⟩ := of_bind h
  obtain ⟨_, hrequest, h⟩ := of_bind h
  obtain ⟨_, hsha, h⟩ := of_bind h
  obtain ⟨_, hsize, h⟩ := of_bind h
  obtain ⟨_, hempty, h⟩ := of_bind h
  obtain ⟨_, _, h⟩ := of_bind h
  have hsize := require_eq_ok.mp hsize
  have hempty := require_eq_ok.mp hempty
  split at h
  · split at h
    · cases h
    · cases h
      exact inv
  · rename_i hnone
    cases h
    apply inv.setUpload _ hid
    · intro k' u' _ hu' heq
      have hmem : (k', u') ∈ s.catalog.uploads.entries := mem_entries.mpr hu'
      have hfind := find?_eq_none.mp hnone (k', u') hmem
      simp [heq] at hfind
    · intro hstate
      cases hstate
    · refine ⟨⟨require_eq_ok.mp hbucket, require_eq_ok.mp hkey, require_eq_ok.mp hrequest⟩,
        require_eq_ok.mp hsha, by dsimp only; omega, ?_, ?_, ?_, ?_⟩
      · intro hzero
        by_contra hne
        exact hempty ⟨by dsimp only at hzero; omega, hne⟩
      · intro n part hpart
        cases hpart
      · intro hstate
        cases hstate
      · intro hstate
        cases hstate

omit [Add τ] [Sub τ] [NatCast τ] in
theorem Intact.part {s : System τ} (inv : Intact s) {now : τ} {upload user : String} {number : ℕ}
    {data : List UInt8} (h : addPart s.catalog now upload user number data manifest = .ok cat) :
    Intact { s with catalog := cat } := by
  unfold addPart at h
  obtain ⟨_, _, h⟩ := of_bind h
  obtain ⟨_, _, h⟩ := of_bind h
  obtain ⟨_, _, h⟩ := of_bind h
  obtain ⟨_, _, h⟩ := of_bind h
  obtain ⟨copy, hcopy, h⟩ := of_bind h
  obtain ⟨_, _, h⟩ := of_bind h
  obtain ⟨u, hu, h⟩ := of_bind h
  obtain ⟨_, hactive, h⟩ := of_bind h
  have hactive := (require_eq_ok.mp hactive).1
  rw [manifestCopy_eq_ok hcopy] at h hcopy
  obtain ⟨hget, -⟩ := getUpload_spec hu
  have hok := inv.uploads upload u hget
  split at h
  · split at h
    · cases h
    · cases h
      exact inv
  · obtain ⟨_, _, h⟩ := of_bind h
    cases h
    apply inv.replaceUpload hget { u with
      parts := u.parts.insert number ⟨sha data, data.length, manifest⟩ } rfl
    · refine ⟨hok.id, hok.sha, hok.size, hok.empty, ?_, hok.frozen, hok.answer⟩
      intro n part hpart
      rw [SortedMap.get?_insert] at hpart
      split at hpart
      · cases hpart
        exact hcopy
      · exact hok.parts n part hpart
    · intro hstate
      dsimp only at hstate
      rw [hactive] at hstate
      cases hstate

variable {nodes : DataNodes}

theorem readChunks_length {data : List UInt8} (h : readChunks nodes manifest = .ok data) :
    data.length = manifestBytes manifest := by
  induction manifest generalizing data with
  | nil =>
    cases h
    rfl
  | cons chunk chunks ih =>
    unfold readChunks at h
    split at h
    · cases h
    · obtain ⟨_, hlength, h⟩ := of_bind h
      obtain ⟨rest, hrest, h⟩ := of_bind h
      cases h
      have hlength := require_eq_ok.mp hlength
      have := ih hrest
      simp only [length_append, manifestBytes, map_cons, sum_cons] at this ⊢
      omega

section
omit [Add τ] [Sub τ] [NatCast τ]

/-- What the checks of a completion let through can be published. -/
theorem checkCompletion_spec {nodes : DataNodes} {now : τ} (hok : UploadOk u)
    (h : checkCompletion nodes now u = .ok manifest) : manifest = partsManifest u ∧ (u.payload manifest).Ok := by
  unfold checkCompletion at h
  obtain ⟨_, _, h⟩ := of_bind h
  obtain ⟨_, _, h⟩ := of_bind h
  obtain ⟨_, hlength, h⟩ := of_bind h
  obtain ⟨data, hdata, h⟩ := of_bind h
  obtain ⟨_, hwhole, h⟩ := of_bind h
  cases h
  have hlength := require_eq_ok.mp hlength
  have hwhole := require_eq_ok.mp hwhole
  have hbytes := readChunks_length hdata
  have hmanifest : ManifestOk (partsManifest u) := by
    apply manifestOk_iff.mpr
    refine ⟨hlength, fun c hc => ?_⟩
    obtain ⟨part, hpart, hc⟩ := mem_flatMap.mp hc
    obtain ⟨n, hn⟩ := SortedMap.mem_values.mp hpart
    exact (manifestOk_iff.mp (hok.parts n part hn)).2 c hc
  have hsize : (0 : ℤ) ≤ u.size ∧ (u.size : ℤ) ≤ maxObjectBytes := ⟨Int.natCast_nonneg _, Int.ofNat_le.mpr hok.size⟩
  refine ⟨rfl, ?_⟩
  unfold Payload.Ok publication
  apply bind_eq_ok.mpr ⟨(), require_eq_ok.mpr hok.id.bucket, _⟩
  apply bind_eq_ok.mpr ⟨(), require_eq_ok.mpr hok.id.key, _⟩
  apply bind_eq_ok.mpr ⟨(), require_eq_ok.mpr hok.id.request, _⟩
  apply bind_eq_ok.mpr ⟨(), require_eq_ok.mpr hok.sha, _⟩
  apply bind_eq_ok.mpr ⟨(), require_eq_ok.mpr hsize, _⟩
  apply bind_eq_ok.mpr ⟨_, hmanifest, _⟩
  apply bind_eq_ok.mpr ⟨(), require_eq_ok.mpr (hbytes.symm.trans hwhole.1), _⟩
  apply bind_eq_ok.mpr ⟨(), require_eq_ok.mpr (by simp [Upload.payload]), _⟩
  have hempty : ¬ (u.size = 0 ∧ u.sha ≠ emptySha) := fun hzero => hzero.2 (hok.empty hzero.1)
  exact bind_eq_ok.mpr ⟨(), require_eq_ok.mpr hempty, rfl⟩

theorem freeze_spec {u' : Upload τ} (h : freeze nodes s now upload user = .ok (s', u')) :
    ∃ u manifest, s.catalog.uploads.get? upload = some u ∧ checkCompletion nodes now u = .ok manifest ∧
      u' = { u with state := .completing, manifest := some manifest } ∧
      s' = setUpload s upload u' := by
  unfold freeze at h
  obtain ⟨u, hu, h⟩ := of_bind h
  obtain ⟨_, _, h⟩ := of_bind h
  obtain ⟨manifest, hmanifest, h⟩ := of_bind h
  cases h
  exact ⟨u, manifest, (getUpload_spec hu).1, hmanifest, rfl, rfl⟩

theorem Intact.freeze (inv : Intact s) {u' : Upload τ} (h : freeze nodes s now upload user = .ok (s', u'))
    (hagree : ∀ u row, s.catalog.uploads.get? upload = some u →
      s.catalog.publications.get? u.id = some row → row.payload = u.payload (partsManifest u)) : Intact s' := by
  obtain ⟨u, manifest, hget, hcheck, rfl, rfl⟩ := freeze_spec h
  have hok := inv.uploads upload u hget
  obtain ⟨rfl, hpayload⟩ := checkCompletion_spec hok hcheck
  apply inv.replaceUpload hget { u with state := .completing, manifest := some (partsManifest u) } rfl
  · exact ⟨hok.id, hok.sha, hok.size, hok.empty, hok.parts, fun _ => ⟨_, rfl, hpayload⟩, fun hstate => nomatch hstate⟩
  · intro _ m hm row hrow
    cases hm
    exact hagree u row hget hrow

end

section
omit [LinearOrder τ] [Add τ] [Sub τ] [NatCast τ]

theorem Intact.abort {s s' : System τ} (inv : Intact s) {upload user : String}
    (h : abort s upload user = .ok s') : Intact s' := by
  unfold ObjectStore.abort at h
  obtain ⟨_, _, h⟩ := of_bind h
  obtain ⟨u, hu, h⟩ := of_bind h
  obtain ⟨_, _, h⟩ := of_bind h
  cases h
  obtain ⟨hget, -⟩ := getUpload_spec hu
  have hok := inv.uploads upload u hget
  apply inv.replaceUpload hget { u with state := .aborted } rfl
  · exact ⟨hok.id, hok.sha, hok.size, hok.empty, hok.parts, fun hstate => (nomatch hstate),
      fun hstate => (nomatch hstate)⟩
  · intro hstate
    cases hstate

theorem Intact.settle {s : System τ} (inv : Intact s) (upload : String) (receipt : Receipt) :
    Intact (settle s upload receipt) := by
  unfold ObjectStore.settle
  split
  · exact inv
  · rename_i u hget
    have hok := inv.uploads upload u hget
    apply inv.replaceUpload hget { u with state := .complete, result := some receipt } rfl
    · exact ⟨hok.id, hok.sha, hok.size, hok.empty, hok.parts, fun hstate => (nomatch hstate), fun _ => ⟨receipt, rfl⟩⟩
    · intro hstate
      cases hstate

end

section
omit [Add τ] [Sub τ] [NatCast τ]

theorem expire_cases (now : τ) (u : Upload τ) :
    u.expire now = u ∨ (u.state = .active ∧ u.expire now = { u with state := .aborted }) := by
  unfold Upload.expire
  split
  · rename_i h
    simp only [Upload.expired, Bool.and_eq_true, decide_eq_true_eq] at h
    exact .inr ⟨h.1, rfl⟩
  · exact .inl rfl

theorem expire_get? (h : (expire s now).catalog.uploads.get? k = some u) :
    ∃ u₀, s.catalog.uploads.get? k = some u₀ ∧ u = u₀.expire now := by
  have hmap := get?_mapVal (Upload.expire now) s.catalog.uploads k
  change (s.catalog.uploads.mapVal (Upload.expire now)).get? k = some u at h
  rw [hmap] at h
  obtain ⟨u₀, hu₀, rfl⟩ := Option.map_eq_some_iff.mp h
  exact ⟨u₀, hu₀, rfl⟩

theorem Intact.expire {s : System τ} (inv : Intact s) (now : τ) : Intact (expire s now) := by
  have hid : ∀ u : Upload τ, (u.expire now).id = u.id := by
    intro u
    obtain h | ⟨-, h⟩ := expire_cases now u
    · rw [h]
    · rw [h]
  constructor
  · intro k u hu
    obtain ⟨u₀, hu₀, rfl⟩ := expire_get? hu
    have hok := inv.uploads k u₀ hu₀
    obtain h | ⟨-, h⟩ := expire_cases now u₀
    · rw [h]
      exact hok
    · rw [h]
      exact ⟨hok.id, hok.sha, hok.size, hok.empty, hok.parts, fun hstate => (nomatch hstate),
        fun hstate => (nomatch hstate)⟩
  · intro k u hu
    obtain ⟨u₀, hu₀, -⟩ := expire_get? hu
    exact inv.names k u₀ hu₀
  · intro k k' u u' hu hu' heq
    obtain ⟨u₀, hu₀, rfl⟩ := expire_get? hu
    obtain ⟨u₀', hu₀', rfl⟩ := expire_get? hu'
    rw [hid, hid] at heq
    exact inv.unique k k' u₀ u₀' hu₀ hu₀' heq
  · exact inv.intents
  · intro id row hrow k u m hu hstate hm hident
    obtain ⟨u₀, hu₀, rfl⟩ := expire_get? hu
    obtain h | ⟨-, h⟩ := expire_cases now u₀
    · rw [h] at hstate hm hident ⊢
      exact inv.agree id row hrow k u₀ m hu₀ hstate hm hident
    · rw [h] at hstate
      cases hstate
  · exact inv.prepared
  · exact inv.receipts
  · exact inv.versions

end

/-! ### Steps -/

/-- What a put or a delete marker must not meet: an intent of other content with its
digest, or a frozen upload of other content. -/
structure Compatible (s : System τ) (p : Payload) : Prop where
  collision : NoCollision s p
  uploads : UploadsAgree s p

/-- The steps that leave no intent against a frozen upload. -/
def Harmless (s : System τ) : Action τ → Prop
  | .freeze _ _ upload _ => ∀ u row, s.catalog.uploads.get? upload = some u →
      s.catalog.publications.get? u.id = some row → row.payload = u.payload (partsManifest u)
  | .put _ id data => Compatible s (putPayload id data)
  | .marker _ id => Compatible s (markerPayload id)
  | _ => True

section
omit [LinearOrder τ] [Add τ] [Sub τ] [NatCast τ]

/-- The payload of a frozen upload meets nothing else under its identity. -/
theorem Intact.compatible {s : System τ} (inv : Intact s) {m : List ChunkRef}
    (hget : s.catalog.uploads.get? k = some u) (hstate : u.state = .completing) (hm : u.manifest = some m) :
    Compatible s (u.payload m) := by
  constructor
  · intro row hrow _
    have hid := (inv.intents _ row hrow).id
    exact (inv.agree _ row hrow k u m hget hstate hm hid.symm).symm
  · intro k' u' m' hget' _ hm' hid
    have hk := inv.unique k' k u' u hget' hget hid
    subst hk
    rw [hget] at hget'
    cases hget'
    rw [hm] at hm'
    cases hm'
    rfl

theorem Intact.compatible_intent (inv : Intact s) (hrow : s.catalog.publications.get? id = some row) :
    Compatible s row.payload := by
  have hid := (inv.intents id row hrow).id
  constructor
  · intro row' hrow' _
    rw [hid, hrow] at hrow'
    cases hrow'
    rfl
  · exact inv.agree id row hrow

end

variable {cfg : Config}

omit [Sub τ] in
theorem Intact.step (inv : Intact s) {a : Action τ} (h : Step cfg s a s') (ha : Harmless s a) : Intact s' := by
  cases h with
  | create h =>
    unfold ObjectStore.create at h
    obtain ⟨_, _, h⟩ := of_bind h
    obtain ⟨_, _, h⟩ := of_bind h
    split at h
    · split at h
      · cases h
      · cases h
        exact inv
    · obtain ⟨_, _, h⟩ := of_bind h
      cases h
      exact ⟨inv.uploads, inv.names, inv.unique, inv.intents, inv.agree, inv.prepared, inv.receipts, inv.versions⟩
  | start _ hid h => exact inv.start hid h
  | part h => exact inv.part h
  | freeze h => exact inv.freeze h ha
  | abort h => exact inv.abort h
  | put _ h => exact inv.prepare h ha.collision ha.uploads
  | marker h => exact inv.prepare h ha.collision ha.uploads
  | intend hupload hstate hmanifest h =>
    have hc := inv.compatible hupload hstate hmanifest
    exact inv.prepare h hc.collision hc.uploads
  | retry hrow h =>
    have hc := inv.compatible_intent hrow
    exact inv.prepare h hc.collision hc.uploads
  | deliver hp hfresh h => exact (inv.deliver hp hfresh h).1
  | finish _ _ h => exact inv.finish h
  | settle _ _ _ _ => exact inv.settle _ _
  | expire => exact inv.expire _

/-- The service with harmless steps only. -/
def harmlessService (τ : Type) [LinearOrder τ] [Add τ] [Sub τ] [NatCast τ] (cfg : Config) : Transitions (System τ) where
  start := System.Empty
  step s s' := ∃ a, Step cfg s a s' ∧ Harmless s a

theorem intact_reachable (h : (harmlessService τ cfg).Reachable s) : Intact s := by
  apply h.invariant
  · exact fun s hs => intact_empty hs
  · rintro s s' - inv ⟨a, hstep, ha⟩
    exact inv.step hstep ha

/-! ### Calls that return -/

section
omit [LinearOrder τ] [Add τ] [Sub τ] [NatCast τ]

theorem prepare_returns (inv : Intact s) (now : τ) (hp : p.Ok)
    (hrow : ∀ row, s.catalog.publications.get? p.id = some row → row.payload = p) : ∃ s', prepare s now p = .ok s' := by
  unfold prepare
  rw [show publication p = .ok p.manifest from hp, Py.bind_ok]
  change ∃ s', (preparePublication s.catalog now p >>= _) = _
  unfold preparePublication
  rw [show publication p = .ok p.manifest from hp, Py.bind_ok]
  cases hget : s.catalog.publications.get? p.id with
  | none => exact ⟨_, rfl⟩
  | some row =>
    have hhash := (inv.intents p.id row hget).hash
    rw [hrow row hget] at hhash
    simp only [hhash, ne_eq, not_true_eq_false, if_false]
    exact ⟨_, rfl⟩

theorem deliver_returns (inv : Intact s) (cfg : Config) (now : τ) (fresh : String) (hp : p ∈ s.prepared) :
    ∃ s' receipt, deliver cfg s now fresh p = .ok (s', receipt) := by
  obtain ⟨row, hrow, rfl⟩ := inv.prepared p hp
  have hok := (inv.intents _ row hrow).payload
  obtain ⟨hid, -⟩ := hok.parts
  have howner : owner (shardFor row.payload.id.bucket row.payload.id.key cfg.shards) cfg.shards
      row.payload.id.bucket row.payload.id.key = .ok () := by
    apply bind_eq_ok.mpr ⟨(), require_eq_ok.mpr hid.bucket, _⟩
    apply bind_eq_ok.mpr ⟨(), require_eq_ok.mpr hid.key, _⟩
    exact require_eq_ok.mpr rfl
  unfold deliver Shard.publish
  dsimp only
  rw [howner, Py.bind_ok, show publication row.payload = .ok row.payload.manifest from hok, Py.bind_ok]
  cases hget : (s.shards (shardFor row.payload.id.bucket row.payload.id.key cfg.shards)).receipts.get?
      row.payload.id with
  | none => exact ⟨_, _, rfl⟩
  | some prior =>
    obtain ⟨-, row', hrow', hhash⟩ := inv.receipts _ _ prior hget
    rw [hrow] at hrow'
    cases hrow'
    simp only [hhash, ne_eq, not_true_eq_false, if_false]
    exact ⟨_, _, rfl⟩

theorem finish_returns (hid : id.Ok) (hrow : s.catalog.publications.get? id = some row)
    (hversion : isIdentifier receipt.version = true) : ∃ s', finish s id receipt = .ok s' := by
  unfold finish finishPublication identifier objectKey
  simp only [require, hversion, hid.bucket, hid.key, hid.request, if_true, Py.bind_ok, hrow]
  exact ⟨_, rfl⟩

end

/-- What a publication changes: intents gain rows and keep payloads, uploads stay. -/
structure Published (s s' : System τ) : Prop where
  intact : Intact s'
  uploads : s'.catalog.uploads = s.catalog.uploads
  payloads : ∀ id row, s.catalog.publications.get? id = some row →
    ∃ row', s'.catalog.publications.get? id = some row' ∧ row'.payload = row.payload

omit [LinearOrder τ] [Add τ] [Sub τ] [NatCast τ] in
/-- A publication that meets no other content returns when its shard answers. -/
theorem publish_returns {s : System τ} (inv : Intact s) (cfg : Config) (now : τ) {fresh : String}
    (hfresh : isIdentifier fresh = true) {p : Payload} (hp : p.Ok)
    (hrow : ∀ row, s.catalog.publications.get? p.id = some row → row.payload = p)
    (huploads : UploadsAgree s p) :
    ∃ s' receipt, publish cfg s now fresh p = .ok (s', receipt) ∧ Published s s' := by
  obtain ⟨s₁, h₁⟩ := prepare_returns inv now hp hrow
  have inv₁ := inv.prepare h₁ (fun row hr _ => hrow row hr) huploads
  obtain ⟨-, hprepared, -, huploads₁, -⟩ := prepare_spec h₁
  have hmem : p ∈ s₁.prepared := by
    rw [hprepared]
    exact mem_append_right _ mem_cons_self
  obtain ⟨s₂, receipt, h₂⟩ := deliver_returns inv₁ cfg now fresh hmem
  obtain ⟨inv₂, hcat₂, -, hversion⟩ := inv₁.deliver hmem hfresh h₂
  obtain ⟨row, hget, -⟩ := inv₁.prepared p hmem
  have hget₂ : s₂.catalog.publications.get? p.id = some row := by
    rw [hcat₂]
    exact hget
  obtain ⟨s₃, h₃⟩ := finish_returns hp.parts.1 hget₂ hversion
  refine ⟨s₃, receipt, ?_, inv₂.finish h₃, ?_, ?_⟩
  · unfold publish
    rw [h₁, Py.bind_ok, h₂, Py.bind_ok]
    dsimp only
    rw [h₃, Py.bind_ok]
    rfl
  · rw [(finish_spec h₃).2.2.1, hcat₂, huploads₁]
  · intro id row' hrow'
    have hkept := prepare_keeps h₁ hrow'
    rw [← hcat₂] at hkept
    exact finish_keeps h₃ hkept

/-- How an upload may move while others are completed. -/
def Onward (s s' : System τ) : Prop :=
  ∀ k u, s.catalog.uploads.get? k = some u → u.state = .completing ∨ u.state = .complete →
    ∃ u', s'.catalog.uploads.get? k = some u' ∧ u'.user = u.user ∧ (u'.state = .completing ∨ u'.state = .complete)

omit [LinearOrder τ] [Add τ] [Sub τ] [NatCast τ] in
theorem settle_onward (s : System τ) (upload : String) (receipt : Receipt) : Onward s (settle s upload receipt) := by
  intro k u hu hstate
  unfold settle
  split
  · exact ⟨u, hu, rfl, hstate⟩
  · rename_i u₀ hu₀
    by_cases hk : k = upload
    · subst hk
      rw [hu₀] at hu
      cases hu
      exact ⟨_, get?_set_self _ _ _, rfl, .inr rfl⟩
    · refine ⟨u, ?_, rfl, hstate⟩
      exact (get?_set_of_ne _ hk _).trans hu

omit [Add τ] [Sub τ] [NatCast τ] in
/-- A frozen upload, or one that was completed, is completed by its owner. -/
theorem complete_returns {s : System τ} (inv : Intact s) (cfg : Config) (nodes : DataNodes) (now : τ)
    {fresh : String} (hfresh : isIdentifier fresh = true) {upload : String}
    (hget : s.catalog.uploads.get? upload = some u) (hstate : u.state = .completing ∨ u.state = .complete) :
    ∃ s' receipt, complete cfg nodes s now fresh upload u.user = .ok (s', receipt) ∧ Intact s' ∧ Onward s s' := by
  have hok := inv.uploads upload u hget
  have hread : getUpload s.catalog upload u.user = .ok u := by simp [getUpload, hget]
  have hname : identifier upload = .ok () := require_eq_ok.mpr (inv.names upload u hget)
  unfold complete
  rw [hname, Py.bind_ok, hread, Py.bind_ok]
  obtain hstate | hstate := hstate
  · obtain ⟨m, hm, hp⟩ := hok.frozen hstate
    have hrow : ∀ row, s.catalog.publications.get? (u.payload m).id = some row → row.payload = u.payload m := by
      intro row hrow
      have hid := (inv.intents _ row hrow).id
      exact (inv.agree _ row hrow upload u m hget hstate hm hid.symm).symm
    obtain ⟨s₁, receipt, h₁, hpub⟩ := publish_returns inv cfg now hfresh hp hrow (inv.compatible hget hstate hm).uploads
    refine ⟨settle s₁ upload receipt, receipt, ?_, hpub.intact.settle _ _, ?_⟩
    · rw [hstate, hm]
      simp only [resume, h₁, Py.bind_ok]
      rfl
    · intro k u' hu' hstate'
      have := settle_onward s₁ upload receipt k u'
      rw [hpub.uploads] at this
      exact this hu' hstate'
  · obtain ⟨receipt, hreceipt⟩ := hok.answer hstate
    refine ⟨s, receipt, ?_, inv, fun k u' hu' hstate' => ⟨u', hu', rfl, hstate'⟩⟩
    rw [hstate, hreceipt]
    rfl

/-! ### Maintenance -/

/-- The errors by which maintenance stops at its size budgets. -/
def budgetErrors : List PyError :=
  [.http 422 "pending publication budget exceeded; collection blocked",
    .http 422 "maintenance version scan budget exceeded",
    .http 422 "maintenance chunk scan budget exceeded",
    .http 422 "maintenance reference budget exceeded",
    .http 422 "global maintenance reference budget exceeded"]

/-- A call that returns what `P` says or stops at a budget. -/
def Budgeted {α : Type} (P : α → Prop) : Py α → Prop
  | .ok a => P a
  | .error e => e ∈ budgetErrors

namespace Budgeted

variable {α β σ : Type} {P : α → Prop} {Q : β → Prop}

theorem bind {x : Py α} {f : α → Py β} (hx : Budgeted P x) (hf : ∀ a, P a → Budgeted Q (f a)) :
    Budgeted Q (x >>= f) := by
  cases x with
  | ok a => exact hf a hx
  | error e => exact hx

theorem check {c : Prop} [Decidable c] {e : PyError} (he : e ∈ budgetErrors) : Budgeted (fun _ => c) (require c e) := by
  unfold require
  split
  · assumption
  · exact he

/-- A loop that keeps `I`, over items of which each is as `R` says in every state of `I`. -/
theorem foldlM {I : σ → List α → Prop} {f : σ → α → Py σ} (xs : List α) {s : σ} (hs : I s xs)
    (hf : ∀ s x xs, I s (x :: xs) → Budgeted (fun s' => I s' xs) (f s x)) :
    Budgeted (fun s' => I s' []) (xs.foldlM f s) := by
  induction xs generalizing s with
  | nil => exact hs
  | cons x xs ih =>
    rw [foldlM_cons]
    exact (hf s x xs hs).bind fun s' hs' => ih hs'

end Budgeted

omit [LinearOrder τ] [Add τ] [Sub τ] [NatCast τ] in
theorem checkIntent_returns {e : Identity × Intent τ} (h : IntentOk e.1 e.2) : checkIntent e = .ok e.2.payload := by
  unfold checkIntent
  dsimp only
  rw [if_neg (not_not.mpr h.id), show publication e.2.payload = .ok e.2.payload.manifest from h.payload]
  exact if_neg (not_not.mpr h.hash.symm)

/-- The payloads are those of stored intents. -/
def Stored (s : System τ) (payloads : List Payload) : Prop :=
  ∀ p ∈ payloads, ∃ id row, s.catalog.publications.get? id = some row ∧ row.payload = p

omit [Add τ] [Sub τ] [NatCast τ] in
theorem pendingPublications_spec (inv : Intact s) : Budgeted (Stored s) (pendingPublications s.catalog) := by
  unfold pendingPublications
  apply (Budgeted.check (by decide)).bind
  intro _ _
  have hmem : ∀ e ∈ pendingRows s.catalog, s.catalog.publications.get? e.1 = some e.2 := by
    intro e he
    have he := (perm_insertionSort _ _).mem_iff.mp he
    exact mem_entries.mp (mem_filter.mp he).1
  rw [mapM_ok fun e he => checkIntent_returns (inv.intents e.1 e.2 (hmem e he))]
  intro p hp
  obtain ⟨e, he, rfl⟩ := mem_map.mp hp
  exact ⟨e.1, e.2, hmem e he, rfl⟩

omit [LinearOrder τ] [Add τ] [Sub τ] [NatCast τ] in
/-- Publishing one intent leaves the others to be published. -/
theorem publishAgain_spec {cfg : Config} {now : τ} {fresh : ℕ → String}
    (hfresh : ∀ n, isIdentifier (fresh n) = true) {s : System τ} {e : Payload × ℕ}
    {rest : List (Payload × ℕ)} (inv : Intact s) (h : Stored s ((e :: rest).map Prod.fst)) :
    Budgeted (fun s' => Intact s' ∧ Stored s' (rest.map Prod.fst)) (publishAgain cfg now fresh s e) := by
  obtain ⟨id, row, hrow, hpayload⟩ := h e.1 mem_cons_self
  have hok := inv.intents id row hrow
  have hc := inv.compatible_intent hrow
  rw [hpayload] at hc
  have hrows : ∀ row', s.catalog.publications.get? e.1.id = some row' → row'.payload = e.1 := by
    intro row' hrow'
    rw [← hpayload, hok.id, hrow] at hrow'
    cases hrow'
    exact hpayload
  obtain ⟨s', receipt, hpublish, hpub⟩ := publish_returns inv cfg now (hfresh e.2)
    (hpayload ▸ hok.payload) hrows hc.uploads
  unfold publishAgain
  rw [hpublish, Py.bind_ok]
  refine ⟨hpub.intact, fun p hp => ?_⟩
  obtain ⟨id', row', hrow', hp'⟩ := h p (mem_cons_of_mem _ hp)
  obtain ⟨row'', hrow'', hsame⟩ := hpub.payloads id' row' hrow'
  exact ⟨id', row'', hrow'', hsame.trans hp'⟩

/-- The uploads of the list are frozen, or were completed meanwhile. -/
def Frozen (s : System τ) (uploads : List (String × String)) : Prop :=
  ∀ e ∈ uploads, ∃ u, s.catalog.uploads.get? e.1 = some u ∧ u.user = e.2 ∧ (u.state = .completing ∨ u.state = .complete)

variable {fresh : ℕ → String}

omit [Add τ] [Sub τ] [NatCast τ] in
theorem completeAgain_spec (hfresh : ∀ n, isIdentifier (fresh n) = true) {e : (String × String) × ℕ}
    {rest : List ((String × String) × ℕ)} (inv : Intact s) (h : Frozen s ((e :: rest).map Prod.fst)) :
    Budgeted (fun s' => Intact s' ∧ Frozen s' (rest.map Prod.fst)) (completeAgain cfg nodes now fresh s e) := by
  obtain ⟨u, hget, huser, hstate⟩ := h e.1 mem_cons_self
  obtain ⟨s', receipt, hcomplete, inv', honward⟩ := complete_returns inv cfg nodes now (hfresh e.2) hget hstate
  unfold completeAgain
  rw [← huser, hcomplete, Py.bind_ok]
  refine ⟨inv', fun e' he' => ?_⟩
  obtain ⟨u', hget', huser', hstate'⟩ := h e' (mem_cons_of_mem _ he')
  obtain ⟨u'', hget'', huser'', hstate''⟩ := honward e'.1 u' hget' hstate'
  exact ⟨u'', hget'', huser''.trans huser', hstate''⟩

omit [LinearOrder τ] [Add τ] [Sub τ] [NatCast τ] in
theorem frozen_completing (s : System τ) : Frozen s (completing s) := by
  intro e he
  obtain ⟨e', he', rfl⟩ := mem_map.mp he
  obtain ⟨hmem, hstate⟩ := mem_filter.mp he'
  exact ⟨e'.2, mem_entries.mp hmem, rfl, .inl (of_decide_eq_true hstate)⟩

omit [Add τ] [Sub τ] [NatCast τ] in
theorem resumeAll_spec (hfresh : ∀ n, isIdentifier (fresh n) = true) (inv : Intact s) :
    Budgeted (fun r => Intact r.1) (resumeAll cfg nodes s now fresh) := by
  unfold resumeAll
  apply (pendingPublications_spec inv).bind
  intro pending hpending
  have hloop : Budgeted (fun s' => Intact s' ∧ Stored s' [])
      (pending.zipIdx.foldlM (publishAgain cfg now fresh) s) := by
    apply Budgeted.foldlM (I := fun s xs => Intact s ∧ Stored s (xs.map Prod.fst))
    · refine ⟨inv, ?_⟩
      rw [zipIdx_map_fst]
      exact hpending
    · exact fun s e rest h => publishAgain_spec hfresh h.1 h.2
  apply hloop.bind
  intro s₁ h₁
  have hloop₂ : Budgeted (fun s' => Intact s' ∧ Frozen s' [])
      (((completing s₁).zipIdx pending.length).foldlM (completeAgain cfg nodes now fresh) s₁) := by
    apply Budgeted.foldlM (I := fun s xs => Intact s ∧ Frozen s (xs.map Prod.fst))
    · refine ⟨h₁.1, ?_⟩
      rw [zipIdx_map_fst]
      exact frozen_completing s₁
    · exact fun s e rest h => completeAgain_spec hfresh h.1 h.2
  apply hloop₂.bind
  exact fun s₂ h₂ => h₂.1

/-! ### References -/

variable {grace : ℕ}

omit [Add τ] in
theorem references_spec (inv : Intact s) (i : ℕ) (now : τ) (hgrace : grace ≤ 86400) :
    Budgeted (fun hashes => hashes.length ≤ 50000 ∧
      ∀ h ∈ hashes, isChecksum h = true) ((s.shards i).references now grace) := by
  have hkept : ∀ v ∈ (s.shards i).kept now grace, ManifestOk v.manifest := fun v hv =>
    inv.versions i v (mem_filter.mp hv).1
  have hrange : integer grace "grace" 0 86400 = .ok () := require_eq_ok.mpr ⟨by omega, by omega⟩
  unfold Shard.references
  rw [hrange, Py.bind_ok]
  have hloop : Budgeted (fun scan => (scan.hashes.length ≤ 50000 ∧
      ∀ h ∈ scan.hashes, isChecksum h = true) ∧ ∀ v ∈ ([] : List (Version τ)), ManifestOk v.manifest)
      (((s.shards i).kept now grace).foldlM scanVersion ⟨0, 0, []⟩) := by
    apply Budgeted.foldlM (I := fun (scan : Scan) (vs : List (Version τ)) => (scan.hashes.length ≤ 50000 ∧
      ∀ h ∈ scan.hashes, isChecksum h = true) ∧ ∀ v ∈ vs, ManifestOk v.manifest)
    · exact ⟨⟨by simp, by simp⟩, hkept⟩
    · rintro scan v vs ⟨⟨-, hhashes⟩, hvs⟩
      have hv := hvs v mem_cons_self
      unfold scanVersion
      apply (Budgeted.check (by decide)).bind
      intro _ _
      rw [show manifestCopy v.manifest = .ok v.manifest from hv]
      change Budgeted _ (require _ _ >>= _)
      apply (Budgeted.check (by decide)).bind
      intro _ _
      apply (Budgeted.check (by decide)).bind
      intro _ hlength
      refine ⟨⟨hlength, fun h hh => ?_⟩, fun v' hv' => hvs v' (mem_cons_of_mem _ hv')⟩
      rw [mem_union_iff] at hh
      obtain hh | hh := hh
      · obtain ⟨c, hc, rfl⟩ := mem_map.mp hh
        exact (checkChunk_eq_ok.mp ((manifestOk_iff.mp hv).2 c hc)).1
      · exact hhashes h hh
  apply hloop.bind
  rintro scan ⟨⟨hlength, hhashes⟩, -⟩
  refine ⟨?_, fun h hh => hhashes h ((perm_insertionSort _ _).mem_iff.mp hh)⟩
  rw [(perm_insertionSort _ scan.hashes).length_eq]
  exact hlength

theorem addLive_spec (live hashes : List String) : Budgeted (fun _ => True) (addLive live hashes) := by
  unfold addLive
  apply (Budgeted.check (by decide)).bind
  exact fun _ _ => trivial

omit [Add τ] in
theorem addShard_spec (inv : Intact s) (now : τ) (hgrace : grace ≤ 86400) (live : List String) (i : ℕ) :
    Budgeted (fun _ => True) (addShard s now grace live i) := by
  unfold addShard
  apply (references_spec inv i now hgrace).bind
  rintro hashes ⟨hlength, hchecksums⟩
  have hall : hashes.forM checksum = .ok () := forM_eq_ok.mpr fun h hh => require_eq_ok.mpr (hchecksums h hh)
  have hroom : require (hashes.length ≤ 50000)
      (PyError.http 502 "invalid metadata references; collection stopped") = .ok () :=
    require_eq_ok.mpr hlength
  rw [hroom, Py.bind_ok, hall]
  exact addLive_spec live hashes

omit [LinearOrder τ] [Add τ] [Sub τ] [NatCast τ] in
theorem stagedManifests_ok (inv : Intact s) : ∀ manifest ∈ stagedManifests s, ManifestOk manifest := by
  intro manifest h
  obtain ⟨u, hu, h⟩ := mem_flatMap.mp h
  obtain ⟨part, hpart, rfl⟩ := mem_map.mp h
  obtain ⟨k, hk⟩ := mem_values.mp (mem_filter.mp hu).1
  obtain ⟨n, hn⟩ := SortedMap.mem_values.mp hpart
  exact (inv.uploads k u hk).parts n part hn

theorem maintenance_spec (cfg : Config) (nodes : DataNodes) (inv : Intact s) (now : τ)
    (hfresh : ∀ n, isIdentifier (fresh n) = true) (hgrace : grace ≤ 86400) :
    Budgeted (fun r => Intact r.1) (maintenance cfg nodes s now fresh grace) := by
  have hrange : integer grace "grace" 0 86400 = .ok () := require_eq_ok.mpr ⟨by omega, by omega⟩
  unfold maintenance
  rw [hrange, Py.bind_ok]
  apply (resumeAll_spec hfresh inv).bind
  rintro ⟨s₁, completions, publications⟩ inv₁
  have inv₂ : Intact (expire s₁ now) := inv₁.expire now
  have hshards : Budgeted (fun _ => True) ((List.range cfg.shards).foldlM (addShard (expire s₁ now) now grace) []) :=
    Budgeted.foldlM (I := fun _ _ => True) _ trivial fun live i _ _ => addShard_spec inv₂ now hgrace live i
  apply hshards.bind
  intro live _
  have hstaged : Budgeted (fun _ => True) ((stagedManifests (expire s₁ now)).foldlM addStaged live) := by
    have hloop := Budgeted.foldlM (I := fun (_ : List String) ms => ∀ m ∈ ms, ManifestOk m)
      (f := addStaged) (stagedManifests (expire s₁ now)) (s := live) (stagedManifests_ok inv₂) ?_
    · revert hloop
      cases (stagedManifests (expire s₁ now)).foldlM addStaged live with
      | ok _ => exact fun _ => trivial
      | error _ => exact fun h => h
    · intro live m ms hms
      unfold addStaged
      rw [show manifestCopy m = .ok m from hms m mem_cons_self, Py.bind_ok]
      have hlive := addLive_spec live (m.map ChunkRef.hash)
      revert hlive
      cases addLive live (m.map ChunkRef.hash) with
      | ok _ => exact fun _ m' hm' => hms m' (mem_cons_of_mem _ hm')
      | error _ => exact fun h => h
  apply hstaged.bind
  exact fun _ _ => inv₂

/-! ### Frozen uploads stay frozen -/

section
omit [LinearOrder τ] [Add τ] [Sub τ] [NatCast τ]

theorem onward_of_uploads (h : s'.catalog.uploads = s.catalog.uploads) : Onward s s' := by
  intro k u hu hstate
  rw [h]
  exact ⟨u, hu, rfl, hstate⟩

/-- Only uploads that are not frozen are replaced. -/
theorem onward_setUpload {s : System τ} (u : Upload τ)
    (h : ∀ u₀, s.catalog.uploads.get? k = some u₀ → u₀.state ≠ .completing ∧ u₀.state ≠ .complete) :
    Onward s (setUpload s k u) := by
  intro k' u' hu' hstate
  refine ⟨u', ?_, rfl, hstate⟩
  rw [← hu']
  apply get?_set_of_ne
  rintro rfl
  obtain ⟨h₁, h₂⟩ := h u' hu'
  exact hstate.elim h₁ h₂

end

omit [Sub τ] in
theorem Step.onward {a : Action τ} (h : Step cfg s a s') : Onward s s' := by
  cases h with
  | create h =>
    unfold ObjectStore.create at h
    obtain ⟨_, _, h⟩ := of_bind h
    obtain ⟨_, _, h⟩ := of_bind h
    split at h
    · split at h
      · cases h
      · cases h
        exact onward_of_uploads rfl
    · obtain ⟨_, _, h⟩ := of_bind h
      cases h
      exact onward_of_uploads rfl
  | start hfresh _ h =>
    unfold ObjectStore.start at h
    iterate 8 obtain ⟨_, _, h⟩ := of_bind h
    split at h
    · split at h
      · cases h
      · cases h
        exact onward_of_uploads rfl
    · cases h
      apply onward_setUpload
      intro u₀ hu₀
      rw [hfresh] at hu₀
      cases hu₀
  | part h =>
    unfold addPart at h
    iterate 6 obtain ⟨_, _, h⟩ := of_bind h
    obtain ⟨u, hu, h⟩ := of_bind h
    obtain ⟨_, hactive, h⟩ := of_bind h
    have hactive := (require_eq_ok.mp hactive).1
    split at h
    · split at h
      · cases h
      · cases h
        exact onward_of_uploads rfl
    · obtain ⟨_, _, h⟩ := of_bind h
      cases h
      apply onward_setUpload
      intro u₀ hu₀
      rw [(getUpload_spec hu).1] at hu₀
      cases hu₀
      simp [hactive]
  | freeze h =>
    unfold ObjectStore.freeze at h
    obtain ⟨u, hu, h⟩ := of_bind h
    obtain ⟨_, hactive, h⟩ := of_bind h
    obtain ⟨_, _, h⟩ := of_bind h
    cases h
    apply onward_setUpload
    intro u₀ hu₀
    rw [(getUpload_spec hu).1] at hu₀
    cases hu₀
    simp [require_eq_ok.mp hactive]
  | abort h =>
    unfold ObjectStore.abort at h
    obtain ⟨_, _, h⟩ := of_bind h
    obtain ⟨u, hu, h⟩ := of_bind h
    obtain ⟨_, hstate, h⟩ := of_bind h
    cases h
    apply onward_setUpload
    intro u₀ hu₀
    rw [(getUpload_spec hu).1] at hu₀
    cases hu₀
    exact ⟨(require_eq_ok.mp hstate).2, (require_eq_ok.mp hstate).1⟩
  | put _ h => exact onward_of_uploads (prepare_spec h).2.2.2.1
  | marker h => exact onward_of_uploads (prepare_spec h).2.2.2.1
  | intend _ _ _ h => exact onward_of_uploads (prepare_spec h).2.2.2.1
  | retry _ h => exact onward_of_uploads (prepare_spec h).2.2.2.1
  | deliver _ _ h =>
    unfold ObjectStore.deliver at h
    obtain ⟨_, _, h⟩ := of_bind h
    cases h
    exact onward_of_uploads rfl
  | finish _ _ h => exact onward_of_uploads (finish_spec h).2.2.1
  | settle _ _ _ _ => exact settle_onward _ _ _
  | @expire now =>
    intro k u hu hstate
    refine ⟨u, ?_, rfl, hstate⟩
    have hmap := get?_mapVal (Upload.expire now) s.catalog.uploads k
    refine hmap.trans ?_
    rw [hu, Option.map_some]
    obtain h | ⟨hactive, -⟩ := expire_cases now u
    · exact congrArg some h
    · rw [hactive] at hstate
      obtain hstate | hstate := hstate
      · cases hstate
      · cases hstate

/-! ### Runs -/

/-- In a run of harmless steps a frozen upload stays frozen until it is completed, it can be
completed in every state, and maintenance stops at nothing but its budgets. -/
theorem completion_never_poisoned {cfg : Config} {s : System τ}
    (h : (harmlessService τ cfg).Reachable s) :
    (∀ s', (harmlessService τ cfg).step s s' → Onward s s') ∧
    (∀ upload u, s.catalog.uploads.get? upload = some u →
      u.state = .completing ∨ u.state = .complete → ∀ nodes now fresh, isIdentifier fresh = true →
        ∃ s' receipt, complete cfg nodes s now fresh upload u.user = .ok (s', receipt)) ∧
    ∀ nodes now fresh grace e, (∀ n, isIdentifier (fresh n) = true) → grace ≤ 86400 →
      maintenance cfg nodes s now fresh grace = .error e → e ∈ budgetErrors := by
  have inv := intact_reachable h
  refine ⟨?_, ?_, ?_⟩
  · rintro s' ⟨a, hstep, -⟩
    exact hstep.onward
  · intro upload u hget hstate nodes now fresh hfresh
    obtain ⟨s', receipt, hcomplete, -⟩ := complete_returns inv cfg nodes now hfresh hget hstate
    exact ⟨s', receipt, hcomplete⟩
  · intro nodes now fresh grace e hfresh hgrace herror
    have hspec := maintenance_spec cfg nodes inv now hfresh hgrace
    rw [herror] at hspec
    exact hspec

end

def oneShard : Config := ⟨1, Nat.one_pos⟩

def photo : Identity := ⟨"b", "k", "r"⟩

def photoUpload : Upload ℤ :=
  { id := photo, user := "ann", sha := emptySha, size := 0, state := .active, expires := 0 + 3600,
    result := none, manifest := none, parts := .empty }

def frozenPhoto : Upload ℤ := { photoUpload with state := .completing, manifest := some [] }

def noNodes : DataNodes := ⟨[], fun _ => none, fun _ => none, fun _ _ => false, fun _ _ => false, fun _ => false⟩

def photoBucket : System ℤ := ⟨⟨Dict.empty.set "photos" ⟨"b", "ann"⟩, .empty, .empty⟩, fun _ => ⟨[], .empty⟩, []⟩

/-- An upload of an empty object. -/
def photoStarted : System ℤ := setUpload photoBucket "up" photoUpload

/-- The upload after a delete marker with its request key. -/
def photoMarked : System ℤ where
  catalog := { photoStarted.catalog with
    publications := Dict.empty.set photo ⟨(markerPayload photo).digest, markerPayload photo, false, 0⟩ }
  shards := photoStarted.shards
  prepared := [markerPayload photo]

/-- The upload, frozen after the marker. -/
def photoStuck : System ℤ := setUpload photoMarked "up" frozenPhoto

theorem photo_names : isBucketName "photos" = true ∧ isIdentifier "ann" = true ∧ isIdentifier "b" = true ∧
    isObjectKey "k" = true ∧ isIdentifier "r" = true ∧ isIdentifier "up" = true ∧ isIdentifier "v" = true ∧
    isChecksum emptySha = true := by decide +kernel

theorem step_create : Step oneShard ⟨⟨.empty, .empty, .empty⟩, fun _ => ⟨[], .empty⟩, []⟩
    (.create "photos" "ann" "b") photoBucket := by
  obtain ⟨hname, huser, -⟩ := photo_names
  have h : ObjectStore.create (.mk .empty .empty .empty : Catalog ℤ) "photos" "ann" "b" =
      .ok (photoBucket.catalog, ⟨"b", "ann"⟩) := by
    simp only [ObjectStore.create, identifier, require, hname, huser, if_true, Py.bind_ok, get?_empty]
    rfl
  exact Step.create h

theorem step_start : Step oneShard photoBucket (.start 0 photo "ann" emptySha 0 "up") photoStarted := by
  obtain ⟨-, huser, hbucket, hkey, hrequest, hname, -, hsha⟩ := photo_names
  have h : ObjectStore.start photoBucket.catalog 0 photo "ann" emptySha 0 "up" = .ok (photoStarted.catalog, "up") := by
    have hsize : (0 : ℤ) ≤ 0 ∧ (0 : ℤ) ≤ maxObjectBytes := by decide
    simp only [ObjectStore.start, photo, identifier, objectKey, checksum, integer, require, hbucket,
      huser, hkey, hrequest, hsha, hsize, and_self, ne_eq, not_true_eq_false, and_false,
      not_false_eq_true, if_true, Py.bind_ok, ownedBucket]
    rfl
  exact Step.start rfl hname h

theorem step_freeze : ∀ s : System ℤ, s.catalog.uploads.get? "up" = some photoUpload →
    Step oneShard s (.freeze noNodes 0 "up" "ann") (setUpload s "up" frozenPhoto) := by
  intro s hget
  apply Step.freeze (u := frozenPhoto)
  have hread : getUpload s.catalog "up" "ann" = .ok photoUpload := by
    simp [getUpload, hget, photoUpload]
  have hcheck : checkCompletion noNodes 0 photoUpload = .ok [] := by
    have hsha : sha [] = emptySha := by unfold emptySha; rfl
    have hwhole : ([] : List UInt8).length = photoUpload.size ∧ sha [] = photoUpload.sha := ⟨rfl, hsha⟩
    apply bind_eq_ok.mpr ⟨(), rfl, _⟩
    apply bind_eq_ok.mpr ⟨(), rfl, _⟩
    apply bind_eq_ok.mpr ⟨(), rfl, _⟩
    apply bind_eq_ok.mpr ⟨[], rfl, _⟩
    exact bind_eq_ok.mpr ⟨(), require_eq_ok.mpr hwhole, rfl⟩
  have hactive : require (photoUpload.state = .active) (PyError.http 409 "upload cannot complete") = .ok () := rfl
  rw [ObjectStore.freeze, hread, Py.bind_ok, hactive, Py.bind_ok, hcheck, Py.bind_ok]
  rfl

theorem photo_publication (marker : Bool) : publication ⟨photo, [], 0, emptySha, marker⟩ = .ok [] := by
  obtain ⟨-, -, hbucket, hkey, hrequest, -, -, hsha⟩ := photo_names
  have hsize : (0 : ℤ) ≤ (0 : ℕ) ∧ ((0 : ℕ) : ℤ) ≤ maxObjectBytes := by decide
  have hcopy : manifestCopy [] = .ok [] := rfl
  have hbytes : manifestBytes [] = 0 := rfl
  simp only [publication, photo, identifier, objectKey, checksum, integer, require,
    hbucket, hkey, hrequest, hsha, hsize, hcopy, hbytes, and_self, or_self, ne_eq,
    not_true_eq_false, and_false, not_false_eq_true, if_true, Py.bind_ok, Py.pure_eq]

theorem marker_prepared : prepare photoStarted 0 (markerPayload photo) = .ok photoMarked := by
  have hok : publication (markerPayload photo) = .ok [] := photo_publication true
  have hmanifest : { markerPayload photo with manifest := [] } = markerPayload photo := rfl
  rw [prepare, hok, Py.bind_ok, hmanifest, preparePublication, hok, Py.bind_ok]
  rfl

/-- An empty upload under its own request key: harmless, and completed. -/
theorem completion_never_poisoned_photo :
    (harmlessService ℤ oneShard).Reachable (setUpload photoStarted "up" frozenPhoto) ∧
    (∃ s' receipt, complete oneShard noNodes (setUpload photoStarted "up" frozenPhoto) 0 "v" "up" "ann" =
      .ok (s', receipt)) := by
  have hstart : (harmlessService ℤ oneShard).Reachable
      ⟨⟨.empty, .empty, .empty⟩, fun _ => ⟨[], .empty⟩, []⟩ := .start ⟨rfl, fun _ => rfl, rfl⟩
  have h₁ : (harmlessService ℤ oneShard).Reachable photoBucket := hstart.step ⟨_, step_create, trivial⟩
  have h₂ : (harmlessService ℤ oneShard).Reachable photoStarted := h₁.step ⟨_, step_start, trivial⟩
  have hharmless : Harmless photoStarted (.freeze noNodes 0 "up" "ann") := by
    intro u row _ hrow
    cases hrow
  have h₃ := h₂.step ⟨_, step_freeze photoStarted rfl, hharmless⟩
  obtain ⟨-, -, -, -, -, -, hname, -⟩ := photo_names
  exact ⟨h₃, (completion_never_poisoned h₃).2.1 "up" frozenPhoto rfl (.inl rfl) noNodes 0 "v" hname⟩

def raises {α : Type} (e : PyError) : Py α → Bool
  | .ok _ => false
  | .error e' => e' = e

theorem photo_digests : (markerPayload photo).digest ≠ (frozenPhoto.payload []).digest := by decide +kernel

/-- The frozen upload does not pass an intent of the marker. -/
theorem complete_conflict {s : System ℤ} {row : Intent ℤ} (hupload : s.catalog.uploads.get? "up" = some frozenPhoto)
    (hrow : s.catalog.publications.get? photo = some row) (hhash : row.hash = (markerPayload photo).digest)
    (now : ℤ) (fresh : String) : complete oneShard noNodes s now fresh "up" "ann" =
      .error (.http 409 "publication idempotency content conflict") := by
  obtain ⟨-, -, -, -, -, hname, -, -⟩ := photo_names
  have hread : getUpload s.catalog "up" "ann" = .ok frozenPhoto := by
    simp [getUpload, hupload, frozenPhoto, photoUpload]
  have hpublication : publication (frozenPhoto.payload []) = .ok [] := photo_publication false
  have hprepare : prepare s now (frozenPhoto.payload []) =
      .error (.http 409 "publication idempotency content conflict") := by
    have hpublications : s.catalog.publications.get? (frozenPhoto.payload []).id = some row := hrow
    have hconflict : row.hash ≠ (frozenPhoto.payload []).digest := hhash ▸ photo_digests
    rw [prepare, hpublication, Py.bind_ok]
    change (preparePublication s.catalog now (frozenPhoto.payload []) >>= _) = _
    rw [preparePublication, hpublication, Py.bind_ok]
    simp only [hpublications]
    change ((if row.hash ≠ (frozenPhoto.payload []).digest then _ else _) >>= _) = _
    rw [if_pos hconflict]
    rfl
  have hident : identifier "up" = .ok () := by simp [identifier, require, hname]
  rw [complete, hident, Py.bind_ok, hread, Py.bind_ok]
  change resume oneShard s now fresh "up" frozenPhoto [] = _
  rw [resume, publish, hprepare]
  rfl

/-- Maintenance publishes the marker and then meets its intent. -/
theorem publish_photoStuck : ∃ s' receipt, publish oneShard photoStuck 1 "v" (markerPayload photo) = .ok (s', receipt) ∧
    s'.catalog.uploads = photoStuck.catalog.uploads ∧
    s'.catalog.publications.get? photo = some ⟨(markerPayload photo).digest, markerPayload photo, true, 0⟩ := by
  obtain ⟨-, -, hbucket, hkey, hrequest, -, hversion, -⟩ := photo_names
  have hpublication : publication (markerPayload photo) = .ok [] := photo_publication true
  have hprepare : prepare photoStuck 1 (markerPayload photo) =
      .ok { photoStuck with prepared := photoStuck.prepared ++ [markerPayload photo] } := by
    rw [prepare, hpublication, Py.bind_ok]
    change (preparePublication photoStuck.catalog 1 (markerPayload photo) >>= _) = _
    rw [preparePublication, hpublication, Py.bind_ok]
    change ((if (markerPayload photo).digest ≠ (markerPayload photo).digest then _ else _) >>= _) = _
    rw [if_neg (not_not.mpr rfl)]
    rfl
  have howner : owner (shardFor "b" "k" 1) 1 "b" "k" = .ok () := by
    simp [owner, identifier, objectKey, require, hbucket, hkey]
  have hdeliver : ∃ shards, deliver oneShard { photoStuck with prepared := photoStuck.prepared ++ [markerPayload photo] } 1 "v"
      (markerPayload photo) = .ok (⟨photoStuck.catalog, shards, photoStuck.prepared ++ [markerPayload photo]⟩, ⟨"v", false⟩) := by
    apply Exists.intro
    unfold deliver Shard.publish
    dsimp only
    change ((owner (shardFor "b" "k" 1) 1 "b" "k" >>= _) >>= _) = _
    rw [howner, Py.bind_ok, hpublication, Py.bind_ok]
    rfl
  obtain ⟨shards, hdeliver⟩ := hdeliver
  let done : Intent ℤ := ⟨(markerPayload photo).digest, markerPayload photo, true, 0⟩
  refine ⟨⟨{ photoStuck.catalog with publications := photoStuck.catalog.publications.set photo done }, shards,
    photoStuck.prepared ++ [markerPayload photo]⟩, ⟨"v", false⟩, ?_, rfl, get?_set_self _ _ _⟩
  rw [publish, hprepare, Py.bind_ok, hdeliver, Py.bind_ok]
  dsimp only
  rw [finish]
  simp only [hversion, require, if_true, Py.bind_ok, finishPublication, identifier, objectKey, markerPayload, photo,
    hbucket, hkey, hrequest]
  rfl

theorem maintenance_conflict : maintenance oneShard noNodes photoStuck 1 (fun n => if n = 0 then "v" else "w") 60 =
    .error (.http 409 "publication idempotency content conflict") := by
  obtain ⟨s', receipt, hpublish, huploads, hrow⟩ := publish_photoStuck
  have hpublication : publication (markerPayload photo) = .ok [] := photo_publication true
  have hintent : checkIntent (photo, (⟨(markerPayload photo).digest, markerPayload photo, false, 0⟩ : Intent ℤ)) =
      .ok (markerPayload photo) := by
    have hid : ¬ (markerPayload photo).id ≠ photo := fun h => h rfl
    unfold checkIntent
    dsimp only
    rw [if_neg hid, hpublication]
    exact if_neg fun h => h rfl
  have hpending : pendingPublications photoStuck.catalog = .ok [markerPayload photo] := by
    have hrows : pendingRows photoStuck.catalog =
      [(photo, ⟨(markerPayload photo).digest, markerPayload photo, false, 0⟩)] := rfl
    rw [pendingPublications, hrows]
    simp [require, hintent, mapM_cons]
  have hcompleting : completing s' = [("up", "ann")] := by
    rw [completing, huploads]
    rfl
  have hupload : s'.catalog.uploads.get? "up" = some frozenPhoto := by
    rw [huploads]
    rfl
  have hresume : resumeAll oneShard noNodes photoStuck 1 (fun n => if n = 0 then "v" else "w") =
      .error (.http 409 "publication idempotency content conflict") := by
    rw [resumeAll, hpending, Py.bind_ok]
    change (([(markerPayload photo, 0)].foldlM (publishAgain oneShard 1 _) photoStuck) >>= _) = _
    rw [foldlM_cons, publishAgain]
    change (((publish oneShard photoStuck 1 "v" (markerPayload photo) >>= _) >>= _) >>= _) = _
    rw [hpublish, Py.bind_ok]
    change ((completing s').zipIdx 1).foldlM (completeAgain oneShard noNodes 1 _) s' >>= _ = _
    rw [hcompleting]
    change ((complete oneShard noNodes s' 1 "w" "up" "ann" >>= _) >>= _) >>= _ = _
    rw [complete_conflict hupload hrow rfl]
    rfl
  rw [maintenance, hresume]
  rfl

/-- A delete marker with the request key of an upload leaves an intent that the frozen upload
can never pass: completing it and maintenance both raise. -/
theorem intent_poisons_completion :
    (service ℤ oneShard).Reachable photoStuck ∧
    photoStuck.catalog.uploads.get? "up" = some frozenPhoto ∧ frozenPhoto.state = .completing ∧
    raises (.http 409 "publication idempotency content conflict")
      (complete oneShard noNodes photoStuck 1 "v" "up" "ann") = true ∧
    raises (.http 409 "publication idempotency content conflict")
      (maintenance oneShard noNodes photoStuck 1 (fun n => if n = 0 then "v" else "w") 60) = true := by
  have hstart : (service ℤ oneShard).Reachable
      ⟨⟨.empty, .empty, .empty⟩, fun _ => ⟨[], .empty⟩, []⟩ := .start ⟨rfl, fun _ => rfl, rfl⟩
  have h₁ : (service ℤ oneShard).Reachable photoBucket := hstart.step ⟨_, step_create⟩
  have h₂ : (service ℤ oneShard).Reachable photoStarted := h₁.step ⟨_, step_start⟩
  have h₃ : (service ℤ oneShard).Reachable photoMarked := h₂.step ⟨_, Step.marker marker_prepared⟩
  have h₄ : (service ℤ oneShard).Reachable photoStuck := h₃.step ⟨_, step_freeze photoMarked rfl⟩
  refine ⟨h₄, rfl, rfl, ?_, ?_⟩
  · rw [complete_conflict rfl rfl rfl]
    decide
  · rw [maintenance_conflict]
    decide

end SystemDesign.ObjectStore
