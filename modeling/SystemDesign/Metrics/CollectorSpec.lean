import SystemDesign.Metrics.Collector

/-!
The outbox keeps every chunk until it was published, and publishes each partition in
order.

* `capture_exact` — the chunks of a request hold its samples once each, in order within
  a partition, and no chunk is larger than the queue takes. The cut is made with a
  stand-in for the batch id, of the length every batch id has.
* `collector_safe` — in every state of every run: a publish call of a chunk comes after a
  publish call that returned for every earlier chunk of its partition, a chunk that
  is no longer pending was published, and the byte count is what is pending.
-/

namespace SystemDesign.Metrics

open List hiding not_lt
open Dict

/-! ### The size of a payload -/

theorem escape_digit {c : Char} (h : c ∈ "0123456789abcdef".toList) : Json.escape c = [c] ∧ c.utf8Size = 1 := by
  have hcases : c ∈ ['0', '1', '2', '3', '4', '5', '6', '7', '8', '9', 'a', 'b', 'c', 'd', 'e', 'f'] := h
  simp only [mem_cons, not_mem_nil, or_false] at hcases
  rcases hcases with rfl | rfl | rfl | rfl | rfl | rfl | rfl | rfl | rfl | rfl | rfl | rfl | rfl |
    rfl | rfl | rfl
  all_goals exact ⟨by simp [Json.escape], rfl⟩

theorem utf8ByteSize_ofList {cs : List Char} (h : ∀ c ∈ cs, c.utf8Size = 1) :
    (String.ofList cs).utf8ByteSize = cs.length := by
  induction cs with
  | nil => rfl
  | cons c cs ih =>
    have hcs := ih fun c hc => h c (mem_cons_of_mem _ hc)
    have hc := h c mem_cons_self
    simp only [String.ofList_cons, String.utf8ByteSize_append, String.utf8ByteSize_singleton, hc, hcs, length_cons]
    omega

/-- The characters of a hexadecimal digest. -/
def IsDigest (id : String) : Prop := id.toList.length = 64 ∧ ∀ c ∈ id.toList, c ∈ "0123456789abcdef".toList

variable {id : String}

theorem quote_of_isDigest (h : IsDigest id) : Json.quote id = '"' :: (id.toList ++ ['"']) := by
  have hflat : id.toList.flatMap Json.escape = id.toList := by
    calc id.toList.flatMap Json.escape = id.toList.flatMap fun c => [c] :=
          flatMap_congr fun c hc => (escape_digit (h.2 c hc)).1
      _ = id.toList := flatMap_singleton' _
  rw [Json.quote, hflat]

theorem quote_bytes (h : IsDigest id) : (String.ofList (Json.quote id)).utf8ByteSize = 66 := by
  rw [quote_of_isDigest h, utf8ByteSize_ofList]
  · simp only [length_cons, length_append, h.1, length_nil]
  · intro c hc
    simp only [mem_cons, mem_append, not_mem_nil, or_false] at hc
    obtain rfl | hc | rfl := hc
    · decide
    · exact (escape_digit (h.2 c hc)).2
    · decide

/-- The keys are sorted already, so the batch id is printed first. -/
theorem envelope_print (partition : ℕ) (samples : List Sample) :
    ∃ before after, ∀ id, (envelope id partition samples).sortKeys.print = before ++ (Json.quote id ++ after) := by
  refine ⟨'\x7b' :: (Json.quote "batch_id" ++ [':']), Json.printFields [("partition", .int partition),
    ("samples", (Json.arr (samples.map Sample.toJson)).sortKeys)], fun id => ?_⟩
  simp [envelope, Json.sortKeys, Json.sortFields, Json.sortByKey, Json.print, List.insertionSort]

theorem isDigest_placeholder : IsDigest placeholder := by
  have hlist : placeholder.toList = List.replicate 64 '0' := String.toList_ofList
  refine ⟨by rw [hlist, length_replicate], fun c hc => ?_⟩
  rw [hlist] at hc
  rw [eq_of_mem_replicate hc]
  decide

theorem isDigest_batchId (requestId : String) (index : ℕ) : IsDigest (batchId requestId index) := by
  obtain ⟨hlen, hdigits⟩ := Sha256.hexdigest_shape (dumps (.arr [.str requestId, .int index]))
  exact ⟨hlen, hdigits⟩

theorem envelopeBytes_eq (h : IsDigest id) (partition : ℕ) (samples : List Sample) :
    envelopeBytes id partition samples = envelopeBytes placeholder partition samples := by
  obtain ⟨before, after, hprint⟩ := envelope_print partition samples
  simp only [envelopeBytes, dumps, Json.encode, hprint, String.ofList_append,
    String.utf8ByteSize_append, quote_bytes h, quote_bytes isDigest_placeholder]

/-! ### Cutting -/

/-- A chunk the queue takes. -/
structure Fits (partition : ℕ) (chunk : List Sample) : Prop where
  nonempty : chunk ≠ []
  length : chunk.length ≤ 100
  bytes : envelopeBytes placeholder partition chunk ≤ 12000

structure CutOk (partition : ℕ) (cut : List (List Sample) × List Sample) : Prop where
  full : ∀ chunk ∈ cut.1, Fits partition chunk
  filling : cut.2 ≠ [] → Fits partition cut.2

variable {partition : ℕ}

theorem addSample_spec {cut cut' : List (List Sample) × List Sample} {body : Sample} (hcut : CutOk partition cut)
    (h : addSample partition cut body = .ok cut') :
    CutOk partition cut' ∧ cut'.1.flatten ++ cut'.2 = cut.1.flatten ++ cut.2 ++ [body] := by
  unfold addSample at h
  split at h
  · cases h
  · rename_i hbody
    have hone : Fits partition [body] := ⟨by simp, by simp, by omega⟩
    dsimp only at h
    split at h
    · rename_i hfull
      cases h
      refine ⟨⟨?_, fun _ => hone⟩, by simp⟩
      intro chunk hchunk
      rw [mem_append, mem_singleton] at hchunk
      obtain hchunk | rfl := hchunk
      · exact hcut.full chunk hchunk
      · exact hcut.filling hfull.1
    · rename_i hroom
      cases h
      refine ⟨⟨hcut.full, fun _ => ?_⟩, by simp⟩
      by_cases hnil : cut.2 = []
      · simpa [hnil] using hone
      · have hlen : ¬ (cut.2 ++ [body]).length > 100 := fun hl => hroom ⟨hnil, .inl hl⟩
        have hbytes : ¬ envelopeBytes placeholder partition (cut.2 ++ [body]) > 12000 := fun hb => hroom ⟨hnil, .inr hb⟩
        exact ⟨by simp, Nat.not_lt.mp hlen, Nat.not_lt.mp hbytes⟩

theorem foldlM_addSample {values : List Sample} {cut cut' : List (List Sample) × List Sample}
    (hcut : CutOk partition cut) (h : values.foldlM (addSample partition) cut = .ok cut') :
    CutOk partition cut' ∧ cut'.1.flatten ++ cut'.2 = cut.1.flatten ++ cut.2 ++ values := by
  induction values generalizing cut with
  | nil =>
    cases h
    exact ⟨hcut, by simp⟩
  | cons body values ih =>
    rw [foldlM_cons] at h
    obtain ⟨next, hnext, h⟩ := of_bind h
    obtain ⟨hok, hbody⟩ := addSample_spec hcut hnext
    obtain ⟨hok', hvalues⟩ := ih hok h
    refine ⟨hok', ?_⟩
    rw [hvalues, hbody]
    simp

theorem cutPartition_spec {values : List Sample} {chunks : List (List Sample)}
    (h : cutPartition partition values = .ok chunks) :
    chunks.flatten = values ∧ ∀ chunk ∈ chunks, Fits partition chunk := by
  unfold cutPartition at h
  obtain ⟨cut, hfold, h⟩ := of_bind h
  have hstart : CutOk partition ([], []) := ⟨by simp, by simp⟩
  obtain ⟨hok, hvalues⟩ := foldlM_addSample hstart hfold
  cases h
  split
  · rename_i hfilling
    refine ⟨by simpa using hvalues, ?_⟩
    intro chunk hchunk
    rw [mem_append, mem_singleton] at hchunk
    obtain hchunk | rfl := hchunk
    · exact hok.full chunk hchunk
    · exact hok.filling hfilling
  · rename_i hnil
    have hempty : cut.2 = [] := not_not.mp hnil
    refine ⟨?_, hok.full⟩
    simpa [hempty] using hvalues

/-! ### Grouping -/

/-- The samples of one partition, in the order of the request. -/
def ofPartition (cfg : CollectorConfig) (normalized : List Sample) (partition : ℕ) : List Sample :=
  normalized.filter fun body => partitionFor body cfg.partitions cfg.partitionBy = partition

theorem foldl_addGrouped (cfg : CollectorConfig) (normalized : List Sample) (d : Dict ℕ (List Sample)) (p : ℕ) :
    ((normalized.foldl (addGrouped cfg) d).get? p).getD [] = (d.get? p).getD [] ++ ofPartition cfg normalized p := by
  induction normalized generalizing d with
  | nil => simp [ofPartition]
  | cons body rest ih =>
    rw [foldl_cons, ih, addGrouped, get?_set]
    by_cases hp : p = partitionFor body cfg.partitions cfg.partitionBy
    · subst hp
      simp [ofPartition]
    · simp [ofPartition, hp, Ne.symm hp]

theorem grouped_getD (cfg : CollectorConfig) (normalized : List Sample) (p : ℕ) :
    ((grouped cfg normalized).get? p).getD [] = ofPartition cfg normalized p := by
  have h := foldl_addGrouped cfg normalized .empty p
  rwa [get?_empty, Option.getD_none, nil_append] at h

/-- The chunks of one partition. -/
def partitionChunks (parts : List (ℕ × List Sample)) (p : ℕ) : List Sample :=
  (parts.filter fun part => part.1 = p).flatMap Prod.snd

theorem partitionChunks_same (p q : ℕ) (chunks : List (List Sample)) :
    partitionChunks (chunks.map fun chunk => (q, chunk)) p = if q = p then chunks.flatten else [] := by
  unfold partitionChunks
  by_cases h : q = p
  · rw [if_pos h, filter_eq_self.mpr (by simp [h]), flatMap_def, map_map]
    congr 1
    exact List.map_id _
  · rw [if_neg h, filter_eq_nil_iff.mpr (by simp [h])]
    rfl

/-- Cutting every group leaves each partition's samples as they are. -/
theorem mapM_cutPartition {entries : List (ℕ × List Sample)} {parts : List (List (ℕ × List Sample))}
    (hnodup : (entries.map Prod.fst).Nodup) (h : entries.mapM (fun e => do
      let chunks ← cutPartition e.1 e.2
      return chunks.map fun chunk => (e.1, chunk)) = (.ok parts : Py _)) :
    (∀ p, partitionChunks parts.flatten p = (entries.lookup p).getD []) ∧
      ∀ part ∈ parts.flatten, Fits part.1 part.2 := by
  induction entries generalizing parts with
  | nil =>
    cases h
    simp [partitionChunks]
  | cons e entries ih =>
    rw [mapM_cons] at h
    obtain ⟨here, hhere, h⟩ := of_bind h
    obtain ⟨chunks, hchunks, hhere⟩ := of_bind hhere
    obtain ⟨rest, hrest, h⟩ := of_bind h
    cases hhere
    cases h
    rw [map_cons, nodup_cons] at hnodup
    obtain ⟨hflat, hfits⟩ := cutPartition_spec hchunks
    obtain ⟨hparts, hrestFits⟩ := ih hnodup.2 hrest
    constructor
    · intro p
      have hsplit : partitionChunks (chunks.map (fun chunk => (e.1, chunk)) ++ rest.flatten) p =
          partitionChunks (chunks.map fun chunk => (e.1, chunk)) p ++ partitionChunks rest.flatten p := by
        simp [partitionChunks]
      rw [flatten_cons, hsplit, partitionChunks_same, hparts, hflat, Assoc.lookup_cons]
      by_cases hp : e.1 = p
      · subst hp
        rw [if_pos rfl, if_pos rfl, Assoc.lookup_eq_none_iff.mpr hnodup.1]
        simp
      · rw [if_neg hp, if_neg (Ne.symm hp)]
        simp
    · intro part hpart
      rw [flatten_cons, mem_append, mem_map] at hpart
      obtain ⟨chunk, hchunk, rfl⟩ | hpart := hpart
      · exact hfits chunk hchunk
      · exact hrestFits part hpart

/-- The chunks of a request hold its samples, and the queue takes them. -/
structure Exact (cfg : CollectorConfig) (normalized : List Sample) (chunks : List Chunk) : Prop where
  samples : ∀ p, (chunks.filter fun c => c.partition = p).flatMap Chunk.samples = ofPartition cfg normalized p
  length : ∀ c ∈ chunks, 1 ≤ c.samples.length ∧ c.samples.length ≤ 100
  bytes : ∀ c ∈ chunks, c.bytes ≤ 12000

theorem filter_mapIdx_samples (f : ℕ → String) (p : ℕ) (parts : List (ℕ × List Sample)) :
    ((parts.mapIdx fun i part => Chunk.mk (f i) part.1 part.2).filter
      fun c => c.partition = p).flatMap Chunk.samples = partitionChunks parts p := by
  induction parts generalizing f with
  | nil => rfl
  | cons part parts ih =>
    rw [mapIdx_cons]
    have hrest := ih fun i => f (i + 1)
    by_cases hp : part.1 = p
    · simpa [partitionChunks, hp] using hrest
    · simpa [partitionChunks, hp] using hrest

variable {requestId : String}

theorem capture_exact {cfg : CollectorConfig} {normalized : List Sample} {chunks : List Chunk}
    (h : capture cfg normalized requestId = .ok chunks) : Exact cfg normalized chunks := by
  unfold capture payloads at h
  obtain ⟨parts, hparts, h⟩ := of_bind h
  obtain ⟨groups, hgroups, hflat⟩ := of_bind hparts
  cases hflat
  cases h
  obtain ⟨hsamples, hfits⟩ := mapM_cutPartition (grouped cfg normalized).nodup hgroups
  have hmem : ∀ c ∈ groups.flatten.mapIdx fun i part => Chunk.mk (batchId requestId i) part.1 part.2,
      Fits c.partition c.samples ∧ IsDigest c.batchId := by
    intro c hc
    obtain ⟨i, hi, rfl⟩ := mem_mapIdx.mp hc
    exact ⟨hfits _ (getElem_mem hi), isDigest_batchId requestId i⟩
  constructor
  · intro p
    rw [filter_mapIdx_samples, hsamples p]
    exact grouped_getD cfg normalized p
  · intro c hc
    have hfit := (hmem c hc).1
    exact ⟨length_pos_of_ne_nil hfit.nonempty, hfit.length⟩
  · intro c hc
    obtain ⟨hfit, hid⟩ := hmem c hc
    have hbytes := envelopeBytes_eq hid c.partition c.samples
    have hle := hfit.bytes
    unfold Chunk.bytes Chunk.payload
    unfold envelopeBytes at hbytes hle
    omega

/-! ### The tables under updates -/

section

variable {τ : Type} [LinearOrder τ] [Add τ] [Sub τ] [NatCast τ]
variable {r : OutboxRow τ} {d : Spool τ}

section
omit [LinearOrder τ] [Add τ] [Sub τ] [NatCast τ]

theorem mem_update {p : OutboxRow τ → Bool} {f : OutboxRow τ → OutboxRow τ} (h : r ∈ (d.update p f).outbox) :
    (r ∈ d.outbox ∧ p r = false) ∨ ∃ r₀ ∈ d.outbox, p r₀ = true ∧ r = f r₀ := by
  obtain ⟨r₀, hr₀, rfl⟩ := mem_map.mp h
  by_cases hp : p r₀ = true
  · exact .inr ⟨r₀, hr₀, hp, if_pos hp⟩
  · rw [if_neg hp]
    exact .inl ⟨hr₀, Bool.eq_false_iff.mpr hp⟩

theorem mem_update_of_mem (p : OutboxRow τ → Bool) (f : OutboxRow τ → OutboxRow τ) (h : r ∈ d.outbox) :
    (if p r then f r else r) ∈ (d.update p f).outbox := mem_map.mpr ⟨r, h, rfl⟩

theorem update_map {β : Type} (d : Spool τ) (p : OutboxRow τ → Bool) (f : OutboxRow τ → OutboxRow τ)
    (g : OutboxRow τ → β) (h : ∀ r ∈ d.outbox, p r = true → g (f r) = g r) :
    (d.update p f).outbox.map g = d.outbox.map g := by
  rw [Spool.update, map_map]
  apply map_congr_left
  intro r hr
  by_cases hp : p r = true
  · simp [hp, h r hr hp]
  · simp [hp]

end

/-- The bytes a row counts for. -/
def OutboxRow.pendingBytes (r : OutboxRow τ) : ℕ :=
  if r.status = .pending then (r.payload.map String.utf8ByteSize).getD 0 else 0

/-- `sum(length(CAST(payload AS BLOB)))` of the pending rows. -/
def Spool.pendingBytes (d : Spool τ) : ℕ := (d.outbox.map OutboxRow.pendingBytes).sum

variable {owner : String}

section
omit [LinearOrder τ] [Add τ] [Sub τ] [NatCast τ]

theorem pendingBytes_update (d : Spool τ) (p : OutboxRow τ → Bool) (f : OutboxRow τ → OutboxRow τ)
    (h : ∀ r ∈ d.outbox, p r = true → (f r).pendingBytes = r.pendingBytes) :
    (d.update p f).pendingBytes = d.pendingBytes := by
  rw [Spool.pendingBytes, update_map d p f _ h, Spool.pendingBytes]

/-- A row that stops being pending takes its bytes away, and no second row has its id. -/
theorem sum_update_owned {rows : List (OutboxRow τ)} {size : ℕ} {f : OutboxRow τ → OutboxRow τ}
    (hids : (rows.map OutboxRow.id).Nodup) (hsize : ∀ r ∈ rows, owned id owner r = true → r.pendingBytes = size)
    (hf : ∀ r, (f r).pendingBytes = 0) (hany : rows.any (owned id owner) = true) :
    ((rows.map fun r => if owned id owner r then f r else r).map OutboxRow.pendingBytes).sum + size =
      (rows.map OutboxRow.pendingBytes).sum := by
  induction rows with
  | nil => simp at hany
  | cons r rows ih =>
    rw [map_cons, nodup_cons] at hids
    by_cases hr : owned id owner r = true
    · have hid : r.id = id := by
        simp only [owned, Bool.and_eq_true, decide_eq_true_eq] at hr
        exact hr.1
      have hrest : rows.map (fun r => if owned id owner r then f r else r) = rows := by
        rw [map_congr_left (g := fun x => x), map_id']
        intro x hx
        rw [if_neg]
        intro hown
        simp only [owned, Bool.and_eq_true, decide_eq_true_eq] at hown
        exact hids.1 (mem_map.mpr ⟨x, hx, hown.1.trans hid.symm⟩)
      have hrow := hsize r mem_cons_self hr
      simp only [map_cons, hr, if_true, sum_cons, hf, hrest]
      omega
    · have hany' : rows.any (owned id owner) = true := by simpa [hr] using hany
      have hrec := ih hids.2 (fun x hx => hsize x (mem_cons_of_mem _ hx)) hany'
      rw [map_cons, if_neg hr]
      simp only [map_cons, sum_cons] at hrec ⊢
      omega

end

omit [Add τ] [Sub τ] [NatCast τ] in
theorem pendingBytes_clean (keeping : Housekeeping) (cutoff : τ) (d : Spool τ) :
    (clean keeping cutoff d).pendingBytes = d.pendingBytes := by
  have hsum : ∀ rows : List (OutboxRow τ), ((rows.filter fun r => !(r.expired cutoff && keeping.row r.rowid)).map
        OutboxRow.pendingBytes).sum = (rows.map OutboxRow.pendingBytes).sum := by
    intro rows
    induction rows with
    | nil => rfl
    | cons r rows ih =>
      by_cases hr : (r.expired cutoff && keeping.row r.rowid) = true
      · have hsent : r.status = .sent := by
          simp only [OutboxRow.expired, Bool.and_eq_true, decide_eq_true_eq] at hr
          exact hr.1.1
        have hzero : r.pendingBytes = 0 := by simp [OutboxRow.pendingBytes, hsent]
        rw [filter_cons_of_neg (by simp [hr]), ih, map_cons, sum_cons, hzero, Nat.zero_add]
      · rw [filter_cons_of_pos (by rw [Bool.eq_false_iff.mpr hr, Bool.not_false]),
          map_cons, sum_cons, ih, map_cons, sum_cons]
  exact hsum d.outbox

omit [LinearOrder τ] [Add τ] [Sub τ] in
theorem sum_newRows (now : τ) (next : ℕ) (chunks : List Chunk) :
    ((newRows now next chunks).map OutboxRow.pendingBytes).sum = totalBytes chunks := by
  have hmap : (newRows now next chunks).map OutboxRow.pendingBytes = chunks.map Chunk.bytes := by
    apply ext_getElem
    · simp [newRows]
    · intro i h₁ h₂
      simp [newRows, OutboxRow.pendingBytes, Chunk.bytes]
  rw [hmap, totalBytes]

/-! ### The invariant -/

/-- The earlier chunks of the partition of chunk `n` were all published. -/
def EarlierPublished (accepted : List Chunk) (published : List Publication) (n : ℕ) : Prop :=
  ∀ (m : ℕ) (c c' : Chunk), m < n → accepted[n]? = some c → accepted[m]? = some c' →
    c'.partition = c.partition → Publication.mk m true ∈ published

/-- A row is a chunk that was accepted, and a pending one still has its payload. -/
structure RowOk (accepted : List Chunk) (workers : Dict String Worker) (r : OutboxRow τ) :
    Prop where
  chunk : ∃ c, accepted[r.rowid]? = some c ∧ r.id = c.batchId ∧ r.partition = c.partition ∧
    (r.status = .pending → r.payload = some c.payload)
  owner : ∀ o, r.owner = some o → r.status = .pending ∧ ∃ w, workers.get? o = some w ∧ w.item.rowid = r.rowid

/-- A worker holds an accepted chunk whose predecessors were published. -/
structure WorkerOk (accepted : List Chunk) (published : List Publication) (w : Worker) : Prop where
  chunk : ∃ c, accepted[w.item.rowid]? = some c ∧ w.item.payload = c.payload
  earlier : EarlierPublished accepted published w.item.rowid
  returned : w.phase = .published → Publication.mk w.item.rowid true ∈ published

/-- Every publish call came after those of the earlier chunks of its partition. -/
def InOrder (accepted : List Chunk) (published : List Publication) : Prop :=
  ∀ before e after, published = before ++ e :: after →
    e.chunk < accepted.length ∧ EarlierPublished accepted before e.chunk

/-- A chunk is pending with its payload, or was published. -/
def Kept (accepted : List Chunk) (d : Spool τ) (published : List Publication) : Prop :=
  ∀ (n : ℕ) (c : Chunk), accepted[n]? = some c →
    (∃ r ∈ d.outbox, r.rowid = n ∧ r.status = .pending ∧ r.payload = some c.payload) ∨ Publication.mk n true ∈ published

structure CollectorInvariant (cfg : CollectorConfig) (s : CollectorState τ) : Prop where
  pushes : ∀ push ∈ s.pushes, capture cfg push.normalized push.requestId = .ok push.chunks
  rowids : (s.spool.outbox.map OutboxRow.rowid).Pairwise (· < ·)
  ids : (s.spool.outbox.map OutboxRow.id).Nodup
  rows : ∀ r ∈ s.spool.outbox, RowOk s.accepted s.workers r
  workers : ∀ o w, s.workers.get? o = some w → WorkerOk s.accepted s.published w
  order : InOrder s.accepted s.published
  kept : Kept s.accepted s.spool s.published
  bytes : s.spool.bytes = s.spool.pendingBytes
  capacity : s.spool.bytes ≤ cfg.maxBytes

/-! ### What the steps keep -/

variable {accepted : List Chunk} {published : List Publication}

theorem EarlierPublished.mono {published' : List Publication} {n : ℕ} (h : EarlierPublished accepted published n)
    (hsub : ∀ e ∈ published, e ∈ published') : EarlierPublished accepted published' n :=
  fun m c c' hm hc hc' hp => hsub _ (h m c c' hm hc hc' hp)

theorem EarlierPublished.append {n : ℕ} (h : EarlierPublished accepted published n) (hn : n < accepted.length)
    (more : List Chunk) : EarlierPublished (accepted ++ more) published n := by
  intro m c c' hm hc hc' hp
  rw [getElem?_append_left hn] at hc
  rw [getElem?_append_left (hm.trans hn)] at hc'
  exact h m c c' hm hc hc' hp

theorem lt_of_getElem? {α : Type} {l : List α} {n : ℕ} {a : α} (h : l[n]? = some a) :
    n < l.length := (List.getElem?_eq_some_iff.mp h).1

variable {w : Worker}

section
omit [LinearOrder τ] [Add τ] [Sub τ] [NatCast τ]

theorem RowOk.append {workers : Dict String Worker} (h : RowOk accepted workers r) (more : List Chunk) :
    RowOk (accepted ++ more) workers r := by
  obtain ⟨⟨c, hc, hrest⟩, howner⟩ := h
  refine ⟨⟨c, ?_, hrest⟩, howner⟩
  rw [getElem?_append_left (lt_of_getElem? hc)]
  exact hc

/-- A worker that is new, or goes on with the row it holds. -/
theorem RowOk.setWorker {accepted : List Chunk} {workers : Dict String Worker} {r : OutboxRow τ}
    (h : RowOk accepted workers r) (hw : ∀ w₀, workers.get? owner = some w₀ → w.item.rowid = w₀.item.rowid) :
    RowOk accepted (workers.set owner w) r := by
  refine ⟨h.chunk, fun o ho => ?_⟩
  obtain ⟨hpending, w₀, hw₀, hrow⟩ := h.owner o ho
  refine ⟨hpending, ?_⟩
  by_cases hoo : o = owner
  · subst hoo
    exact ⟨w, get?_set_self _ _ _, (hw w₀ hw₀).trans hrow⟩
  · exact ⟨w₀, by rw [get?_set_of_ne _ hoo]; exact hw₀, hrow⟩

end

theorem WorkerOk.mono {accepted : List Chunk} {published published' : List Publication}
    (h : WorkerOk accepted published w) (hsub : ∀ e ∈ published, e ∈ published') : WorkerOk accepted published' w :=
  ⟨h.chunk, h.earlier.mono hsub, fun hp => hsub _ (h.returned hp)⟩

theorem WorkerOk.append {accepted : List Chunk} {published : List Publication} (h : WorkerOk accepted published w)
    (more : List Chunk) : WorkerOk (accepted ++ more) published w := by
  obtain ⟨c, hc, hpayload⟩ := h.chunk
  have hlt := lt_of_getElem? hc
  refine ⟨⟨c, ?_, hpayload⟩, h.earlier.append hlt more, h.returned⟩
  rw [getElem?_append_left hlt]
  exact hc

theorem InOrder.append {accepted : List Chunk} {published : List Publication}
    (h : InOrder accepted published) (more : List Chunk) :
    InOrder (accepted ++ more) published := by
  intro before e after hsplit
  obtain ⟨hlt, hearlier⟩ := h before e after hsplit
  refine ⟨?_, hearlier.append hlt more⟩
  rw [length_append]
  omega

theorem InOrder.snoc {e : Publication} (h : InOrder accepted published) (hlt : e.chunk < accepted.length)
    (hearlier : EarlierPublished accepted published e.chunk) : InOrder accepted (published ++ [e]) := by
  intro before e' after hsplit
  obtain rfl | ⟨init, last, rfl⟩ := eq_nil_or_concat after
  · obtain ⟨rfl, he⟩ := append_inj' hsplit rfl
    cases he
    exact ⟨hlt, hearlier⟩
  · rw [concat_eq_append, ← cons_append, ← append_assoc] at hsplit
    obtain ⟨hinit, -⟩ := append_inj' hsplit rfl
    exact h before e' init hinit

omit [LinearOrder τ] [Add τ] [Sub τ] [NatCast τ] in
/-- Rows are replaced by rows of the same number and id, and one worker moves on. -/
theorem CollectorInvariant.update {cfg : CollectorConfig} {s : CollectorState τ}
    (inv : CollectorInvariant cfg s) (p : OutboxRow τ → Bool) (f : OutboxRow τ → OutboxRow τ)
    (owner : String) (w : Worker) {bytes : ℤ}
    (hrowid : ∀ r, (f r).rowid = r.rowid) (hid : ∀ r, (f r).id = r.id)
    (hrow : ∀ r ∈ s.spool.outbox, p r = true → RowOk s.accepted (s.workers.set owner w) (f r))
    (hkept : ∀ r ∈ s.spool.outbox, p r = true →
      (f r).status = r.status ∧ (f r).payload = r.payload ∨ Publication.mk r.rowid true ∈ s.published)
    (hsame : ∀ w₀, s.workers.get? owner = some w₀ → w.item.rowid = w₀.item.rowid)
    (hworker : WorkerOk s.accepted s.published w)
    (hbytes : bytes = (s.spool.update p f).pendingBytes) (hcap : bytes ≤ s.spool.bytes) :
    CollectorInvariant cfg ({ s with
      spool := { s.spool.update p f with bytes := bytes } }.setWorker owner w) where
  pushes := inv.pushes
  rowids := by
    have hmap := update_map s.spool p f OutboxRow.rowid fun r _ _ => hrowid r
    have h := inv.rowids
    rw [← hmap] at h
    exact h
  ids := by
    have hmap := update_map s.spool p f OutboxRow.id fun r _ _ => hid r
    have h := inv.ids
    rw [← hmap] at h
    exact h
  rows := by
    intro r hr
    obtain ⟨hr, -⟩ | ⟨r₀, hr₀, hp, rfl⟩ := mem_update hr
    · exact (inv.rows r hr).setWorker hsame
    · exact hrow r₀ hr₀ hp
  workers := by
    intro o w' hw'
    obtain ⟨-, rfl⟩ | ⟨-, hw'⟩ := get?_set_cases hw'
    · exact hworker
    · exact inv.workers o w' hw'
  order := inv.order
  kept := by
    intro n c hc
    obtain ⟨r, hr, hn, hpending, hpayload⟩ | hpublished := inv.kept n c hc
    · have hmem := mem_update_of_mem p f hr
      by_cases hp : p r = true
      · rw [if_pos hp] at hmem
        obtain ⟨hstatus, hpay⟩ | hpublished := hkept r hr hp
        · exact .inl ⟨f r, hmem, (hrowid r).trans hn, hstatus.trans hpending, hpay.trans hpayload⟩
        · exact .inr (hn ▸ hpublished)
      · rw [if_neg hp] at hmem
        exact .inl ⟨r, hmem, hn, hpending, hpayload⟩
    · exact .inr hpublished
  bytes := hbytes
  capacity := hcap.trans inv.capacity

variable {now : τ}

omit [Add τ] [Sub τ] [NatCast τ] in
theorem claimRow_spec {o : OutboxRow τ} (h : claimRow now d = some o) :
    o ∈ d.outbox ∧ o.status = .pending ∧ ∀ p ∈ d.outbox, p.status = .pending →
      p.partition = o.partition → ¬ p.rowid < o.rowid := by
  have hclaim := find?_some h
  simp only [claimable, isFront, Bool.and_eq_true, decide_eq_true_eq, all_eq_true] at hclaim
  obtain ⟨⟨⟨hpending, -⟩, -⟩, hfront⟩ := hclaim
  refine ⟨mem_of_find?_eq_some h, hpending, fun p hp hpp hpart hlt => ?_⟩
  have := hfront p hp
  simp [hpp, hpart, hlt] at this

omit [Sub τ] in
/-- Only the front of a partition is claimed: what stands before it was published. -/
theorem CollectorInvariant.claim {cfg : CollectorConfig} {s : CollectorState τ} (inv : CollectorInvariant cfg s)
    {now : τ} {payload : String} {o : OutboxRow τ} (hrow : claimRow now s.spool = some o)
    (hpayload : o.payload = some payload) (howner : s.workers.get? owner = none) :
    CollectorInvariant cfg ({ s with spool := setOwner now owner o.id s.spool }.setWorker owner
      ⟨⟨o.rowid, o.id, payload, o.attempts⟩, .claimed⟩) := by
  obtain ⟨ho, hpending, hfront⟩ := claimRow_spec hrow
  obtain ⟨c, hc, hid, hpart, hpay⟩ := (inv.rows o ho).chunk
  have hsame : ∀ r ∈ s.spool.outbox, r.id = o.id → r = o := fun r hr heq => inj_on_of_nodup_map inv.ids hr ho heq
  have hworker : WorkerOk s.accepted s.published ⟨⟨o.rowid, o.id, payload, o.attempts⟩, .claimed⟩ := by
    refine ⟨⟨c, hc, ?_⟩, ?_, fun h => nomatch h⟩
    · have := hpay hpending
      rw [hpayload] at this
      exact Option.some.inj this
    · intro m c₀ c' hm hc₀ hc' hsamePart
      obtain ⟨r, hr, hn, hrPending, -⟩ | hpublished := inv.kept m c' hc'
      · obtain ⟨cr, hcr, -, hrPart, -⟩ := (inv.rows r hr).chunk
        rw [hn, hc'] at hcr
        cases hcr
        rw [hc] at hc₀
        cases hc₀
        exact absurd (hn ▸ hm) (hfront r hr hrPending (hrPart.trans (hsamePart.trans hpart.symm)))
      · exact hpublished
  apply inv.update (fun r => r.id = o.id) (OutboxRow.claimedBy now owner) owner
    ⟨⟨o.rowid, o.id, payload, o.attempts⟩, .claimed⟩ (fun _ => rfl) (fun _ => rfl) _
    (fun r _ _ => .inl ⟨rfl, rfl⟩) _ hworker _ le_rfl
  · intro r hr hp
    have heq := hsame r hr (of_decide_eq_true hp)
    subst heq
    refine ⟨⟨c, hc, hid, hpart, hpay⟩, fun o' ho' => ⟨hpending, ?_⟩⟩
    cases ho'
    exact ⟨_, get?_set_self _ _ _, rfl⟩
  · intro w₀ hw₀
    rw [howner] at hw₀
    cases hw₀
  · rw [pendingBytes_update]
    · exact inv.bytes
    · exact fun r _ _ => rfl

variable {cfg : CollectorConfig} {s : CollectorState τ}

variable {item : Claim}

section
omit [LinearOrder τ] [Add τ] [Sub τ] [NatCast τ]

theorem CollectorInvariant.publish (inv : CollectorInvariant cfg s) {returned : Bool}
    (hworker : s.workers.get? owner = some ⟨item, .claimed⟩) : CollectorInvariant cfg ({ s with
      published := s.published ++ [Publication.mk item.rowid returned] }.setWorker owner
        ⟨item, if returned then .published else .failed⟩) := by
  have hok := inv.workers owner _ hworker
  obtain ⟨c, hc, hpayload⟩ := hok.chunk
  have hsub : ∀ e ∈ s.published, e ∈ s.published ++ [Publication.mk item.rowid returned] :=
    fun e he => mem_append_left _ he
  constructor
  · exact inv.pushes
  · exact inv.rowids
  · exact inv.ids
  · intro r hr
    apply (inv.rows r hr).setWorker
    intro w₀ hw₀
    rw [hworker] at hw₀
    cases hw₀
    rfl
  · intro o w hw
    obtain ⟨-, rfl⟩ | ⟨-, hw⟩ := get?_set_cases hw
    · refine ⟨⟨c, hc, hpayload⟩, hok.earlier.mono hsub, fun hphase => ?_⟩
      cases returned with
      | true => exact mem_append_right _ mem_cons_self
      | false => cases hphase
    · exact (inv.workers o w hw).mono hsub
  · exact inv.order.snoc (lt_of_getElem? hc) hok.earlier
  · intro n c' hc'
    obtain hpending | hpublished := inv.kept n c' hc'
    · exact .inl hpending
    · exact .inr (hsub _ hpublished)
  · exact inv.bytes
  · exact inv.capacity

/-- A row under a worker's owner name is the row that worker holds. -/
theorem CollectorInvariant.owned_row {cfg : CollectorConfig} {s : CollectorState τ} (inv : CollectorInvariant cfg s)
    (hworker : s.workers.get? owner = some w) {r : OutboxRow τ} (hr : r ∈ s.spool.outbox)
    (hown : owned w.item.id owner r = true) :
    r.status = .pending ∧ r.rowid = w.item.rowid ∧ r.payload = some w.item.payload := by
  simp only [owned, Bool.and_eq_true, decide_eq_true_eq] at hown
  obtain ⟨hpending, w₀, hw₀, hrow⟩ := (inv.rows r hr).owner owner hown.2
  rw [hworker] at hw₀
  cases hw₀
  obtain ⟨c, hc, -, -, hpay⟩ := (inv.rows r hr).chunk
  obtain ⟨c', hc', hitem⟩ := (inv.workers owner w hworker).chunk
  rw [hrow, hc] at hc'
  cases hc'
  exact ⟨hpending, hrow.symm, (hpay hpending).trans (congrArg some hitem.symm)⟩

end

omit [LinearOrder τ] [Sub τ] in
theorem CollectorInvariant.failure (inv : CollectorInvariant cfg s) {now : τ}
    (hworker : s.workers.get? owner = some ⟨item, .failed⟩) :
    CollectorInvariant cfg ({ s with spool := recordFailure now item owner s.spool }.setWorker owner
      ⟨item, .finished⟩) := by
  have hok := inv.workers owner _ hworker
  apply inv.update (owned item.id owner) (OutboxRow.retryAt (now + (retryDelay item.attempts : τ)))
    owner ⟨item, .finished⟩ (fun _ => rfl) (fun _ => rfl) _ (fun r _ _ => .inl ⟨rfl, rfl⟩) _
    ⟨hok.chunk, hok.earlier, fun h => nomatch h⟩ _ le_rfl
  · intro r hr hp
    exact ⟨(inv.rows r hr).chunk, fun o ho => nomatch ho⟩
  · intro w₀ hw₀
    rw [hworker] at hw₀
    cases hw₀
    rfl
  · rw [pendingBytes_update]
    · exact inv.bytes
    · exact fun r _ _ => rfl

omit [LinearOrder τ] [Add τ] [Sub τ] in
/-- Only the owner of a row takes it out, and it is the one whose call returned. -/
theorem CollectorInvariant.sent {cfg : CollectorConfig} {s : CollectorState τ} (inv : CollectorInvariant cfg s)
    {now : τ} (hworker : s.workers.get? owner = some ⟨item, .published⟩) :
    CollectorInvariant cfg ({ s with spool := recordSent now item owner s.spool }.setWorker owner
      ⟨item, .finished⟩) := by
  have hok := inv.workers owner _ hworker
  have hfinished : WorkerOk s.accepted s.published ⟨item, .finished⟩ := ⟨hok.chunk, hok.earlier, fun h => nomatch h⟩
  have hsame : ∀ w₀, s.workers.get? owner = some w₀ → item.rowid = w₀.item.rowid := by
    intro w₀ hw₀
    rw [hworker] at hw₀
    cases hw₀
    rfl
  have hrow : ∀ r ∈ s.spool.outbox, owned item.id owner r = true →
      r.status = .pending ∧ r.rowid = item.rowid ∧ r.payload = some item.payload :=
    fun r hr hown => inv.owned_row hworker hr hown
  have hkept : ∀ r ∈ s.spool.outbox, owned item.id owner r = true → Publication.mk r.rowid true ∈ s.published := by
    intro r hr hown
    rw [(hrow r hr hown).2.1]
    exact hok.returned rfl
  have hrows : ∀ r ∈ s.spool.outbox, owned item.id owner r = true →
      RowOk s.accepted (s.workers.set owner ⟨item, .finished⟩) (r.sentAt now) := by
    intro r hr _
    obtain ⟨c, hc, hid, hpart, -⟩ := (inv.rows r hr).chunk
    exact ⟨⟨c, hc, hid, hpart, fun h => nomatch h⟩, fun o ho => nomatch ho⟩
  by_cases hany : s.spool.outbox.any (owned item.id owner) = true
  · have hsize : ∀ r ∈ s.spool.outbox, owned item.id owner r = true → r.pendingBytes = item.payload.utf8ByteSize := by
      intro r hr hown
      obtain ⟨hpending, -, hpayload⟩ := hrow r hr hown
      simp [OutboxRow.pendingBytes, hpending, hpayload]
    have hsum := sum_update_owned (f := OutboxRow.sentAt now) inv.ids hsize (fun r => rfl) hany
    have hbytes := inv.bytes
    unfold recordSent
    simp only [hany, if_true]
    apply inv.update (owned item.id owner) (OutboxRow.sentAt now) owner ⟨item, .finished⟩
      (fun _ => rfl) (fun _ => rfl) hrows (fun r hr hp => .inr (hkept r hr hp)) hsame hfinished
    · simp only [Spool.pendingBytes, Spool.update] at hbytes hsum ⊢
      omega
    · simp only [Spool.update]
      omega
  · unfold recordSent
    simp only [hany]
    apply inv.update (owned item.id owner) (OutboxRow.sentAt now) owner ⟨item, .finished⟩
      (fun _ => rfl) (fun _ => rfl) hrows (fun r hr hp => .inr (hkept r hr hp)) hsame hfinished _
      le_rfl
    rw [pendingBytes_update]
    · exact inv.bytes
    · intro r hr hp
      exact absurd (any_eq_true.mpr ⟨r, hr, hp⟩) hany

variable {chunks : List Chunk}

section
omit [LinearOrder τ] [Add τ] [Sub τ]

theorem insertChunks_spec {next count : ℕ} {d' : Spool τ} {hash : String}
    (h : insertChunks cfg now next d requestId hash chunks count = .ok d') :
    d'.outbox = d.outbox ++ newRows now next chunks ∧ d'.bytes = d.bytes + totalBytes chunks ∧
      d'.bytes ≤ cfg.maxBytes ∧ (d'.outbox.map OutboxRow.id).Nodup := by
  unfold insertChunks at h
  split at h
  · cases h
  · rename_i hroom
    split at h
    · rename_i hunique
      cases h
      exact ⟨rfl, rfl, not_lt.mp hroom, of_decide_eq_true hunique⟩
    · cases h

theorem enqueue_stored {next : ℕ} {d' : Spool τ} {samples : Json} {push : Push}
    (h : enqueue cfg now next d samples requestId = .ok (.stored d' push)) :
    capture cfg push.normalized push.requestId = .ok push.chunks ∧
      d'.outbox = d.outbox ++ newRows now next push.chunks ∧
      d'.bytes = d.bytes + totalBytes push.chunks ∧ d'.bytes ≤ cfg.maxBytes ∧
      (d'.outbox.map OutboxRow.id).Nodup := by
  unfold enqueue at h
  obtain ⟨name, -, h⟩ := of_bind h
  obtain ⟨normalized, -, h⟩ := of_bind h
  obtain ⟨chunks, hchunks, h⟩ := of_bind h
  split at h
  · split at h
    · cases h
    · cases h
  · obtain ⟨stored, hstored, h⟩ := of_bind h
    cases h
    exact ⟨hchunks, insertChunks_spec hstored⟩

theorem mem_newRows {next : ℕ} (h : r ∈ newRows now next chunks) : ∃ i c, chunks[i]? = some c ∧ r =
      ⟨next + i, c.batchId, some c.payload, .pending, 0, now, c.partition, none, ((0 : ℕ) : τ)⟩ := by
  obtain ⟨i, hi, rfl⟩ := mem_mapIdx.mp h
  exact ⟨i, chunks[i], getElem?_eq_getElem hi, rfl⟩

theorem exists_newRow (now : τ) (next : ℕ) {i : ℕ} {c : Chunk} (h : chunks[i]? = some c) :
    ∃ r ∈ newRows now next chunks, r.rowid = next + i ∧ r.status = .pending ∧ r.payload = some c.payload := by
  obtain ⟨hi, rfl⟩ := List.getElem?_eq_some_iff.mp h
  exact ⟨_, mem_mapIdx.mpr ⟨i, hi, rfl⟩, rfl, rfl, rfl⟩

theorem newRows_rowids (now : τ) (next : ℕ) (chunks : List Chunk) :
    ((newRows now next chunks).map OutboxRow.rowid).Pairwise (· < ·) := by
  rw [pairwise_iff_getElem]
  intro i j hi hj hij
  simp only [newRows, getElem_map, getElem_mapIdx]
  omega

end

omit [Add τ] [Sub τ] [NatCast τ] in
theorem mem_clean_of_pending {keeping : Housekeeping} {cutoff : τ} (hr : r ∈ d.outbox) (h : r.status = .pending) :
    r ∈ (clean keeping cutoff d).outbox := by
  apply mem_filter.mpr
  exact ⟨hr, by simp [OutboxRow.expired, h]⟩

omit [Add τ] [Sub τ] in
theorem CollectorInvariant.push {cfg : CollectorConfig} {s : CollectorState τ} (inv : CollectorInvariant cfg s)
    {now cutoff : τ} {samples : Json} {d : Spool τ} {push : Push} {keeping : Housekeeping}
    (h : enqueue cfg now s.accepted.length s.spool samples requestId = .ok (.stored d push)) :
    CollectorInvariant cfg { s with
      spool := clean keeping cutoff d
      pushes := s.pushes ++ [push] } := by
  obtain ⟨hcapture, houtbox, hbytes, hcap, hids⟩ := enqueue_stored h
  have haccepted : (s.pushes ++ [push]).flatMap Push.chunks = s.accepted ++ push.chunks := by
    simp [CollectorState.accepted]
  have hsub : (clean keeping cutoff d).outbox.Sublist d.outbox := filter_sublist
  have hnew : ∀ i c, push.chunks[i]? = some c → (s.accepted ++ push.chunks)[s.accepted.length + i]? = some c := by
    intro i c hc
    rw [getElem?_append_right (Nat.le_add_right _ _), Nat.add_sub_cancel_left]
    exact hc
  constructor
  · intro p hp
    obtain hp | rfl := mem_append.mp hp |>.imp_right mem_singleton.mp
    · exact inv.pushes p hp
    · exact hcapture
  · -- stored rows have smaller numbers than the new ones
    apply Pairwise.sublist (hsub.map _)
    rw [houtbox, map_append, pairwise_append]
    refine ⟨inv.rowids, newRows_rowids _ _ _, ?_⟩
    intro a ha b hb
    obtain ⟨r, hr, rfl⟩ := mem_map.mp ha
    obtain ⟨r', hr', rfl⟩ := mem_map.mp hb
    obtain ⟨c, hc, -⟩ := (inv.rows r hr).chunk
    obtain ⟨i, c', -, rfl⟩ := mem_newRows hr'
    have hlt := lt_of_getElem? hc
    dsimp only
    omega
  · exact hids.sublist (hsub.map _)
  · intro r hr
    have hr := hsub.subset hr
    simp only [CollectorState.accepted, haccepted]
    rw [houtbox, mem_append] at hr
    obtain hr | hr := hr
    · exact (inv.rows r hr).append _
    · obtain ⟨i, c, hc, rfl⟩ := mem_newRows hr
      exact ⟨⟨c, hnew i c hc, rfl, rfl, fun _ => rfl⟩, fun o ho => nomatch ho⟩
  · intro o w hw
    simp only [CollectorState.accepted, haccepted]
    exact (inv.workers o w hw).append _
  · simp only [CollectorState.accepted, haccepted]
    exact inv.order.append _
  · change Kept ((s.pushes ++ [push]).flatMap Push.chunks) _ _
    rw [haccepted]
    intro n c hc
    obtain hlt | hge := Nat.lt_or_ge n s.accepted.length
    · rw [getElem?_append_left hlt] at hc
      obtain ⟨r, hr, hn, hpending, hpayload⟩ | hpublished := inv.kept n c hc
      · refine .inl ⟨r, mem_clean_of_pending ?_ hpending, hn, hpending, hpayload⟩
        rw [houtbox]
        exact mem_append_left _ hr
      · exact .inr hpublished
    · rw [getElem?_append_right hge] at hc
      obtain ⟨r, hr, hn, hpending, hpayload⟩ := exists_newRow now s.accepted.length hc
      refine .inl ⟨r, mem_clean_of_pending ?_ hpending, ?_, hpending, hpayload⟩
      · rw [houtbox]
        exact mem_append_right _ hr
      · rw [hn, Nat.add_sub_cancel' hge]
  · dsimp only
    have hold := inv.bytes
    have hsum : d.pendingBytes = s.spool.pendingBytes + totalBytes push.chunks := by
      rw [Spool.pendingBytes, houtbox, map_append, sum_append, sum_newRows]
      rfl
    rw [pendingBytes_clean, hsum]
    change d.bytes = _
    rw [hbytes, hold]
    push_cast
    rfl
  · exact hcap

/-! ### Runs -/

theorem CollectorInvariant.step {s' : CollectorState τ} (inv : CollectorInvariant cfg s) (h : CollectorStep cfg s s') :
    CollectorInvariant cfg s' := by
  cases h with
  | push h _ => exact inv.push h
  | claim hrow hpayload howner => exact inv.claim hrow hpayload howner
  | publish _ hworker => exact inv.publish hworker
  | failure _ hworker => exact inv.failure hworker
  | sent _ hworker => exact inv.sent hworker

theorem collectorInvariant_start (h : (collector τ cfg).start s) : CollectorInvariant cfg s := by
  cases h
  refine ⟨?_, List.Pairwise.nil, nodup_nil, ?_, ?_, ?_, ?_, rfl, ?_⟩
  · intro push hpush
    cases hpush
  · intro r hr
    cases hr
  · intro o w hw
    rw [get?_empty] at hw
    cases hw
  · intro before e after hsplit
    exact absurd hsplit (by simp)
  · intro n c hc
    cases hc
  · exact Int.natCast_nonneg _

/-- The outbox loses nothing, publishes every partition in order and counts its bytes. -/
theorem collector_safe (cfg : CollectorConfig) :
    (∀ (normalized : List Sample) (requestId : String) (chunks : List Chunk),
      capture cfg normalized requestId = .ok chunks → Exact cfg normalized chunks) ∧
    ∀ s : CollectorState τ, (collector τ cfg).Reachable s →
      (∀ push ∈ s.pushes, Exact cfg push.normalized push.chunks) ∧
      InOrder s.accepted s.published ∧ Kept s.accepted s.spool s.published ∧
      s.spool.bytes = s.spool.pendingBytes ∧ s.spool.bytes ≤ cfg.maxBytes := by
  refine ⟨fun _ _ _ h => capture_exact h, fun s hs => ?_⟩
  have inv : CollectorInvariant cfg s := by
    apply hs.invariant
    · exact fun s h => collectorInvariant_start h
    · exact fun s s' _ inv h => inv.step h
  exact ⟨fun push hpush => capture_exact (inv.pushes push hpush), inv.order, inv.kept, inv.bytes, inv.capacity⟩

end

def oneQueue : CollectorConfig := ⟨16384, 1, .metric, by decide, by decide⟩

def loadSample : Json := .obj [("metric", .str "load"), ("value", .int 1), ("timestamp", .int 5)]

def loadReading : Sample := ⟨"load", [], .gauge, .ofInt 5, .ofInt 1⟩

def loadChunk : Chunk := ⟨batchId "push-1" 0, 0, [loadReading]⟩

theorem normalize_load : normalize (.arr [loadSample]) = .ok [loadReading] := by decide +kernel

theorem load_bytes : ¬ envelopeBytes placeholder 0 [loadReading] > 12000 := by decide +kernel

theorem capture_load : capture oneQueue [loadReading] "push-1" = .ok [loadChunk] := by
  have hpartition : partitionFor loadReading 1 .metric = 0 := Nat.mod_one _
  have hgrouped : (grouped oneQueue [loadReading]).entries = [(0, [loadReading])] := by
    simp [grouped, addGrouped, oneQueue, hpartition, Dict.set, Dict.empty, Dict.get?]
  have hcut : cutPartition 0 [loadReading] = .ok [[loadReading]] := by
    simp [cutPartition, addSample, load_bytes]
  simp [capture, payloads, hgrouped, hcut, loadChunk]

theorem load_spool_bytes : loadChunk.bytes ≤ 12000 := (capture_exact capture_load).bytes loadChunk mem_cons_self

def loadSpool : Spool ℤ where
  receipts := Dict.empty.set "push-1" ⟨fingerprint [loadReading], dumps (pushResult "push-1" 1 1), 0⟩
  outbox := newRows 0 0 [loadChunk]
  bytes := 0 + totalBytes [loadChunk]

theorem enqueue_load : enqueue oneQueue (0 : ℤ) 0 ⟨.empty, [], 0⟩ (.arr [loadSample]) "push-1" =
    .ok (.stored loadSpool ⟨"push-1", [loadReading], [loadChunk]⟩) := by
  have hname : identifier (.str "push-1") = .ok "push-1" := by decide +kernel
  have hbytes := load_spool_bytes
  have hroom : ¬ (0 : ℤ) + totalBytes [loadChunk] > oneQueue.maxBytes := by
    simp only [totalBytes, map_cons, map_nil, sum_cons, sum_nil, oneQueue]
    omega
  have hunique : uniqueIds ([] ++ newRows (0 : ℤ) 0 [loadChunk]) = true := by
    simp [uniqueIds, newRows]
  rw [enqueue, hname, Py.bind_ok, normalize_load, Py.bind_ok, capture_load, Py.bind_ok, get?_empty]
  simp only [insertChunks, if_neg hroom, if_pos hunique]
  rfl

def keepAll : Housekeeping := ⟨fun _ => false, fun _ => false⟩

/-- A push, then a flush that publishes its chunk. -/
theorem collector_safe_load : ∃ s : CollectorState ℤ, (collector ℤ oneQueue).Reachable s ∧
    s.published = [⟨0, true⟩] ∧ s.accepted = [loadChunk] ∧
    Exact oneQueue [loadReading] [loadChunk] ∧ InOrder s.accepted s.published ∧
    Kept s.accepted s.spool s.published ∧ s.spool.bytes = s.spool.pendingBytes ∧
    s.spool.bytes ≤ oneQueue.maxBytes := by
  have hreceipts : loadSpool.receipts.entries =
      [("push-1", ⟨fingerprint [loadReading], dumps (pushResult "push-1" 1 1), 0⟩)] := rfl
  have houtbox : loadSpool.outbox = [⟨0, loadChunk.batchId, some loadChunk.payload, .pending, 0, 0, 0, none, 0⟩] := rfl
  have hpicks : keepAll.Picks ((0 : ℤ) - (retention : ℤ)) loadSpool := by
    constructor
    · simp [keepAll, hreceipts, PushReceipt.expired, retention]
    · simp [keepAll, houtbox, OutboxRow.expired]
  have hstart : (collector ℤ oneQueue).Reachable ⟨⟨.empty, [], 0⟩, .empty, [], []⟩ := .start rfl
  have hpush := hstart.step (CollectorStep.push enqueue_load hpicks)
  have hrow : claimRow (1 : ℤ) (clean keepAll (0 - (retention : ℤ)) loadSpool) =
      some ⟨0, loadChunk.batchId, some loadChunk.payload, .pending, 0, 0, 0, none, 0⟩ := by
    simp [claimRow, clean, houtbox, OutboxRow.expired, claimable, isFront]
  have hclaim := hpush.step (CollectorStep.claim hrow rfl (get?_empty "worker"))
  have hpublish := hclaim.step (CollectorStep.publish true (get?_set_self _ "worker" _))
  have hsent := hpublish.step (CollectorStep.sent 2 (get?_set_self _ "worker" _))
  obtain ⟨hexact, hsafe⟩ := collector_safe (τ := ℤ) oneQueue
  exact ⟨_, hsent, rfl, rfl, hexact _ _ _ capture_load, (hsafe _ hsent).2⟩

end SystemDesign.Metrics
