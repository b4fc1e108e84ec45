import SystemDesign.KvStore.MerkleRoots
import SystemDesign.Lib.Transaction

/-!
`differences` compares a replica's tree with a peer's from the root down, 64 nodes a request, and holds the peer to the
root of its first reply. Whatever the peer does meanwhile, the result is right for that root, or there is none
(`differences_exact`).
-/

namespace SystemDesign.KvStore.MerkleTree

open List SortedKeys

/-- `node_hash(index)` -/
def nodeHash (tree : MerkleTree) (index : ℕ) : Except String String :=
  if 1 ≤ index ∧ index < tree.heap.length then .ok (hex (tree.heap.getD index []))
  else .error "invalid Merkle node index"

structure InspectResponse where
  bucketCount : ℕ
  rootHash : String
  nodes : List (ℕ × String)

/-- `RepairService.inspect`; the errors are the texts of its aborts. -/
def inspect (tree : MerkleTree) (bucketCount : ℕ) (indices : List ℕ) (expectedRoot : String) :
    Except String InspectResponse :=
  if bucketCount ≠ tree.bucketCount then .error "Merkle bucket counts differ"
  else if expectedRoot ≠ "" ∧ expectedRoot ≠ tree.rootHash then .error "Merkle view changed; retry repair"
  else if ¬ (1 ≤ indices.length ∧ indices.length ≤ 64) ∨ ¬ indices.Nodup then .error "expected1..64 unique indices"
  else do
    let nodes ← indices.mapM fun index => do return (index, ← tree.nodeHash index)
    return ⟨tree.bucketCount, tree.rootHash, nodes⟩

def isDigest (text : String) : Bool := text.toList.length = 64 && text.toList.all (· ∈ "0123456789abcdef".toList)

def checkReply (reply : InspectResponse) (tree : MerkleTree) (expected : String) (indices : List ℕ) :
    Except String Unit :=
  if reply.bucketCount ≠ tree.bucketCount ∨ expected ≠ "" ∧ reply.rootHash ≠ expected then
    .error "remote Merkle view changed"
  else if ¬ isDigest reply.rootHash then .error "invalid Merkle root"
  else if (reply.nodes.map Prod.fst).mergeSort ≠ indices.mergeSort then .error "incomplete or duplicate Merkle nodes"
  else if reply.nodes.any fun row => ¬ isDigest row.2 then .error "invalid Merkle node digest"
  else .ok ()

/-- One row of a reply: the nodes still to compare, and the buckets found. -/
def compareRow (tree : MerkleTree) (state : List ℕ × List ℕ) (row : ℕ × String) : Except String (List ℕ × List ℕ) := do
  if row.2 = (← tree.nodeHash row.1) then return state
  else if row.1 ≥ tree.bucketCount then return (state.1, state.2 ++ [row.1 - tree.bucketCount])
  else return (state.1 ++ [row.1 * 2, row.1 * 2 + 1], state.2)

/-- The loop of `_differences`, with as many requests as there is fuel; `peer k` answers the request after `k` others. -/
def differencesFrom (tree : MerkleTree) (peer : ℕ → MerkleTree) :
    ℕ → ℕ → List ℕ → List ℕ → String → Except String (String × List ℕ)
  | 0, _, _, _, _ => .error "out of fuel"
  | _ + 1, _, [], buckets, root => .ok (root, buckets.mergeSort)
  | fuel + 1, rpcs, pending@(_ :: _), buckets, root => do
    let indices := pending.take 64
    let reply ← (peer rpcs).inspect tree.bucketCount indices root
    checkReply reply tree root indices
    let (pending, buckets) ← reply.nodes.foldlM tree.compareRow (pending.drop 64, buckets)
    differencesFrom tree peer fuel (rpcs + 1) pending buckets reply.rootHash

/-- `_differences` -/
def differences (tree : MerkleTree) (peer : ℕ → MerkleTree) : Except String (String × List ℕ) :=
  differencesFrom tree peer (2 * tree.bucketCount) 0 [1] [] ""

/-! ### From the root down -/

variable {n low i : ℕ} {differ : ℕ → Bool} {queue buckets : List ℕ}

/-- What the visit of a node puts in the queue. -/
def kids (n : ℕ) (differ : ℕ → Bool) (i : ℕ) : List ℕ := if differ i ∧ i < n then [i * 2, i * 2 + 1] else []

/-- The bucket that the visit of a node finds. -/
def hits (n : ℕ) (differ : ℕ → Bool) (i : ℕ) : List ℕ := if differ i ∧ n ≤ i then [i - n] else []

theorem mem_kids {c : ℕ} : c ∈ kids n differ i ↔ differ i = true ∧ i < n ∧ (c = i * 2 ∨ c = i * 2 + 1) := by grind [kids]

theorem mem_hits {b : ℕ} : b ∈ hits n differ i ↔ differ i = true ∧ n + b = i := by grind [hits]

/-- The nodes that are left to visit, in heap order, and the differing leaves among those before `low`. -/
structure Frontier (n : ℕ) (differ : ℕ → Bool) (low : ℕ) (queue buckets : List ℕ) : Prop where
  low_range : 1 ≤ low ∧ low ≤ 2 * n
  increasing : queue.Pairwise (· < ·)
  bounds : ∀ i ∈ queue, low ≤ i ∧ i < 2 * n ∧ i < 2 * low
  sorted : buckets.Pairwise (· < ·)
  sound : ∀ b ∈ buckets, n + b < low ∧ differ (n + b) = true
  complete : ∀ i, 1 ≤ i → i < 2 * n → differ i = true →
    i < low ∧ (n ≤ i → i - n ∈ buckets) ∨ i ∈ queue ∨ low ≤ i / 2

/-- Nodes that differ have parents that do. -/
def Upward (n : ℕ) (differ : ℕ → Bool) : Prop := ∀ i, 2 ≤ i → i < 2 * n → differ i = true → differ (i / 2) = true

theorem Frontier.exists_le (h : Frontier n differ low queue buckets) (hup : Upward n differ) (hlow : low ≤ i)
    (hi : i < 2 * n) (hdiffer : differ i = true) : ∃ j ∈ queue, j ≤ i := by
  induction i using Nat.strong_induction_on with
  | _ i ih =>
    have hpos := h.low_range
    obtain ⟨hlt, -⟩ | hmem | hparent := h.complete i (by omega) hi hdiffer
    · omega
    · exact ⟨i, hmem, le_rfl⟩
    · obtain ⟨j, hj, hle⟩ := ih (i / 2) (by omega) hparent (by omega) (hup i (by omega) hi hdiffer)
      exact ⟨j, hj, by omega⟩

theorem Frontier.visit (h : Frontier n differ low (i :: queue) buckets) (hup : Upward n differ) :
    Frontier n differ (i + 1) (queue ++ kids n differ i) (buckets ++ hits n differ i) := by
  obtain ⟨hfirst, hqueue⟩ := pairwise_cons.mp h.increasing
  have hbounds := h.bounds
  have hi := hbounds i mem_cons_self
  have hlow := h.low_range
  have hsound := h.sound
  refine ⟨by omega, ?_, fun x hx => ?_, ?_, fun b hb => ?_, fun j hpos hj hdiffer => ?_⟩
  · grind [kids]
  · grind [mem_kids]
  · exact pairwise_append.mpr ⟨h.sorted, by grind [hits], by grind [mem_hits]⟩
  · grind [mem_hits]
  · have hparent : low ≤ j / 2 → i ≤ j / 2 := fun hle => by
      obtain ⟨x, hx, hxle⟩ := h.exists_le hup hle (by omega) (hup j (by omega) hj hdiffer)
      grind
    have hupj := hup j
    have hcomplete := h.complete j hpos hj hdiffer
    grind [mem_kids, mem_hits]

theorem Frontier.mem_iff (h : Frontier n differ low [] buckets) (hup : Upward n differ) {b : ℕ} :
    b ∈ buckets ↔ b < n ∧ differ (n + b) = true := by
  have hlow := h.low_range
  have hnone (hb : b < n) (hdiffer : differ (n + b) = true) : n + b < low := by
    by_contra hle
    obtain ⟨j, hj, -⟩ := h.exists_le hup (not_lt.mp hle) (by omega) hdiffer
    exact absurd hj not_mem_nil
  grind [h.sound b, h.complete (n + b)]

/-! ### One request -/

variable {tree remote : MerkleTree} {indices rest : List ℕ} {root : String}

theorem Consistent.nodeHash_eq (h : Consistent n tree) (hpos : 1 ≤ i) (hi : i < 2 * n) :
    tree.nodeHash i = .ok (hex (tree.heap.getD i [])) :=
  if_pos ⟨hpos, h.heap_length.symm ▸ hi⟩

theorem Consistent.isDigest_node (h : Consistent n tree) (hpos : 1 ≤ i) (hi : i < 2 * n) :
    isDigest (hex (tree.heap.getD i [])) = true := by
  obtain ⟨data, hdata⟩ : ∃ data, tree.heap.getD i [] = Sha256.digest data := by
    by_cases hinner : i < n
    · exact ⟨_, h.combined i hpos hinner⟩
    · exact ⟨_, (by rw [Nat.add_sub_cancel' (not_lt.mp hinner)] : n + (i - n) = i) ▸ h.leaf_eq (i - n) (by omega)⟩
  rw [hdata, isDigest, hex, String.toList_ofList]
  simpa only [Bool.and_eq_true, decide_eq_true_eq, all_eq_true] using Sha256.digest_shape data

theorem Consistent.rootHash_ne (h : Consistent n tree) : tree.rootHash ≠ "" := fun hempty => by
  have hdigest := h.isDigest_node le_rfl (by have := h.pos; omega)
  rw [← h.root_eq, hempty] at hdigest
  exact absurd hdigest (by decide)

/-- The rows of a reply. -/
def rows (remote : MerkleTree) (indices : List ℕ) : List (ℕ × String) :=
  indices.map fun index => (index, hex (remote.heap.getD index []))

theorem Consistent.inspect_eq (h : Consistent n remote) (hlength : 1 ≤ indices.length ∧ indices.length ≤ 64)
    (hnodup : indices.Nodup) (hrange : ∀ i ∈ indices, 1 ≤ i ∧ i < 2 * n) :
    remote.inspect n indices root =
      if root ≠ "" ∧ root ≠ remote.rootHash then .error "Merkle view changed; retry repair"
      else .ok ⟨n, remote.rootHash, remote.rows indices⟩ := by
  have hrows : (indices.mapM fun index => do return (index, ← remote.nodeHash index) : Except String _) =
      .ok (remote.rows indices) := mapM_ok fun i hi => by
    rw [h.nodeHash_eq (hrange i hi).1 (hrange i hi).2]
    rfl
  rw [inspect, h.count, hrows]
  simp only [bind, Except.bind, pure, Except.pure]
  grind

theorem Consistent.checkReply_eq (h : Consistent n tree) (hremote : Consistent n remote)
    (hroot : ¬ (root ≠ "" ∧ root ≠ remote.rootHash)) (hrange : ∀ i ∈ indices, 1 ≤ i ∧ i < 2 * n) :
    checkReply ⟨n, remote.rootHash, remote.rows indices⟩ tree root indices = .ok () := by
  have hdigest : isDigest remote.rootHash = true := hremote.root_eq ▸ hremote.isDigest_node le_rfl (by linarith [h.pos])
  have hindices : (remote.rows indices).map Prod.fst = indices := (map_map ..).trans (map_id _)
  have hrows : ∀ row ∈ remote.rows indices, isDigest row.2 = true := fun row hrow => by
    obtain ⟨i, hi, rfl⟩ := mem_map.mp hrow
    exact hremote.isDigest_node (hrange i hi).1 (hrange i hi).2
  grind [checkReply, h.count]

/-- The nodes where two trees differ. -/
def differs (tree remote : MerkleTree) (i : ℕ) : Bool := tree.heap.getD i [] ≠ remote.heap.getD i []

theorem Consistent.compareRow_eq (h : Consistent n tree) (hpos : 1 ≤ i) (hi : i < 2 * n) (state : List ℕ × List ℕ) :
    tree.compareRow state (i, hex (remote.heap.getD i [])) =
      .ok (state.1 ++ kids n (differs tree remote) i, state.2 ++ hits n (differs tree remote) i) := by
  have hsame : hex (remote.heap.getD i []) = hex (tree.heap.getD i []) ↔ ¬ differs tree remote i = true := by
    rw [differs, decide_eq_true_eq, not_not]
    exact ⟨fun heq => (hex_inj heq).symm, fun heq => by rw [heq]⟩
  rw [compareRow, h.nodeHash_eq hpos hi, h.count]
  simp only [bind, Except.bind, pure, Except.pure, hsame, kids, hits]
  split_ifs <;> grind

theorem compareRows_spec (h : Consistent n tree) (hup : Upward n (differs tree remote))
    (hfrontier : Frontier n (differs tree remote) low (indices ++ rest) buckets) :
    ∃ queue' buckets' low', (remote.rows indices).foldlM tree.compareRow (rest, buckets) = .ok (queue', buckets') ∧
      low + indices.length ≤ low' ∧ Frontier n (differs tree remote) low' queue' buckets' := by
  induction indices generalizing rest buckets low with
  | nil => exact ⟨rest, buckets, low, rfl, le_rfl, hfrontier⟩
  | cons i indices ih =>
    have hi := hfrontier.bounds i mem_cons_self
    have hlow := hfrontier.low_range
    obtain ⟨queue', buckets', low', hrun, hle, hlast⟩ := ih (append_assoc _ _ _ ▸ hfrontier.visit hup)
    refine ⟨queue', buckets', low', ?_, by rw [length_cons]; omega, hlast⟩
    rw [rows, map_cons, foldlM_cons, h.compareRow_eq (by omega) hi.2.1]
    exact hrun

/-! ### All requests -/

variable {peer : ℕ → MerkleTree}

/-- While digests are distinct, nodes that differ have parents that do. -/
theorem Consistent.upward (h : Consistent n tree) (hremote : Consistent n remote)
    (hinj : Set.InjOn Sha256.digest {x | x ∈ tree.hashed ++ remote.hashed}) : Upward n (differs tree remote) := by
  refine fun i htwo hi hdiffer => decide_eq_true fun heq => of_decide_eq_true hdiffer ?_
  have hdigest : Sha256.digest _ = Sha256.digest _ :=
    (h.combined (i / 2) (by omega) (by omega)).symm.trans (heq.trans (hremote.combined (i / 2) (by omega) (by omega)))
  have hpair := hinj (mem_append_left _ (h.pair_mem (by omega) (by omega)))
    (mem_append_right _ (hremote.pair_mem (by omega) (by omega))) hdigest
  obtain ⟨hleft, hright⟩ := append_inj hpair
    (by rw [h.digest_length (by omega) (by omega), hremote.digest_length (by omega) (by omega)])
  obtain hchild | hchild : i / 2 * 2 = i ∨ i / 2 * 2 + 1 = i := by omega
  · exact hchild ▸ hleft
  · exact hchild ▸ hright

theorem Consistent.differs_leaf (h : Consistent n tree) (hremote : Consistent n remote)
    (hinj : Set.InjOn Sha256.digest {x | x ∈ tree.hashed ++ remote.hashed}) (hi : i < n) :
    differs tree remote (n + i) = true ↔ ¬ (tree.bucket i).Equiv (remote.bucket i) := by
  rw [differs, decide_eq_true_eq, ne_eq, not_iff_not, h.leaf_eq i hi, hremote.leaf_eq i hi]
  constructor
  · intro hleaf
    have htext := hinj (mem_append_left _ (h.text_mem hi)) (mem_append_right _ (hremote.text_mem hi)) hleaf
    have hhash := Option.some.inj ((ofUtf8Bytes_eq_some.mpr rfl).symm.trans (ofUtf8Bytes_eq_some.mpr htext))
    rw [h.hash_eq i hi, hremote.hash_eq i hi] at hhash
    exact get?_eq_of_bucketHash (h.mem_keys i hi) (hremote.mem_keys i hi)
      (fun heq => hinj (mem_append_left _ (h.bytes_mem hi)) (mem_append_right _ (hremote.bytes_mem hi)) heq) hhash
  · intro hequiv
    have hkeys : tree.keysOf i = remote.keysOf i := eq_of_mem_iff (h.sorted i hi) (hremote.sorted i hi) fun key => by
      rw [h.mem_keys i hi, hremote.mem_keys i hi, hequiv key]
    rw [h.hash_eq i hi, hremote.hash_eq i hi, hkeys, bucketHash_congr hequiv]

theorem differencesFrom_spec (h : Consistent n tree) (hpeer : ∀ k, Consistent n (peer k))
    (hview : ∀ k, (peer k).rootHash = (peer 0).rootHash → (peer k).heap = (peer 0).heap)
    (hup : Upward n (differs tree (peer 0))) {fuel rpcs : ℕ}
    (hroot : root = (peer 0).rootHash ∨ root = "" ∧ rpcs = 0 ∧ queue ≠ []) (hfuel : 2 * n < fuel + low)
    (hfrontier : Frontier n (differs tree (peer 0)) low queue buckets) :
    (∃ found low', differencesFrom tree peer fuel rpcs queue buckets root = .ok ((peer 0).rootHash, found) ∧
      Frontier n (differs tree (peer 0)) low' [] found) ∨
    (∃ k, (peer k).rootHash ≠ (peer 0).rootHash) ∧
      differencesFrom tree peer fuel rpcs queue buckets root = .error "Merkle view changed; retry repair" := by
  have hlow := hfrontier.low_range
  induction fuel generalizing rpcs queue buckets root low with
  | zero => omega
  | succ fuel ih =>
    cases queue with
    | nil =>
      have hsort : buckets.mergeSort = buckets := mergeSort_of_pairwise (hfrontier.sorted.imp fun hlt => decide_eq_true hlt.le)
      refine .inl ⟨buckets, low, ?_, hfrontier⟩
      rw [differencesFrom, hsort, hroot.resolve_right fun hfirst => hfirst.2.2 rfl]
    | cons i queue =>
      have hrange : ∀ j ∈ (i :: queue).take 64, 1 ≤ j ∧ j < 2 * n := fun j hj =>
        (hfrontier.bounds j (mem_of_mem_take hj)).imp hlow.1.trans And.left
      rw [← take_append_drop 64 (i :: queue)] at hfrontier
      have hlength : 1 ≤ ((i :: queue).take 64).length ∧ ((i :: queue).take 64).length ≤ 64 := by grind
      have hnodup := (hfrontier.increasing.sublist (sublist_append_left _ _)).imp fun hlt => ne_of_lt hlt
      rw [differencesFrom, h.count, (hpeer rpcs).inspect_eq hlength hnodup hrange]
      by_cases hpinned : root ≠ "" ∧ root ≠ (peer rpcs).rootHash
      · rw [if_pos hpinned]
        exact .inr ⟨⟨rpcs, by grind⟩, rfl⟩
      · have hsame : (peer rpcs).rootHash = (peer 0).rootHash := by grind [(hpeer 0).rootHash_ne]
        obtain ⟨queue', buckets', low', hrun, hle, hnext⟩ := compareRows_spec h hup hfrontier
        have hrows : (peer rpcs).rows ((i :: queue).take 64) = (peer 0).rows ((i :: queue).take 64) := by
          rw [rows, rows, hview rpcs hsame]
        have hreply := h.checkReply_eq (hpeer rpcs) hpinned hrange
        rw [hrows, hsame] at hreply
        rw [if_neg hpinned]
        simp only [bind, Except.bind, hrows, hsame, hreply, hrun]
        exact ih (.inl rfl) (by omega) hnext hnext.low_range

/-- One comparison reports in order exactly the buckets whose entries differ from those that the peer had when it answered
the first request. Else the peer changed meanwhile, and the comparison is given up. -/
theorem differences_exact {bucketCount : ℤ} {start : MerkleTree} (hstart : init bucketCount = .ok start)
    (htree : ∃ calls, tree = run calls start) (hpeer : ∀ k, ∃ calls, peer k = run calls start)
    (hinj : Set.InjOn Sha256.digest {x | x ∈ tree.hashed ∨ ∃ k, x ∈ (peer k).hashed}) :
    (∃ buckets, differences tree peer = .ok ((peer 0).rootHash, buckets) ∧ buckets.Pairwise (· < ·) ∧
      ∀ b, b ∈ buckets ↔ b < start.bucketCount ∧ ¬ (tree.bucket b).Equiv ((peer 0).bucket b)) ∨
    (∃ k, (peer k).rootHash ≠ (peer 0).rootHash) ∧
      differences tree peer = .error "Merkle view changed; retry repair" := by
  obtain ⟨hc, hm⟩ := init_spec hstart
  have hcount := hc.count
  rw [← hcount] at hc hm
  obtain ⟨calls, rfl⟩ := htree
  obtain ⟨h, -⟩ := hc.run hm calls
  choose history hhistory using hpeer
  have hrun (k : ℕ) : Consistent start.bucketCount (peer k) ∧
      Holds start.bucketCount (contents (history k)) (peer k) := hhistory k ▸ hc.run hm (history k)
  have hview (k : ℕ) (hroot : (peer k).rootHash = (peer 0).rootHash) : (peer k).heap = (peer 0).heap := by
    have hmap := (hrun k).1.map_eq_of_root (hrun 0).1 (hrun k).2 (hrun 0).2 (hinj.mono fun x hx =>
      .inr ((mem_append.mp hx).elim (fun hx => ⟨k, hx⟩) fun hx => ⟨0, hx⟩)) hroot
    exact ((hrun k).1.agree (hrun 0).1 (hrun k).2 (hmap ▸ (hrun 0).2)).2.2.1
  have hpair := hinj.mono fun x (hx : x ∈ (run calls start).hashed ++ (peer 0).hashed) =>
    (mem_append.mp hx).imp_right fun hx => ⟨0, hx⟩
  have hup := h.upward (hrun 0).1 hpair
  have hfirst : Frontier start.bucketCount (differs (run calls start) (peer 0)) 1 [1] [] := by
    have hpos := hc.pos
    constructor <;> grind
  rw [differences, h.count]
  refine (differencesFrom_spec h (fun k => (hrun k).1) hview hup (.inr ⟨rfl, rfl, by simp⟩) (Nat.lt_succ_self _)
    hfirst).imp_left fun hfound => ?_
  obtain ⟨buckets, low, hreturned, hlast⟩ := hfound
  refine ⟨buckets, hreturned, hlast.sorted, fun b => ?_⟩
  rw [hlast.mem_iff hup]
  exact and_congr_right fun hb => h.differs_leaf (hrun 0).1 hpair hb

/-- One bucket: a key that the peer does not have. -/
theorem differences_exact_one :
    let b : Text := ⟨"b", by decide⟩
    ∃ start, init 1 = .ok start ∧ ∃ root buckets,
      differences (run [.update b b] start) (fun _ => run [] start) = .ok (root, buckets) ∧ 0 ∈ buckets := by
  intro b
  let start := freshlyBuilt 1 SortedMap.empty
  have hinj : ∀ x ∈ (run [.update b b] start).hashed ++ start.hashed, ∀ y ∈ (run [.update b b] start).hashed ++ start.hashed,
      Sha256.digest x = Sha256.digest y → x = y := by decide +kernel
  have hhashed (x : List UInt8) (hx : x ∈ (run [.update b b] start).hashed ∨ ∃ k : ℕ, x ∈ start.hashed) :=
    mem_append.mpr (hx.imp_right fun hx => hx.elim fun _ hx => hx)
  obtain ⟨buckets, hrun, -, hmem⟩ | ⟨⟨_, hchanged⟩, -⟩ := differences_exact (show init 1 = .ok start from rfl)
    ⟨[.update b b], rfl⟩ (fun _ => ⟨[], rfl⟩) fun x hx y hy => hinj x (hhashed x hx) y (hhashed y hy)
  · exact ⟨start, rfl, _, buckets, hrun, (hmem 0).mpr ⟨by decide, fun hequiv => absurd (hequiv b) (by decide +kernel)⟩⟩
  · exact absurd rfl hchanged

end SystemDesign.KvStore.MerkleTree
