import SystemDesign.KvStore.Merkle

/-!
# The tree follows its map

`Consistent` says what recomputing everything would leave unchanged: each bucket's keys sorted and complete, its hash
and the digests above it up to date. Every call keeps it (`Consistent.call`), with the entries that the map of the call
gives (`Holds.call`). Two consistent trees that hold one map agree in keys, hashes, heap and root (`Consistent.agree`),
and while no two of the hashed byte strings share a digest the root gives the map back (`Consistent.map_eq_of_root`).
-/

namespace SystemDesign.KvStore.MerkleTree

open SortedKeys HeapTree List

variable {n b : ℕ} {tree tree' : MerkleTree} {m m' : SortedMap Text Text}

structure Consistent (n : ℕ) (tree : MerkleTree) : Prop where
  pos : 0 < n
  count : tree.bucketCount = n
  buckets_length : tree.buckets.length = n
  keys_length : tree.bucketKeys.length = n
  hashes_length : tree.bucketHashes.length = n
  heap_length : tree.heap.length = 2 * n
  sorted : ∀ i < n, (tree.keysOf i).Pairwise (· < ·)
  mem_keys : ∀ i < n, ∀ key, key ∈ tree.keysOf i ↔ ∃ value, (tree.bucket i).get? key = some value
  hash_eq : ∀ i < n, tree.bucketHashes.getD i "" = bucketHash (tree.keysOf i) (tree.bucket i)
  leaf_eq : ∀ i < n, tree.heap.getD (n + i) [] = leafDigest (tree.bucketHashes.getD i "")
  blank_eq : tree.heap.getD 0 [] = []
  combined : Combined nodeDigest [] n tree.heap
  root_eq : tree.rootHash = hex (tree.heap.getD 1 [])

/-- The buckets hold the map's entries, each in the bucket of its key. -/
def Holds (n : ℕ) (m : SortedMap Text Text) (tree : MerkleTree) : Prop :=
  ∀ i < n, ∀ key, (tree.bucket i).get? key = if keyToBucket n key = i then m.get? key else none

theorem keyToBucket_lt (hpos : 0 < n) (key : Text) : keyToBucket n key < n := Nat.mod_lt _ hpos

theorem Consistent.valueHash_eq (h : Consistent n tree) (hm : Holds n m tree) (key : Text) :
    tree.valueHash key = m.get? key := by
  rw [valueHash, h.count, hm _ (keyToBucket_lt h.pos key), if_pos rfl]

/-! ### Hashing everything -/

theorem foldl_recomputeBucket (ids : List ℕ) (tree : MerkleTree) (hids : ∀ i ∈ ids, i < tree.bucketHashes.length) :
    ∃ hashes, ids.foldl recomputeBucket tree = { tree with bucketHashes := hashes } ∧
      hashes.length = tree.bucketHashes.length ∧
      ∀ i, i ∈ ids → hashes.getD i "" = bucketHash (tree.keysOf i) (tree.bucket i) := by
  induction ids using List.reverseRecOn with
  | nil => exact ⟨tree.bucketHashes, rfl, rfl, fun i hi => absurd hi not_mem_nil⟩
  | append_singleton ids j ih =>
    obtain ⟨hashes, heq, hlength, hat⟩ := ih fun i hi => hids i (mem_append_left _ hi)
    have hj : j < hashes.length := hlength ▸ hids j (mem_append_right _ mem_cons_self)
    refine ⟨hashes.set j (bucketHash (tree.keysOf j) (tree.bucket j)), ?_, by rw [length_set, hlength], ?_⟩
    · rw [foldl_append, heq]
      rfl
    · intro i hi
      by_cases hij : j = i
      · subst hij
        exact getD_set_self _ hj
      · rw [getD_set_of_ne _ hij]
        rcases mem_append.mp hi with hi | hi
        · exact hat i hi
        · exact absurd (mem_singleton.mp hi).symm hij

theorem consistent_recomputeAll (hpos : 0 < n) (hcount : tree.bucketCount = n) (hbuckets : tree.buckets.length = n)
    (hkeys : tree.bucketKeys.length = n) (hhashes : tree.bucketHashes.length = n)
    (hsorted : ∀ i < n, (tree.keysOf i).Pairwise (· < ·))
    (hmem : ∀ i < n, ∀ key, key ∈ tree.keysOf i ↔ ∃ value, (tree.bucket i).get? key = some value) :
    Consistent n tree.recomputeAll := by
  obtain ⟨hashes, heq, hlength, hat⟩ := foldl_recomputeBucket (List.range tree.bucketCount) tree fun i hi => by
    rw [hhashes, ← hcount]
    exact mem_range.mp hi
  unfold recomputeAll recomputeRoot
  rw [heq]
  dsimp only
  rw [hcount]
  have hleaves : (List.replicate n [] ++ hashes.map leafDigest).length = 2 * n := by
    rw [length_append, length_replicate, length_map, hlength, hhashes]
    omega
  refine
    { pos := hpos, count := rfl, buckets_length := hbuckets, keys_length := hkeys
      hashes_length := hlength.trans hhashes
      heap_length := by rw [length_combineDown, hleaves]
      sorted := hsorted, mem_keys := hmem
      hash_eq := fun i hi => hat i (mem_range.mpr (hcount ▸ hi))
      leaf_eq := fun i hi => ?_
      blank_eq := ?_
      combined := ?_
      root_eq := rfl }
  · show (combineDown nodeDigest [] (n - 1) _).getD (n + i) [] = leafDigest (hashes.getD i "")
    rw [getD_combineDown (.inl (by omega)), getD_append_right _ _ _ _ (by rw [length_replicate]; omega),
      length_replicate, show n + i - n = i by omega,
      getD_eq_getElem _ _ (by rw [length_map]; omega), getElem_map,
      getD_eq_getElem _ _ (by omega)]
  · show (combineDown nodeDigest [] (n - 1) _).getD 0 [] = []
    rw [getD_combineDown (.inr rfl), getD_append _ _ _ _ (by rw [length_replicate]; omega),
      getD_eq_getElem _ _ (by rw [length_replicate]; omega), getElem_replicate]
  · exact combined_combineDown _ (by omega) (by omega) fun i hlow hi => absurd hlow (by omega)

theorem recomputeAll_spec (hpos : 0 < n) (hcount : tree.bucketCount = n) (hbuckets : tree.buckets.length = n)
    (hkeys : tree.bucketKeys.length = n) (hhashes : tree.bucketHashes.length = n)
    (hsorted : ∀ i < n, (tree.keysOf i).Pairwise (· < ·))
    (hmem : ∀ i < n, ∀ key, key ∈ tree.keysOf i ↔ ∃ value, (tree.bucket i).get? key = some value)
    (hm : Holds n m tree) : Consistent n tree.recomputeAll ∧ Holds n m tree.recomputeAll := by
  refine ⟨consistent_recomputeAll hpos hcount hbuckets hkeys hhashes hsorted hmem, fun i hi key => ?_⟩
  obtain ⟨hashes, heq, -, -⟩ := foldl_recomputeBucket (List.range tree.bucketCount) tree fun i hi => by
    rw [hhashes, ← hcount]
    exact mem_range.mp hi
  rw [recomputeAll, heq]
  exact hm i hi key

/-! ### Hashing one bucket anew -/

/-- One bucket's keys and entries replaced. -/
def replace (tree : MerkleTree) (b : ℕ) (keys : List Text) (bucket : Dict Text Text) : MerkleTree :=
  { tree with buckets := tree.buckets.set b bucket, bucketKeys := tree.bucketKeys.set b keys }

def rehash (tree : MerkleTree) (b : ℕ) : MerkleTree := (tree.recomputeBucket b).updatePath b

theorem bucket_replace (hlength : tree.buckets.length = n) (hb : b < n) (keys : List Text) (bucket : Dict Text Text)
    (i : ℕ) : ((tree.replace b keys bucket).rehash b).bucket i = if b = i then bucket else tree.bucket i := by
  show (tree.buckets.set b bucket).getD i Dict.empty = _
  split
  · rename_i hi
    subst hi
    exact getD_set_self _ (by omega)
  · rename_i hi
    exact getD_set_of_ne _ hi

theorem keysOf_replace (hlength : tree.bucketKeys.length = n) (hb : b < n) (keys : List Text)
    (bucket : Dict Text Text) (i : ℕ) :
    ((tree.replace b keys bucket).rehash b).keysOf i = if b = i then keys else tree.keysOf i := by
  show (tree.bucketKeys.set b keys).getD i [] = _
  split
  · rename_i hi
    subst hi
    exact getD_set_self _ (by omega)
  · rename_i hi
    exact getD_set_of_ne _ hi

/-- Only the replaced bucket's hash and the digests above it are computed anew, and that is enough. -/
theorem Consistent.replace (h : Consistent n tree) (hb : b < n) {keys : List Text} {bucket : Dict Text Text}
    (hsorted : keys.Pairwise (· < ·)) (hmem : ∀ key, key ∈ keys ↔ ∃ value, bucket.get? key = some value) :
    Consistent n ((tree.replace b keys bucket).rehash b) := by
  have hbucket := bucket_replace h.buckets_length hb keys bucket
  have hkeys := keysOf_replace h.keys_length hb keys bucket
  have hhash : ((tree.replace b keys bucket).rehash b).bucketHashes
      = tree.bucketHashes.set b (bucketHash keys bucket) := by
    show tree.bucketHashes.set b (bucketHash ((tree.bucketKeys.set b keys).getD b [])
      ((tree.buckets.set b bucket).getD b Dict.empty)) = _
    rw [getD_set_self _ (h.keys_length.symm ▸ hb), getD_set_self _ (h.buckets_length.symm ▸ hb)]
  have hheap : ((tree.replace b keys bucket).rehash b).heap
      = climb nodeDigest [] (tree.heap.set (n + b) (leafDigest (bucketHash keys bucket))) (n + b) := by
    show climb nodeDigest [] (tree.heap.set (tree.bucketCount + b)
      (leafDigest (((tree.replace b keys bucket).rehash b).bucketHashes.getD b ""))) (tree.bucketCount + b) = _
    rw [hhash, getD_set_self _ (h.hashes_length.symm ▸ hb), h.count]
  exact
    { pos := h.pos
      count := h.count
      buckets_length := (length_set).trans h.buckets_length
      keys_length := (length_set).trans h.keys_length
      hashes_length := by rw [hhash, length_set, h.hashes_length]
      heap_length := by rw [hheap, length_climb, length_set, h.heap_length]
      sorted := fun i hi => by
        rw [hkeys]
        split
        · exact hsorted
        · exact h.sorted i hi
      mem_keys := fun i hi key => by
        rw [hkeys, hbucket]
        split
        · exact hmem key
        · exact h.mem_keys i hi key
      hash_eq := fun i hi => by
        rw [hhash, hkeys, hbucket]
        split
        · rename_i hbi
          subst hbi
          exact getD_set_self _ (h.hashes_length.symm ▸ hb)
        · rename_i hbi
          rw [getD_set_of_ne _ hbi, h.hash_eq i hi]
      leaf_eq := fun i hi => by
        rw [hheap, hhash, getD_climb_of_le (show n + b < 2 * n by omega) (show n ≤ n + i by omega)]
        by_cases hbi : b = i
        · subst hbi
          rw [getD_set_self _ (by rw [h.heap_length]; omega), getD_set_self _ (h.hashes_length.symm ▸ hb)]
        · rw [getD_set_of_ne _ (by omega), getD_set_of_ne _ hbi, h.leaf_eq i hi]
      blank_eq := by rw [hheap, getD_zero_climb, getD_set_of_ne _ (by have := h.pos; omega), h.blank_eq]
      combined := by
        rw [hheap]
        exact h.combined.climb_set h.heap_length (by omega) (by omega) _
      root_eq := rfl }

/-! ### The calls -/

theorem update_eq (h : Consistent n tree) (key value : Text) :
    tree.update key value = tree ∧ (tree.bucket (keyToBucket n key)).get? key = some value ∨
    ∃ keys, tree.update key value
        = (tree.replace (keyToBucket n key) keys ((tree.bucket (keyToBucket n key)).set key value)).rehash
            (keyToBucket n key) ∧
      keys.Pairwise (· < ·) ∧ ∀ k, k ∈ keys ↔ k = key ∨ k ∈ tree.keysOf (keyToBucket n key) := by
  obtain rfl := h.count
  have hb := keyToBucket_lt h.pos key
  have hsorted := h.sorted _ hb
  have hmem := h.mem_keys _ hb key
  unfold MerkleTree.update
  dsimp only
  split
  · rename_i hsame
    exact .inl ⟨rfl, hsame⟩
  · refine .inr ?_
    by_cases hknown : (tree.bucket (keyToBucket tree.bucketCount key)).contains key = true
    · -- the key is listed already: the list is written back as it is
      have hlisted := hmem.mpr (Dict.contains_iff.mp hknown)
      refine ⟨tree.keysOf (keyToBucket tree.bucketCount key), ?_, hsorted, fun k => ?_⟩
      · have hset : tree.bucketKeys.set (keyToBucket tree.bucketCount key)
            (tree.keysOf (keyToBucket tree.bucketCount key)) = tree.bucketKeys := by
          have hlt : keyToBucket tree.bucketCount key < tree.bucketKeys.length := h.keys_length.symm ▸ hb
          rw [keysOf, getD_eq_getElem _ _ hlt, set_getElem_self]
        simp only [if_pos hknown, rehash, MerkleTree.replace, hset]
      · constructor
        · exact .inr
        · rintro (rfl | hk)
          · exact hlisted
          · exact hk
    · have hnew : key ∉ tree.keysOf (keyToBucket tree.bucketCount key) := fun hk =>
        hknown (Dict.contains_iff.mpr (hmem.mp hk))
      refine ⟨insertLeft (tree.keysOf (keyToBucket tree.bucketCount key)) key, ?_, pairwise_insertLeft hsorted hnew,
        fun k => mem_insertLeft⟩
      simp only [if_neg hknown, rehash, MerkleTree.replace]

theorem Consistent.update (h : Consistent n tree) (hm : Holds n m tree) (key value : Text) :
    Consistent n (tree.update key value) ∧ Holds n (m.insert key value) (tree.update key value) := by
  have hb := keyToBucket_lt h.pos key
  rcases update_eq h key value with ⟨heq, hsame⟩ | ⟨keys, heq, hsorted, hkeys⟩
  · refine ⟨by rwa [heq], fun i hi k => ?_⟩
    rw [hm _ hb, if_pos rfl] at hsame
    rw [heq, hm i hi, SortedMap.get?_insert]
    by_cases hk : k = key
    · subst hk
      rw [if_pos rfl, hsame]
    · rw [if_neg hk]
  · rw [heq]
    refine ⟨h.replace hb hsorted fun k => ?_, fun i hi k => ?_⟩
    · rw [hkeys, h.mem_keys _ hb, Dict.get?_set]
      split
      · rename_i hk
        exact ⟨fun _ => ⟨value, rfl⟩, fun _ => .inl hk⟩
      · rename_i hk
        exact ⟨fun hor => hor.resolve_left hk, .inr⟩
    · rw [bucket_replace h.buckets_length hb, SortedMap.get?_insert]
      split
      · rename_i hbi
        subst hbi
        rw [Dict.get?_set, hm _ hb]
        split
        · rename_i hk
          rw [hk, if_pos rfl]
        · rfl
      · rename_i hbi
        rw [hm i hi]
        by_cases hk : k = key
        · subst hk
          rw [if_neg hbi, if_neg hbi]
        · rw [if_neg hk]

theorem Consistent.remove (h : Consistent n tree) (hm : Holds n m tree) (key : Text) :
    Consistent n (tree.remove key) ∧ Holds n (m.erase key) (tree.remove key) := by
  have hb := keyToBucket_lt h.pos key
  have hmem := h.mem_keys _ hb
  by_cases hknown : (tree.bucket (keyToBucket n key)).contains key = true
  · have heq : tree.remove key = (tree.replace (keyToBucket n key)
        (popLeft (tree.keysOf (keyToBucket n key)) key) ((tree.bucket (keyToBucket n key)).erase key)).rehash
          (keyToBucket n key) := by
      obtain rfl := h.count
      unfold MerkleTree.remove
      simp only [if_pos hknown, rehash, MerkleTree.replace]
    have hlisted := (hmem key).mpr (Dict.contains_iff.mp hknown)
    rw [heq]
    refine ⟨h.replace hb (pairwise_popLeft (h.sorted _ hb)) fun k => ?_, fun i hi k => ?_⟩
    · rw [mem_popLeft (h.sorted _ hb) hlisted, hmem, Dict.get?_erase]
      by_cases hk : k = key <;> simp [hk]
    · rw [bucket_replace h.buckets_length hb, SortedMap.get?_erase]
      split
      · rename_i hbi
        subst hbi
        rw [Dict.get?_erase, hm _ hb]
        by_cases hk : k = key <;> simp [hk]
      · rename_i hbi
        rw [hm i hi]
        by_cases hk : k = key
        · subst hk
          rw [if_neg hbi, if_neg hbi]
        · rw [if_neg hk]
  · have heq : tree.remove key = tree := by
      unfold MerkleTree.remove
      rw [h.count]
      exact if_neg hknown
    -- an unknown key is not in the map either
    have hnone : m.get? key = none := by
      rw [← h.valueHash_eq hm key, MerkleTree.valueHash, h.count]
      exact Dict.contains_eq_false_iff.mp (Bool.eq_false_iff.mpr hknown)
    rw [heq, SortedMap.erase_of_none hnone]
    exact ⟨h, hm⟩

theorem Consistent.call (h : Consistent n tree) (hm : Holds n m tree) (c : Call) :
    Consistent n (call c tree) ∧ Holds n (mapped c m) (call c tree) := by
  cases c with
  | update key value => exact h.update hm key value
  | remove key => exact h.remove hm key

theorem Consistent.run (h : Consistent n tree) (hm : Holds n m tree) (calls : List Call) :
    Consistent n (run calls tree) ∧ Holds n (calls.foldl (fun m c => mapped c m) m) (run calls tree) := by
  induction calls generalizing tree m with
  | nil => exact ⟨h, hm⟩
  | cons c calls ih =>
    obtain ⟨h', hm'⟩ := h.call hm c
    exact ih h' hm'

end SystemDesign.KvStore.MerkleTree
