import SystemDesign.KvStore.MerkleTracks

/-!
# Roots and maps

What a tree hashes can be read back: parts are framed by their lengths, digests have one length, and the hash of an
empty bucket is no digest's text. So where the digests of the hashed byte strings are distinct, the root determines
every bucket (`Consistent.map_eq_of_root`), and the tree after any calls is the one built from their map
(`merkle_follows_map`).
-/

namespace SystemDesign.KvStore

open List hiding lt_trans
open SortedKeys HeapTree

/-! ### Framing -/

theorem framed_append_inj {a b : Text} {s t : List UInt8} (h : framed a ++ s = framed b ++ t) : a = b ∧ s = t := by
  unfold framed at h
  rw [append_assoc, append_assoc] at h
  obtain ⟨hwidth, h⟩ := append_inj h (by rw [Sha256.bigEndian_length, Sha256.bigEndian_length])
  have hlength : (utf8Bytes a).length = (utf8Bytes b).length := by
    have hread := congrArg ofBigEndian hwidth
    rwa [ofBigEndian_bigEndian (lt_trans a.2 (by decide)), ofBigEndian_bigEndian (lt_trans b.2 (by decide))] at hread
  obtain ⟨hbytes, hrest⟩ := append_inj h hlength
  have htext : ofUtf8Bytes (utf8Bytes a) = some b.1 := ofUtf8Bytes_eq_some.mpr hbytes
  rw [ofUtf8Bytes_eq_some.mpr rfl] at htext
  exact ⟨Subtype.ext (Option.some.inj htext), hrest⟩

theorem framed_ne_nil (part : Text) : framed part ≠ [] := by
  intro h
  have := congrArg List.length h
  rw [framed, length_append, Sha256.bigEndian_length, length_nil] at this
  omega

variable {keys : List Text} {d : Dict Text Text}

/-- The keys and their values are read back from what is hashed of a bucket. -/
theorem hashedBytes_inj {keys' : List Text} {d' : Dict Text Text}
    (hd : ∀ key ∈ keys, ∃ value, d.get? key = some value) (hd' : ∀ key ∈ keys', ∃ value, d'.get? key = some value)
    (h : hashedBytes keys d = hashedBytes keys' d') : keys = keys' ∧ ∀ key ∈ keys, d.get? key = d'.get? key := by
  induction keys generalizing keys' with
  | nil =>
    cases keys' with
    | nil => exact ⟨rfl, fun key hkey => absurd hkey not_mem_nil⟩
    | cons key' keys' =>
      have hnil := h.symm
      rw [hashedBytes, flatMap_cons, append_assoc] at hnil
      exact absurd (append_eq_nil_iff.mp hnil).1 (framed_ne_nil key')
  | cons key keys ih =>
    cases keys' with
    | nil =>
      rw [hashedBytes, flatMap_cons, append_assoc] at h
      exact absurd (append_eq_nil_iff.mp h).1 (framed_ne_nil key)
    | cons key' keys' =>
      obtain ⟨value, hvalue⟩ := hd key mem_cons_self
      obtain ⟨value', hvalue'⟩ := hd' key' mem_cons_self
      rw [hashedBytes, hashedBytes, flatMap_cons, flatMap_cons, hvalue, hvalue', Option.elim_some,
        Option.elim_some, append_assoc, append_assoc] at h
      obtain ⟨hkey, hafter⟩ := framed_append_inj h
      obtain ⟨hsame, hlater⟩ := framed_append_inj hafter
      subst hkey hsame
      obtain ⟨rfl, hrest⟩ := ih (fun k hk => hd k (mem_cons_of_mem _ hk))
        (fun k hk => hd' k (mem_cons_of_mem _ hk)) hlater
      refine ⟨rfl, fun k hk => ?_⟩
      rcases mem_cons.mp hk with rfl | hk
      · rw [hvalue, hvalue']
      · exact hrest k hk

/-! ### Digests as texts -/

theorem digitChar_inj : ∀ a < 16, ∀ b < 16, Nat.digitChar a = Nat.digitChar b → a = b := by decide

theorem hexBytes_inj {s t : List UInt8} (h : s.flatMap Sha256.hexByte = t.flatMap Sha256.hexByte) : s = t := by
  induction s generalizing t with
  | nil =>
    cases t with
    | nil => rfl
    | cons y t => exact absurd h.symm (by simp [Sha256.hexByte])
  | cons x s ih =>
    cases t with
    | nil => exact absurd h (by simp [Sha256.hexByte])
    | cons y t =>
      have hx : x.toNat < 256 := x.toNat_lt
      have hy : y.toNat < 256 := y.toNat_lt
      rw [flatMap_cons, flatMap_cons] at h
      obtain ⟨hbyte, hrest⟩ := append_inj h rfl
      obtain ⟨hhigh, hlow⟩ := List.cons.inj hbyte
      have hhigh := digitChar_inj _ (by omega) _ (by omega) hhigh
      have hlow := digitChar_inj _ (by omega) _ (by omega) (List.cons.inj hlow).1
      obtain rfl : x = y := UInt8.toNat_inj.mp (by omega)
      rw [ih hrest]

theorem hex_inj {s t : List UInt8} (h : hex s = hex t) : s = t := hexBytes_inj (String.ofList_injective h)

/-- A digest's text is not the empty one. -/
theorem hex_digest_ne (data : List UInt8) : hex (Sha256.digest data) ≠ "" := by
  intro h
  have hnil : Sha256.digest data = [] := hex_inj (h.trans rfl)
  have hlength := Sha256.digest_length data
  rw [hnil] at hlength
  exact absurd hlength (by decide)

theorem get?_of_isEmpty (h : d.entries.isEmpty = true) (key : Text) : d.get? key = none := by
  rw [Dict.get?, List.isEmpty_iff.mp h]
  rfl

namespace MerkleTree

variable {n : ℕ} {tree tree' : MerkleTree} {m m' : SortedMap Text Text}

/-- The same keys, bucket hashes, heap and root. -/
def SameHashes (tree tree' : MerkleTree) : Prop :=
  tree.bucketKeys = tree'.bucketKeys ∧ tree.bucketHashes = tree'.bucketHashes ∧ tree.heap = tree'.heap ∧
    tree.rootHash = tree'.rootHash

/-! ### One map, one tree -/

variable {i : ℕ}

theorem Consistent.keysOf_eq (h : Consistent n tree) (h' : Consistent n tree') (hm : Holds n m tree)
    (hm' : Holds n m tree') (hi : i < n) : tree.keysOf i = tree'.keysOf i :=
  eq_of_mem_iff (h.sorted i hi) (h'.sorted i hi) fun key => by
    rw [h.mem_keys i hi, h'.mem_keys i hi, hm i hi, hm' i hi]

theorem bucketHash_congr {d' : Dict Text Text} (h : d.Equiv d') : bucketHash keys d = bucketHash keys d' := by
  have hempty : d.entries.isEmpty = d'.entries.isEmpty := by
    rw [Bool.eq_iff_iff, isEmpty_iff_length_eq_zero, isEmpty_iff_length_eq_zero, h.entries_perm.length_eq]
  have hbytes : hashedBytes keys d = hashedBytes keys d' := by
    unfold hashedBytes
    exact congrArg (List.flatMap · keys) (funext fun key => by rw [h key])
  rw [bucketHash, bucketHash, hempty, hbytes]

theorem eq_of_getD {α : Type} {l l' : List α} {d : α} (hlength : l.length = n) (hlength' : l'.length = n)
    (h : ∀ i < n, l.getD i d = l'.getD i d) : l = l' := by
  refine ext_getElem (by omega) fun i hi hi' => ?_
  have hat := h i (by omega)
  rwa [getD_eq_getElem _ _ hi, getD_eq_getElem _ _ hi'] at hat

theorem Consistent.agree (h : Consistent n tree) (h' : Consistent n tree') (hm : Holds n m tree)
    (hm' : Holds n m tree') : SameHashes tree tree' := by
  have hkeys : ∀ i < n, tree.keysOf i = tree'.keysOf i := fun i hi => h.keysOf_eq h' hm hm' hi
  have hhashes : ∀ i < n, tree.bucketHashes.getD i "" = tree'.bucketHashes.getD i "" := fun i hi => by
    have hequiv : (tree.bucket i).Equiv (tree'.bucket i) := fun key => by rw [hm i hi, hm' i hi]
    rw [h.hash_eq i hi, h'.hash_eq i hi, hkeys i hi, bucketHash_congr hequiv]
  have hheap : tree.heap = tree'.heap :=
    h.combined.eq_of_leaves h'.combined h.heap_length h'.heap_length (h.blank_eq.trans h'.blank_eq.symm)
      fun leaf hleaf => by rw [h.leaf_eq leaf hleaf, h'.leaf_eq leaf hleaf, hhashes leaf hleaf]
  exact ⟨eq_of_getD h.keys_length h'.keys_length hkeys, eq_of_getD h.hashes_length h'.hashes_length hhashes, hheap,
    by rw [h.root_eq, h'.root_eq, hheap]⟩

/-! ### One root, one map -/

theorem Consistent.digest_length (h : Consistent n tree) (hpos : 1 ≤ i) (hi : i < 2 * n) :
    (tree.heap.getD i []).length = 32 := by
  by_cases hinner : i < n
  · rw [h.combined i hpos hinner]
    exact Sha256.digest_length _
  · have hleaf := h.leaf_eq (i - n) (by omega)
    rw [show n + (i - n) = i by omega] at hleaf
    rw [hleaf]
    exact Sha256.digest_length _

theorem Consistent.bytes_mem (h : Consistent n tree) (hi : i < n) :
    hashedBytes (tree.keysOf i) (tree.bucket i) ∈ tree.hashed := by
  refine mem_append_left _ (mem_append_left _ (mem_map.mpr ⟨i, ?_, rfl⟩))
  exact mem_range.mpr (h.count ▸ hi)

theorem Consistent.text_mem (h : Consistent n tree) (hi : i < n) :
    utf8Bytes (tree.bucketHashes.getD i "") ∈ tree.hashed := by
  refine mem_append_left _ (mem_append_right _ (mem_map.mpr ⟨_, ?_, rfl⟩))
  have hlt : i < tree.bucketHashes.length := h.hashes_length.symm ▸ hi
  rw [getD_eq_getElem _ _ hlt]
  exact getElem_mem hlt

theorem Consistent.pair_mem (h : Consistent n tree) (hpos : 1 ≤ i) (hi : i < n) :
    tree.heap.getD (i * 2) [] ++ tree.heap.getD (i * 2 + 1) [] ∈ tree.hashed := by
  refine mem_append_right _ (mem_map.mpr ⟨i, ?_, rfl⟩)
  rw [mem_range'_1, h.count]
  omega

/-- A bucket's hash gives its entries back. -/
theorem get?_eq_of_bucketHash {keys' : List Text} {d' : Dict Text Text}
    (hmem : ∀ key, key ∈ keys ↔ ∃ value, d.get? key = some value)
    (hmem' : ∀ key, key ∈ keys' ↔ ∃ value, d'.get? key = some value)
    (hdigest : Sha256.digest (hashedBytes keys d) = Sha256.digest (hashedBytes keys' d') → hashedBytes keys d = hashedBytes keys' d')
    (h : bucketHash keys d = bucketHash keys' d') (key : Text) : d.get? key = d'.get? key := by
  unfold bucketHash at h
  by_cases hempty : d.entries.isEmpty = true
  · by_cases hempty' : d'.entries.isEmpty = true
    · rw [get?_of_isEmpty hempty, get?_of_isEmpty hempty']
    · rw [if_pos hempty, if_neg hempty'] at h
      exact absurd h.symm (hex_digest_ne _)
  · by_cases hempty' : d'.entries.isEmpty = true
    · rw [if_neg hempty, if_pos hempty'] at h
      exact absurd h (hex_digest_ne _)
    · rw [if_neg hempty, if_neg hempty'] at h
      obtain ⟨rfl, hvalues⟩ := hashedBytes_inj (fun k hk => (hmem k).mp hk) (fun k hk => (hmem' k).mp hk)
        (hdigest (hex_inj h))
      by_cases hkey : key ∈ keys
      · exact hvalues key hkey
      · have hnone := Option.eq_none_iff_forall_not_mem.mpr fun value hv => hkey ((hmem key).mpr ⟨value, hv⟩)
        have hnone' := Option.eq_none_iff_forall_not_mem.mpr fun value hv => hkey ((hmem' key).mpr ⟨value, hv⟩)
        rw [hnone, hnone']

theorem Consistent.map_eq_of_root (h : Consistent n tree) (h' : Consistent n tree') (hm : Holds n m tree)
    (hm' : Holds n m' tree') (hinj : Set.InjOn Sha256.digest {x | x ∈ tree.hashed ++ tree'.hashed})
    (hroot : tree.rootHash = tree'.rootHash) : m = m' := by
  have hleft {x : List UInt8} (hx : x ∈ tree.hashed) : x ∈ {x | x ∈ tree.hashed ++ tree'.hashed} := mem_append_left _ hx
  have hright {x : List UInt8} (hx : x ∈ tree'.hashed) : x ∈ {x | x ∈ tree.hashed ++ tree'.hashed} :=
    mem_append_right _ hx
  rw [h.root_eq, h'.root_eq] at hroot
  have hheap : ∀ i, 1 ≤ i → i < 2 * n → tree.heap.getD i [] = tree'.heap.getD i [] := fun i hpos hi => by
    refine h.combined.leaf_eq_of_root h'.combined (fun j hj hjn heq => ?_) (hex_inj hroot) hpos hi
    have hpair := hinj (hleft (h.pair_mem hj hjn)) (hright (h'.pair_mem hj hjn)) heq
    exact append_inj hpair (by rw [h.digest_length (by omega) (by omega), h'.digest_length (by omega) (by omega)])
  refine SortedMap.ext_get? fun key => ?_
  have hi := keyToBucket_lt h.pos key
  have hleaf := hheap (n + keyToBucket n key) (by omega) (by omega)
  rw [h.leaf_eq _ hi, h'.leaf_eq _ hi] at hleaf
  have htext := hinj (hleft (h.text_mem hi)) (hright (h'.text_mem hi)) hleaf
  have hhash : tree.bucketHashes.getD (keyToBucket n key) "" = tree'.bucketHashes.getD (keyToBucket n key) "" :=
    Option.some.inj ((ofUtf8Bytes_eq_some.mpr rfl).symm.trans (ofUtf8Bytes_eq_some.mpr htext))
  rw [h.hash_eq _ hi, h'.hash_eq _ hi] at hhash
  have hget := get?_eq_of_bucketHash (h.mem_keys _ hi) (h'.mem_keys _ hi)
    (fun heq => hinj (hleft (h.bytes_mem hi)) (hright (h'.bytes_mem hi)) heq) hhash key
  rwa [hm _ hi, hm' _ hi, if_pos rfl, if_pos rfl] at hget

/-! ### The trees of a run -/

theorem init_spec {bucketCount : ℤ} {start : MerkleTree} (h : init bucketCount = .ok start) :
    Consistent bucketCount.toNat start ∧ Holds bucketCount.toNat SortedMap.empty start := by
  unfold init at h
  dsimp only at h
  split at h
  · cases h
  · rename_i hok
    cases h
    have hpos : 0 < bucketCount.toNat := by omega
    have hbucket (i : ℕ) (hi : i < bucketCount.toNat) :
        (List.replicate bucketCount.toNat (Dict.empty : Dict Text Text)).getD i Dict.empty = Dict.empty := by
      rw [getD_eq_getElem _ _ (by rwa [length_replicate]), getElem_replicate]
    have hkeys (i : ℕ) (hi : i < bucketCount.toNat) :
        (List.replicate bucketCount.toNat ([] : List Text)).getD i [] = [] := by
      rw [getD_eq_getElem _ _ (by rwa [length_replicate]), getElem_replicate]
    exact recomputeAll_spec hpos rfl length_replicate length_replicate length_replicate (fun i hi => by
        rw [keysOf, hkeys i hi]
        exact List.Pairwise.nil)
      (fun i hi key => by
        rw [keysOf, hkeys i hi, bucket, hbucket i hi]
        simp)
      (fun i hi key => by
        rw [bucket, hbucket i hi]
        simp)

theorem bucketOf_get? (n : ℕ) (m : SortedMap Text Text) (i : ℕ) (key : Text) :
    (bucketOf n m i).get? key = if keyToBucket n key = i then m.get? key else none := by
  refine Option.ext fun value => ?_
  show (bucketOf n m i).get? key = some value ↔ _
  rw [← Dict.mem_entries, bucketOf, mem_filter]
  split
  · rename_i hi
    rw [SortedMap.mem_entries]
    simp [hi]
  · rename_i hi
    simp [hi]

theorem freshlyBuilt_spec (hpos : 0 < n) (m : SortedMap Text Text) :
    Consistent n (freshlyBuilt n m) ∧ Holds n m (freshlyBuilt n m) := by
  have hbucket (i : ℕ) (hi : i < n) : ((List.range n).map (bucketOf n m)).getD i Dict.empty = bucketOf n m i := by
    rw [getD_eq_getElem _ _ (by rwa [length_map, length_range]), getElem_map, getElem_range]
  have hkeys (i : ℕ) (hi : i < n) :
      (((List.range n).map (bucketOf n m)).map Dict.keys).getD i [] = (bucketOf n m i).keys := by
    rw [getD_eq_getElem _ _ (by rwa [length_map, length_map, length_range]), getElem_map, getElem_map, getElem_range]
  refine recomputeAll_spec hpos rfl (by simp) (by simp) (by simp) (fun i hi => ?_) (fun i hi key => ?_)
    (fun i hi key => ?_)
  · rw [keysOf, hkeys i hi]
    exact m.sorted.sublist (filter_sublist.map Prod.fst)
  · rw [keysOf, hkeys i hi, bucket, hbucket i hi, Dict.mem_keys]
  · rw [bucket, hbucket i hi, bucketOf_get?]

/-- After any calls the tree is the one built from the map they leave. Trees of one map agree, and while the hashed
byte strings have distinct digests only they have one root. -/
theorem merkle_follows_map {bucketCount : ℤ} {start : MerkleTree} (hstart : init bucketCount = .ok start)
    (calls : List Call) :
    SameHashes (run calls start) (freshlyBuilt start.bucketCount (contents calls)) ∧
      (∀ key, (run calls start).valueHash key = (contents calls).get? key) ∧
      ∀ calls', (contents calls = contents calls' → SameHashes (run calls start) (run calls' start)) ∧
        (Set.InjOn Sha256.digest {x | x ∈ (run calls start).hashed ++ (run calls' start).hashed} →
          ((run calls start).rootHash = (run calls' start).rootHash ↔ contents calls = contents calls')) := by
  obtain ⟨hc, hm⟩ := init_spec hstart
  have hcount := hc.count
  rw [← hcount] at hc hm
  have hrun (calls : List Call) : Consistent start.bucketCount (run calls start) ∧
      Holds start.bucketCount (contents calls) (run calls start) := hc.run hm calls
  obtain ⟨h, hholds⟩ := hrun calls
  obtain ⟨hfresh, hfreshHolds⟩ := freshlyBuilt_spec hc.pos (contents calls)
  refine ⟨h.agree hfresh hholds hfreshHolds, h.valueHash_eq hholds, fun calls' => ?_⟩
  obtain ⟨h', hholds'⟩ := hrun calls'
  have hsame (heq : contents calls = contents calls') : SameHashes (run calls start) (run calls' start) :=
    h.agree h' hholds (heq ▸ hholds')
  exact ⟨hsame, fun hinj => ⟨h.map_eq_of_root h' hholds hholds' hinj, fun heq => (hsame heq).2.2.2⟩⟩

/-- One bucket: a key updated, and the key removed again. The roots differ. -/
theorem merkle_follows_map_one :
    let a : Text := ⟨"a", by decide⟩
    ∃ start, init 1 = .ok start ∧
      (run [.update a a] start).rootHash ≠ (run [.update a a, .remove a] start).rootHash := by
  intro a
  refine ⟨freshlyBuilt 1 SortedMap.empty, rfl, fun hroot => ?_⟩
  have hinj : ∀ x ∈ (run [.update a a] (freshlyBuilt 1 SortedMap.empty)).hashed
        ++ (run [.update a a, .remove a] (freshlyBuilt 1 SortedMap.empty)).hashed,
      ∀ y ∈ (run [.update a a] (freshlyBuilt 1 SortedMap.empty)).hashed
        ++ (run [.update a a, .remove a] (freshlyBuilt 1 SortedMap.empty)).hashed,
      Sha256.digest x = Sha256.digest y → x = y := by decide +kernel
  have hmaps := (((merkle_follows_map (show init 1 = .ok (freshlyBuilt 1 SortedMap.empty) from rfl)
    [.update a a]).2.2 [.update a a, .remove a]).2 fun x hx y hy => hinj x hx y hy).mp hroot
  have hget := congrArg (fun m => m.get? a) hmaps
  exact absurd hget (by decide)

end MerkleTree

end SystemDesign.KvStore
