import SystemDesign.Lib.Binary
import SystemDesign.Lib.DictEntries
import SystemDesign.Lib.HeapTree
import SystemDesign.Lib.Sha256
import SystemDesign.Lib.Bisect
import SystemDesign.Lib.SortedMap

/-!
# The Merkle tree of a replica's keys

`MerkleTree`: keys spread over buckets by their digest, a hash of each bucket, and a binary heap of digests over the
bucket hashes. `update` and `remove` change one bucket and the digests above it; `recomputeAll` hashes everything anew.

A tree is a record of what the object keeps. `contents` is the map that a sequence of calls leaves, and `freshlyBuilt`
the tree hashed from such a map at once.
-/

namespace SystemDesign.KvStore

open SortedKeys HeapTree

/-- A text whose UTF-8 bytes Python can hold: their number fits its sizes. -/
abbrev Text := {text : String // (utf8Bytes text).length < 2 ^ 63}

structure MerkleTree where
  bucketCount : ℕ
  buckets : List (Dict Text Text)
  bucketKeys : List (List Text)
  bucketHashes : List String
  heap : List (List UInt8)
  rootHash : String

/-- `bytes.hex()` -/
def hex (bytes : List UInt8) : String := String.ofList (bytes.flatMap Sha256.hexByte)

/-- `len(part).to_bytes(8, "big")` and the part. -/
def framed (part : Text) : List UInt8 := Sha256.bigEndian 8 (utf8Bytes part).length ++ utf8Bytes part

/-- What `_recompute_bucket` feeds to the hasher. Every listed key is in the bucket (`Consistent`). -/
def hashedBytes (keys : List Text) (bucket : Dict Text Text) : List UInt8 :=
  keys.flatMap fun key => framed key ++ (bucket.get? key).elim [] framed

def bucketHash (keys : List Text) (bucket : Dict Text Text) : String :=
  if bucket.entries.isEmpty then "" else hex (Sha256.digest (hashedBytes keys bucket))

/-- The digest at a leaf: of the bucket hash's text. -/
def leafDigest (value : String) : List UInt8 := Sha256.digest (utf8Bytes value)

def nodeDigest (left right : List UInt8) : List UInt8 := Sha256.digest (left ++ right)

namespace MerkleTree

def bucket (tree : MerkleTree) (bucketId : ℕ) : Dict Text Text := tree.buckets.getD bucketId Dict.empty

def keysOf (tree : MerkleTree) (bucketId : ℕ) : List Text := tree.bucketKeys.getD bucketId []

/-- `_key_to_bucket` -/
def keyToBucket (bucketCount : ℕ) (key : Text) : ℕ :=
  ((Sha256.digest (utf8Bytes key)).take 4).foldl (fun n b => 256 * n + b.toNat) 0 % bucketCount

def recomputeBucket (tree : MerkleTree) (bucketId : ℕ) : MerkleTree :=
  { tree with
    bucketHashes := tree.bucketHashes.set bucketId (bucketHash (tree.keysOf bucketId) (tree.bucket bucketId)) }

/-- The leaves are as many as the bucket hashes. -/
def recomputeRoot (tree : MerkleTree) : MerkleTree :=
  let leaves := List.replicate tree.bucketCount [] ++ tree.bucketHashes.map leafDigest
  let heap := combineDown nodeDigest [] (tree.bucketCount - 1) leaves
  { tree with heap, rootHash := hex (heap.getD 1 []) }

def updatePath (tree : MerkleTree) (bucketId : ℕ) : MerkleTree :=
  let index := tree.bucketCount + bucketId
  let heap := climb nodeDigest [] (tree.heap.set index (leafDigest (tree.bucketHashes.getD bucketId ""))) index
  { tree with heap, rootHash := hex (heap.getD 1 []) }

def recomputeAll (tree : MerkleTree) : MerkleTree :=
  ((List.range tree.bucketCount).foldl recomputeBucket tree).recomputeRoot

/-- `MerkleTree(bucket_count)`; the error is the text of its `ValueError`. -/
def init (bucketCount : ℤ) : Except String MerkleTree :=
  let n := bucketCount.toNat
  if ¬ (1 ≤ bucketCount ∧ bucketCount ≤ 65536) ∨ n &&& (n - 1) ≠ 0 then
    .error "bucket_count must be a positive power of 2"
  else
    .ok (recomputeAll
      { bucketCount := n
        buckets := List.replicate n Dict.empty
        bucketKeys := List.replicate n []
        bucketHashes := List.replicate n ""
        heap := []
        rootHash := "" })

def update (key valueHash : Text) (tree : MerkleTree) : MerkleTree :=
  let bucketId := keyToBucket tree.bucketCount key
  let bucket := tree.bucket bucketId
  if bucket.get? key = some valueHash then tree
  else
    let keys := tree.keysOf bucketId
    let changed :=
      { tree with
        bucketKeys :=
          if bucket.contains key then tree.bucketKeys else tree.bucketKeys.set bucketId (insertLeft keys key)
        buckets := tree.buckets.set bucketId (bucket.set key valueHash) }
    (changed.recomputeBucket bucketId).updatePath bucketId

def remove (key : Text) (tree : MerkleTree) : MerkleTree :=
  let bucketId := keyToBucket tree.bucketCount key
  let bucket := tree.bucket bucketId
  if bucket.contains key then
    let changed :=
      { tree with
        buckets := tree.buckets.set bucketId (bucket.erase key)
        bucketKeys := tree.bucketKeys.set bucketId (popLeft (tree.keysOf bucketId) key) }
    (changed.recomputeBucket bucketId).updatePath bucketId
  else tree

/-- `value_hash(key)` -/
def valueHash (tree : MerkleTree) (key : Text) : Option Text :=
  (tree.bucket (keyToBucket tree.bucketCount key)).get? key

/-! ### Sequences of calls -/

inductive Call where
  | update (key valueHash : Text)
  | remove (key : Text)

def call : Call → MerkleTree → MerkleTree
  | .update key valueHash, tree => tree.update key valueHash
  | .remove key, tree => tree.remove key

def run (calls : List Call) (tree : MerkleTree) : MerkleTree := calls.foldl (fun tree c => call c tree) tree

/-- The map of keys to hashes that one call leaves. -/
def mapped : Call → SortedMap Text Text → SortedMap Text Text
  | .update key valueHash, m => m.insert key valueHash
  | .remove key, m => m.erase key

def contents (calls : List Call) : SortedMap Text Text := calls.foldl (fun m c => mapped c m) SortedMap.empty

/-- The part of a map that falls into one bucket, in key order. -/
def bucketOf (bucketCount : ℕ) (m : SortedMap Text Text) (bucketId : ℕ) : Dict Text Text where
  entries := m.entries.filter fun e => keyToBucket bucketCount e.1 = bucketId
  nodup := (List.filter_sublist.map Prod.fst).nodup m.nodup

/-- A tree given a map's entries and hashed at once. -/
def freshlyBuilt (bucketCount : ℕ) (m : SortedMap Text Text) : MerkleTree :=
  let buckets := (List.range bucketCount).map (bucketOf bucketCount m)
  recomputeAll
    { bucketCount
      buckets
      bucketKeys := buckets.map Dict.keys
      bucketHashes := List.replicate bucketCount ""
      heap := []
      rootHash := "" }

/-- Everything that is hashed to get from the tree's buckets to its root. -/
def hashed (tree : MerkleTree) : List (List UInt8) :=
  (List.range tree.bucketCount).map (fun i => hashedBytes (tree.keysOf i) (tree.bucket i))
    ++ tree.bucketHashes.map utf8Bytes
    ++ (List.range' 1 (tree.bucketCount - 1)).map fun i => tree.heap.getD (i * 2) [] ++ tree.heap.getD (i * 2 + 1) []

end MerkleTree

end SystemDesign.KvStore
