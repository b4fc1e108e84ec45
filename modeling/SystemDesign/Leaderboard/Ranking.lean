import SystemDesign.Lib.Dict
import SystemDesign.Lib.Transaction
import SystemDesign.Lib.ZeroPadded

/-!
The answers of the shards (`projection_scripts.py`, `QUERY`) and their merging (`ranking.py`, `Service.query`).

A shard is the two sorted sets of a month as the script that fills them leaves them. What `sha256` makes of a user is a
parameter; any function from texts to numbers will do.
-/

namespace SystemDesign.Leaderboard

abbrev Text := List Char

/-- A user with a score in a season. -/
structure Player where
  user : Text
  score : ℕ

def maxScore : ℕ := 1000000000

/-- `re.fullmatch(r"[A-Za-z0-9_-]{1,64}", value)` -/
def isIdentifier (value : Text) : Bool :=
  value ≠ [] && value.length ≤ 64 && value.all fun c => c.isAlphanum || c = '_' || c = '-'

/-- `lex_member` -/
def lexMember (user : Text) (score : ℕ) : Text := zeroPadded 10 (maxScore - score) ++ ':' :: user

/-- `shard_for` -/
def shardFor (hash : Text → ℕ) (user : Text) (count : ℕ) : ℕ := hash user % count

/-- An error reply of a script, or `Error(status, message)`. -/
inductive Failure where
  | reply (text : String)
  | error (status : ℕ) (message : String)

/-- `{user, score, lex}` -/
structure Candidate where
  user : Text
  score : ℕ
  lex : Text

/-! ### The script -/

/-- The scores, negated, by user, and the members of the order in their order. -/
structure Shard where
  scores : List (Text × ℤ)
  order : List Text

/-- The two sorted sets of some players. -/
def Shard.of (players : List Player) : Shard where
  scores := players.map fun player => (player.user, -(player.score : ℤ))
  order := (players.map fun player => lexMember player.user player.score).mergeSort fun a b => decide (a ≤ b)

/-- `tonumber` of decimal digits -/
def tonumber (text : Text) : Option ℕ := if text ≠ [] ∧ text.all Char.isDigit then some (decimalValue text) else none

/-- One round of `rows`. -/
def Shard.candidate (s : Shard) (member : Text) : Except Failure Candidate :=
  match tonumber (member.take 10) with
  | none => .error (.reply "INDEX corrupt")
  | some number =>
    if (member[10]? = some ':' ∧ number ≤ maxScore) ∧
        s.scores.lookup (member.drop 11) = some (-((maxScore - number : ℕ) : ℤ)) then
      .ok ⟨member.drop 11, maxScore - number, member⟩
    else .error (.reply "INDEX corrupt")

/-- `mode == "top"` -/
def Shard.top (s : Shard) (limit : ℕ) : Except Failure (List Candidate) := (s.order.take limit).mapM s.candidate

/-- `mode == "target"` -/
def Shard.target (s : Shard) (user : Text) : Except Failure (Option Candidate) :=
  match s.scores.lookup user with
  | none => .ok none
  | some score => do
    let member := zeroPadded 10 (maxScore + score).toNat ++ ':' :: user
    let found ← s.candidate member
    require (member ∈ s.order) (.reply "INDEX corrupt")
    return some found

structure Around where
  higher : ℕ
  before : ℕ
  above : List Candidate
  below : List Candidate

/-- `mode == "around"` -/
def Shard.around (s : Shard) (pivot : Text) (score radius : ℕ) : Except Failure Around := do
  let above ← ((s.order.filter (· < pivot)).reverse.take radius).mapM s.candidate
  let below ← ((s.order.filter (pivot < ·)).take radius).mapM s.candidate
  return {
    higher := (s.scores.filter fun entry => entry.2 < -(score : ℤ)).length
    before := (s.order.filter (· < pivot)).length
    above
    below }

/-- `mode == "counts"` -/
def Shard.counts (s : Shard) (scores : List ℕ) : Dict String ℕ :=
  scores.foldl (fun counts (score : ℕ) =>
    counts.set (toString score) (s.scores.filter fun entry => entry.2 < -(score : ℤ)).length) Dict.empty

/-! ### Merging -/

variable (hash : Text → ℕ)

/-- `row` -/
def row (value : Candidate) (shard shards : ℕ) : Except Failure Candidate := do
  require (isIdentifier value.user ∧ value.score ≤ maxScore ∧ shardFor hash value.user shards = shard ∧
    value.lex = lexMember value.user value.score) (.error 502 "invalid projection candidate")
  return value

/-- `sorted(keys, reverse=descending)` -/
def sortedKeys (keys : List Text) (descending : Bool) : List Text :=
  if descending then keys.mergeSort fun a b => decide (b ≤ a) else keys.mergeSort fun a b => decide (a ≤ b)

/-- `rows` -/
def rows (values : List Candidate) (shard shards maximum : ℕ) (descending : Bool) : Except Failure (List Candidate) := do
  require (values.length ≤ maximum) (.error 502 "projection candidate budget exceeded")
  let result ← values.mapM fun value => row hash value shard shards
  let keys := result.map Candidate.lex
  require ((result.map Candidate.user).Nodup ∧ keys = sortedKeys keys descending)
    (.error 502 "projection candidate order or uniqueness invalid")
  return result

/-- `sorted(candidates, key=lambda item: item["lex"])` -/
def sortedCandidates (candidates : List Candidate) : List Candidate :=
  candidates.mergeSort fun a b => decide (a.lex ≤ b.lex)

/-- A row of an answer. -/
structure Row where
  user : Text
  score : ℕ
  rank : ℤ
  position : ℤ

/-- The loop of `top`: the rank is kept while the score is. -/
def competition : ℕ → ℕ → Option ℕ → List Candidate → List Row
  | _, _, _, [] => []
  | position, rank, previous, value :: rest =>
    let rank := if some value.score ≠ previous then position else rank
    ⟨value.user, value.score, rank, position⟩ :: competition (position + 1) rank (some value.score) rest

/-- `top` -/
def top (parts : List (List Candidate)) (shards : ℕ) : Except Failure (List Row) := do
  let candidates ← parts.zipIdx.mapM fun part => rows hash part.1 part.2 shards 10 false
  return competition 1 0 none ((sortedCandidates candidates.flatten).take 10)

/-- The loop of `neighbors`: above, below and how many are before. -/
def gather (target : Candidate) (radius shards : ℕ) (state : List Candidate × List Candidate × ℕ) (part : Around × ℕ) :
    Except Failure (List Candidate × List Candidate × ℕ) := do
  require (part.1.before ≤ 10000) (.error 502 "invalid projection position count")
  require (part.1.higher ≤ part.1.before) (.error 502 "invalid higher-score count")
  let beforeRows ← rows hash part.1.above part.2 shards radius true
  let afterRows ← rows hash part.1.below part.2 shards radius false
  require ((∀ value ∈ beforeRows, value.lex < target.lex) ∧ ∀ value ∈ afterRows, target.lex < value.lex)
    (.error 502 "projection neighbors crossed pivot")
  return (state.1 ++ beforeRows, state.2.1 ++ afterRows, state.2.2 + part.1.before)

/-- `neighbors` -/
def neighbors (target : Candidate) (parts : List Around) (radius shards : ℕ) : Except Failure (List Candidate × ℤ) := do
  let (above, below, preceding) ← parts.zipIdx.foldlM (gather hash target radius shards) ([], [], 0)
  require (preceding < 10000) (.error 502 "global position exceeds reference budget")
  let sorted := sortedCandidates above
  -- `[-radius:]` of no neighbours would be the whole list
  let above := if radius ≠ 0 then sorted.drop (sorted.length - radius) else []
  let below := (sortedCandidates below).take radius
  return (above ++ [target] ++ below, 1 + (preceding : ℤ) - above.length)

/-- `ranks` -/
def ranks (result : List Candidate) (counts : List (Dict String ℕ)) (start : ℤ) : Except Failure (List Row) := do
  let wanted := result.map fun value => toString value.score
  require (∀ part ∈ counts, (part.keys ⊆ wanted ∧ wanted ⊆ part.keys) ∧ ∀ count ∈ part.values, count ≤ 10000)
    (.error 502 "invalid strict-higher counts")
  result.zipIdx.mapM fun (value, i) => do
    let position := start + i
    let rank := 1 + (counts.map fun part => (((part.get? (toString value.score)).getD 0 : ℕ) : ℤ)).sum
    require (1 ≤ rank ∧ rank ≤ position ∧ position ≤ 10000) (.error 502 "inconsistent global rank/position")
    return ⟨value.user, value.score, rank, position⟩

/-! ### `Service.query` -/

/-- Without a user: the best ten. -/
def queryTop (store : List Shard) : Except Failure (List Row) := do
  let parts ← store.mapM fun shard => shard.top 10
  top hash parts store.length

/-- With a user: the users around. -/
def queryUser (store : List Shard) (user : Text) (radius : ℕ) : Except Failure (List Row) := do
  let owner := shardFor hash user store.length
  match ← ((store[owner]?).getD ⟨[], []⟩).target user with
  | none => throw (.error 404 "player is not in this season")
  | some target =>
    let target ← row hash target owner store.length
    require (target.user = user) (.error 502 "projection returned another target")
    let parts ← store.mapM fun shard => shard.around target.lex target.score radius
    let (result, start) ← neighbors hash target parts radius store.length
    let scores := ((result.map Candidate.score).dedup).mergeSort
    ranks result (store.map fun shard => shard.counts scores) start

end SystemDesign.Leaderboard
