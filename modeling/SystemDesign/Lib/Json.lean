import SystemDesign.Lib.Dict

/-!
JSON values as Python's `json` module reads and writes them.

`encode` is `json.dumps(value, sort_keys=True, separators=(",", ":"),
allow_nan=False)`: keys sorted at every level, ASCII output with `\u` escapes.
`loads` is `json.loads` with an `object_pairs_hook` that refuses a repeated
field. Lone surrogates, which a Python string may hold and a Lean string may
not, are refused by the reader.

A Python float is kept as the literal that `repr` prints for it, so writing a
float and reading it back gives the same value by construction; only literals
written by `encode` are ever read back here.

* `loads_encode` — reading back what was written gives the value with its keys
  sorted, for every value whose objects have no repeated key.
* `encode_eq_iff` — two such values have one text iff they agree up to key order.
-/

namespace SystemDesign

open List hiding le_antisymm le_total le_trans

/-! ### Number literals -/

def isNumChar (c : Char) : Bool := c.isDigit || c = '-' || c = '+' || c = '.' || c = 'e' || c = 'E'

/-- A decimal integer literal without leading zeros. -/
def natLiteral (cs : List Char) : Option ℕ :=
  let n := Nat.ofDigitChars 10 cs 0
  if cs = Nat.toDigits 10 n then some n else none

def intLiteral (cs : List Char) : Option ℤ :=
  if cs.head? = some '-' then (natLiteral cs.tail).map fun n : ℕ => -(n : ℤ)
  else (natLiteral cs).map fun n : ℕ => (n : ℤ)

/-- `[0-9]+` at the front of the text. -/
def digitRun (cs : List Char) : Option (List Char) :=
  if (cs.takeWhile Char.isDigit).isEmpty then none else some (cs.dropWhile Char.isDigit)

/-- `[eE][-+]?[0-9]+` up to the end of the text. -/
def isExponent : List Char → Bool
  | c :: '-' :: cs => (c = 'e' || c = 'E') && digitRun cs = some []
  | c :: '+' :: cs => (c = 'e' || c = 'E') && digitRun cs = some []
  | c :: cs => (c = 'e' || c = 'E') && digitRun cs = some []
  | [] => false

/-- What may follow the integer part of a float literal. -/
def isFraction : List Char → Bool
  | '.' :: cs => match digitRun cs with
      | none => false
      | some [] => true
      | some rest => isExponent rest
  | cs => isExponent cs

def isFloatLiteral (cs : List Char) : Bool :=
  let body := if cs.head? = some '-' then cs.tail else cs
  (natLiteral (body.takeWhile Char.isDigit)).isSome && isFraction (body.dropWhile Char.isDigit)
    && cs.all isNumChar && (intLiteral cs).isNone

/-- A finite Python float, as the literal `repr` prints for it. -/
structure FloatLit where
  text : List Char
  valid : isFloatLiteral text = true
deriving DecidableEq

/-! ### Values -/

inductive Json where
  | null
  | bool (b : Bool)
  | int (n : ℤ)
  | float (x : FloatLit)
  | str (s : String)
  | arr (items : List Json)
  | obj (fields : List (String × Json))

namespace Json

/-- `value.get(key)` on an object. -/
def get? : Json → String → Option Json
  | .obj fields, k => fields.lookup k
  | _, _ => none

/-- The keys of an object in order, `none` for any other value. -/
def keys? : Json → Option (List String)
  | .obj fields => some (fields.map Prod.fst)
  | _ => none

mutual
/-- No object inside the value repeats a key: what a Python `dict` guarantees. -/
def WF : Json → Prop
  | .arr items => ItemsWF items
  | .obj fields => (fields.map Prod.fst).Nodup ∧ FieldsWF fields
  | .null => True
  | .bool _ => True
  | .int _ => True
  | .float _ => True
  | .str _ => True
termination_by structural j => j

def ItemsWF : List Json → Prop
  | [] => True
  | x :: xs => x.WF ∧ ItemsWF xs
termination_by structural l => l

def FieldsWF : List (String × Json) → Prop
  | [] => True
  | (_, v) :: rest => v.WF ∧ FieldsWF rest
termination_by structural l => l
end

/-! ### Sorting keys -/

/-- `sorted(items)` by key. -/
def sortByKey (fields : List (String × Json)) : List (String × Json) := fields.insertionSort fun a b => a.1 ≤ b.1

mutual
def sortKeys : Json → Json
  | .arr items => .arr (sortItems items)
  | .obj fields => .obj (sortByKey (sortFields fields))
  | .null => .null
  | .bool b => .bool b
  | .int n => .int n
  | .float x => .float x
  | .str s => .str s
termination_by structural j => j

def sortItems : List Json → List Json
  | [] => []
  | x :: xs => x.sortKeys :: sortItems xs
termination_by structural l => l

def sortFields : List (String × Json) → List (String × Json)
  | [] => []
  | (k, v) :: rest => (k, v.sortKeys) :: sortFields rest
termination_by structural l => l
end

/-! ### Writing -/

/-- Four lower-case hexadecimal digits. -/
def hex4 (n : ℕ) : List Char :=
  [Nat.digitChar (n / 4096 % 16), Nat.digitChar (n / 256 % 16), Nat.digitChar (n / 16 % 16), Nat.digitChar (n % 16)]

/-- `py_encode_basestring_ascii` on one character. -/
def escape (c : Char) : List Char :=
  if c = '"' then ['\\', '"']
  else if c = '\\' then ['\\', '\\']
  else if c = '\n' then ['\\', 'n']
  else if c = '\r' then ['\\', 'r']
  else if c = '\t' then ['\\', 't']
  else if c.toNat = 8 then ['\\', 'b']
  else if c.toNat = 12 then ['\\', 'f']
  else if 32 ≤ c.toNat ∧ c.toNat < 127 then [c]
  else if c.toNat < 65536 then '\\' :: 'u' :: hex4 c.toNat
  else
    -- a surrogate pair
    '\\' :: 'u' :: (hex4 (0xd800 + (c.toNat - 0x10000) / 1024) ++
      '\\' :: 'u' :: hex4 (0xdc00 + (c.toNat - 0x10000) % 1024))

def quote (s : String) : List Char := '"' :: (s.toList.flatMap escape ++ ['"'])

def printInt (n : ℤ) : List Char := if n < 0 then '-' :: Nat.toDigits 10 n.natAbs else Nat.toDigits 10 n.natAbs

mutual
/-- The text of a value, objects in their own key order. -/
def print : Json → List Char
  | .null => ['n', 'u', 'l', 'l']
  | .bool true => ['t', 'r', 'u', 'e']
  | .bool false => ['f', 'a', 'l', 's', 'e']
  | .int n => printInt n
  | .float x => x.text
  | .str s => quote s
  | .arr [] => ['[', ']']
  | .arr (x :: xs) => '[' :: (x.print ++ printItems xs)
  | .obj [] => ['\x7b', '\x7d']
  | .obj ((k, v) :: rest) => '\x7b' :: (quote k ++ ':' :: (v.print ++ printFields rest))
termination_by structural j => j

def printItems : List Json → List Char
  | [] => [']']
  | x :: xs => ',' :: (x.print ++ printItems xs)
termination_by structural l => l

def printFields : List (String × Json) → List Char
  | [] => ['\x7d']
  | (k, v) :: rest => ',' :: (quote k ++ ':' :: (v.print ++ printFields rest))
termination_by structural l => l
end

/-- `json.dumps(value, sort_keys=True, separators=(",", ":"), allow_nan=False)`. -/
def encode (j : Json) : String := String.ofList j.sortKeys.print

/-! ### Reading -/

def skipWs (cs : List Char) : List Char := cs.dropWhile fun c => c = ' ' || c = '\n' || c = '\r' || c = '\t'

def hexVal (c : Char) : Option ℕ :=
  if '0' ≤ c ∧ c ≤ '9' then some (c.toNat - 48)
  else if 'a' ≤ c ∧ c ≤ 'f' then some (c.toNat - 87)
  else if 'A' ≤ c ∧ c ≤ 'F' then some (c.toNat - 55)
  else none

def readHex4 : List Char → Option (ℕ × List Char)
  | a :: b :: c :: d :: rest => do
      let a ← hexVal a
      let b ← hexVal b
      let c ← hexVal c
      let d ← hexVal d
      some (a * 4096 + b * 256 + c * 16 + d, rest)
  | _ => none

/-- A scalar value given by one or two code units; lone surrogates are refused. -/
def scalar (n : ℕ) : Option Char := if n.isValidChar then some (Char.ofNat n) else none

/-- One escape after the backslash. -/
def readEscape : List Char → Option (Char × List Char)
  | '"' :: rest => some ('"', rest)
  | '\\' :: rest => some ('\\', rest)
  | '/' :: rest => some ('/', rest)
  | 'n' :: rest => some ('\n', rest)
  | 'r' :: rest => some ('\r', rest)
  | 't' :: rest => some ('\t', rest)
  | 'b' :: rest => some (Char.ofNat 8, rest)
  | 'f' :: rest => some (Char.ofNat 12, rest)
  | 'u' :: rest => do
      let (hi, rest) ← readHex4 rest
      if 0xd800 ≤ hi ∧ hi < 0xdc00 then
        match rest with
        | '\\' :: 'u' :: rest => do
            let (lo, rest) ← readHex4 rest
            if 0xdc00 ≤ lo ∧ lo < 0xe000 then
              let c ← scalar (0x10000 + (hi - 0xd800) * 1024 + (lo - 0xdc00))
              some (c, rest)
            else none
        | _ => none
      else do
        let c ← scalar hi
        some (c, rest)
  | _ => none

/-- The body of a string literal, after the opening quote. -/
def readString : ℕ → List Char → Option (List Char × List Char)
  | 0, _ => none
  | _, [] => none
  | fuel + 1, c :: rest =>
      if c = '"' then some ([], rest)
      else if c = '\\' then do
        let (c, rest) ← readEscape rest
        let (s, rest) ← readString fuel rest
        some (c :: s, rest)
      else if c.toNat < 32 then none
      else do
        let (s, rest) ← readString fuel rest
        some (c :: s, rest)

def readNumber (cs : List Char) : Option (Json × List Char) :=
  let token := cs.takeWhile isNumChar
  let rest := cs.dropWhile isNumChar
  match intLiteral token with
  | some n => some (.int n, rest)
  | none => if h : isFloatLiteral token = true then some (.float ⟨token, h⟩, rest) else none

def literal (word : List Char) (j : Json) (cs : List Char) : Option (Json × List Char) :=
  if cs.take word.length = word then some (j, cs.drop word.length) else none

/-- A quoted key and the colon after it. -/
def readKey (fuel : ℕ) (cs : List Char) : Option (String × List Char) :=
  match skipWs cs with
  | '"' :: rest => do
      let (k, rest) ← readString fuel rest
      match skipWs rest with
      | ':' :: rest => some (String.ofList k, rest)
      | _ => none
  | _ => none

mutual
def readValue : ℕ → List Char → Option (Json × List Char)
  | 0, _ => none
  | fuel + 1, cs =>
      match skipWs cs with
      | [] => none
      | c :: rest =>
          if c = '"' then do
            let (s, rest) ← readString (fuel + 1) rest
            some (.str (String.ofList s), rest)
          else if c = '[' then
            if (skipWs rest).head? = some ']' then some (.arr [], (skipWs rest).tail)
            else do
              let (x, rest) ← readValue fuel rest
              let (xs, rest) ← readItems fuel rest
              some (.arr (x :: xs), rest)
          else if c = '\x7b' then
            if (skipWs rest).head? = some '\x7d' then some (.obj [], (skipWs rest).tail)
            else do
              let (k, rest) ← readKey (fuel + 1) rest
              let (v, rest) ← readValue fuel rest
              let (fields, rest) ← readFields fuel rest
              -- `_pairs` raises on a duplicate field
              if (((k, v) :: fields).map Prod.fst).Nodup then some (.obj ((k, v) :: fields), rest)
              else none
          else if c = 'n' then literal ['u', 'l', 'l'] .null rest
          else if c = 't' then literal ['r', 'u', 'e'] (.bool true) rest
          else if c = 'f' then literal ['a', 'l', 's', 'e'] (.bool false) rest
          else readNumber (c :: rest)
termination_by structural fuel => fuel

def readItems : ℕ → List Char → Option (List Json × List Char)
  | 0, _ => none
  | fuel + 1, cs =>
      match skipWs cs with
      | [] => none
      | c :: rest =>
          if c = ']' then some ([], rest)
          else if c = ',' then do
            let (x, rest) ← readValue fuel rest
            let (xs, rest) ← readItems fuel rest
            some (x :: xs, rest)
          else none
termination_by structural fuel => fuel

def readFields : ℕ → List Char → Option (List (String × Json) × List Char)
  | 0, _ => none
  | fuel + 1, cs =>
      match skipWs cs with
      | [] => none
      | c :: rest =>
          if c = '\x7d' then some ([], rest)
          else if c = ',' then do
            let (k, rest) ← readKey (fuel + 1) rest
            let (v, rest) ← readValue fuel rest
            let (fields, rest) ← readFields fuel rest
            some ((k, v) :: fields, rest)
          else none
termination_by structural fuel => fuel
end

/-- `json.loads(text, object_pairs_hook=_pairs, ...)`; `none` is a `ValueError`. -/
def loads (text : String) : Option Json :=
  match readValue (text.toList.length + 1) text.toList with
  | some (j, rest) => if skipWs rest = [] then some j else none
  | none => none

/-! ### Reading back strings -/

theorem hexVal_digitChar : ∀ d < 16, hexVal (Nat.digitChar d) = some d := by decide

theorem readHex4_hex4 {n : ℕ} (hn : n < 65536) (rest : List Char) : readHex4 (hex4 n ++ rest) = some (n, rest) := by
  have hval : ∀ m, hexVal (Nat.digitChar (m % 16)) = some (m % 16) := fun m =>
    hexVal_digitChar _ (Nat.mod_lt _ (by omega))
  simp only [hex4, List.cons_append, List.nil_append, readHex4, hval, Option.bind_eq_bind, Option.bind_some]
  congr 2
  omega

theorem scalar_toNat (c : Char) : scalar c.toNat = some c := by
  have : c.toNat.isValidChar := c.valid
  simp [scalar, this]

variable {c : Char}

theorem readEscape_hex4 (hc : c.toNat < 65536) (rest : List Char) :
    readEscape ('u' :: (hex4 c.toNat ++ rest)) = some (c, rest) := by
  have hvalid : c.toNat < 0xd800 ∨ 0xdfff < c.toNat ∧ c.toNat < 0x110000 := c.valid
  have hhi : ¬ (0xd800 ≤ c.toNat ∧ c.toNat < 0xdc00) := by omega
  simp only [readEscape, readHex4_hex4 hc, Option.bind_eq_bind, Option.bind_some, if_neg hhi, scalar_toNat]

theorem readEscape_pair {hi lo : ℕ} (hhi : 0xd800 ≤ hi ∧ hi < 0xdc00) (hlo : 0xdc00 ≤ lo ∧ lo < 0xe000)
    (hc : c.toNat = 0x10000 + (hi - 0xd800) * 1024 + (lo - 0xdc00)) (rest : List Char) :
    readEscape ('u' :: (hex4 hi ++ '\\' :: 'u' :: (hex4 lo ++ rest))) = some (c, rest) := by
  simp only [readEscape, readHex4_hex4 (show hi < 65536 by omega),
    readHex4_hex4 (show lo < 65536 by omega), Option.bind_eq_bind, Option.bind_some, if_pos hhi,
    if_pos hlo, ← hc, scalar_toNat]

/-- One written character is read back as itself. -/
theorem readString_escape (fuel : ℕ) (c : Char) (rest : List Char) :
    readString (fuel + 1) (escape c ++ rest) = (readString fuel rest).map fun p => (c :: p.1, p.2) := by
  have hback : ∀ (e : List Char), readEscape e = some (c, rest) →
      readString (fuel + 1) ('\\' :: e) = (readString fuel rest).map fun p => (c :: p.1, p.2) := by
    intro e he
    simp only [readString, Char.reduceEq, if_false, if_true, he, Option.bind_eq_bind, Option.bind_some]
    cases readString fuel rest <;> rfl
  have hcode : ∀ n : ℕ, c.toNat = n → n < 128 → c = Char.ofNat n := fun n h _ => by
    rw [← h, Char.ofNat_toNat]
  unfold escape
  split_ifs with h1 h2 h3 h4 h5 h6 h7 h8 h9
  · exact hback _ (by rw [h1]; rfl)
  · exact hback _ (by rw [h2]; rfl)
  · exact hback _ (by rw [h3]; rfl)
  · exact hback _ (by rw [h4]; rfl)
  · exact hback _ (by rw [h5]; rfl)
  · exact hback _ (by rw [hcode 8 h6 (by omega)]; rfl)
  · exact hback _ (by rw [hcode 12 h7 (by omega)]; rfl)
  · simp only [List.cons_append, List.nil_append, readString, if_neg h1, if_neg h2,
      if_neg (show ¬ c.toNat < 32 by omega), Option.bind_eq_bind]
    cases readString fuel rest <;> rfl
  · exact hback _ (readEscape_hex4 h9 rest)
  · have hvalid : c.toNat < 0xd800 ∨ 0xdfff < c.toNat ∧ c.toNat < 0x110000 := c.valid
    rw [List.cons_append, List.cons_append, List.append_assoc, List.cons_append, List.cons_append]
    exact hback _ (readEscape_pair (by omega) (by omega) (by omega) rest)

theorem readString_quote (s : List Char) (fuel : ℕ) (hf : s.length + 1 ≤ fuel) (rest : List Char) :
    readString fuel (s.flatMap escape ++ '"' :: rest) = some (s, rest) := by
  induction s generalizing fuel with
  | nil =>
    obtain ⟨fuel, rfl⟩ := Nat.exists_eq_succ_of_ne_zero (by omega : fuel ≠ 0)
    simp [readString]
  | cons c s ih =>
    obtain ⟨fuel, rfl⟩ := Nat.exists_eq_succ_of_ne_zero (by simp at hf; omega : fuel ≠ 0)
    rw [flatMap_cons, append_assoc, Nat.succ_eq_add_one, readString_escape, ih fuel (by simpa using hf)]
    rfl

/-! ### Reading back values -/

/-- The text after a value does not continue a number. -/
def NoNumHead (rest : List Char) : Prop := ∀ c ∈ rest.head?, isNumChar c = false

variable {cs rest : List Char}

theorem takeWhile_append {p : Char → Bool} (hcs : cs.all p = true) (hrest : ∀ c ∈ rest.head?, p c = false) :
    (cs ++ rest).takeWhile p = cs ∧ (cs ++ rest).dropWhile p = rest := by
  have hall : ∀ c ∈ cs, p c = true := all_eq_true.mp hcs
  have htail : rest.takeWhile p = [] ∧ rest.dropWhile p = rest := by
    cases rest with
    | nil => exact ⟨rfl, rfl⟩
    | cons c rest => simp [hrest c rfl]
  rw [takeWhile_append_of_pos hall, dropWhile_append_of_pos hall]
  simp [htail]

theorem natLiteral_toDigits (n : ℕ) : natLiteral (Nat.toDigits 10 n) = some n := by
  simp [natLiteral]

theorem toDigits_head {n : ℕ} (h : Nat.toDigits 10 n = c :: cs) : c.isDigit = true :=
  Nat.isDigit_of_mem_toDigits (by omega) (by omega) (h ▸ mem_cons_self)

theorem intLiteral_printInt (n : ℤ) : intLiteral (printInt n) = some n := by
  unfold printInt intLiteral
  split
  · rename_i hn
    simp only [head?_cons, if_true, tail_cons, natLiteral_toDigits, Option.map_some]
    congr 1
    omega
  · rename_i hn
    have hhead : (Nat.toDigits 10 n.natAbs).head? ≠ some '-' := by
      intro h
      obtain ⟨cs, hcs⟩ := head?_eq_some_iff.mp h
      exact absurd (toDigits_head hcs) (by decide)
    rw [if_neg hhead, natLiteral_toDigits, Option.map_some]
    congr 1
    omega

theorem printInt_all (n : ℤ) : (printInt n).all isNumChar = true := by
  have hdigits : ∀ m, (Nat.toDigits 10 m).all isNumChar = true := fun m =>
    all_eq_true.mpr fun c hc => by
      simp [isNumChar, Nat.isDigit_of_mem_toDigits (by omega) (by omega) hc]
  unfold printInt
  split
  · simpa [isNumChar] using hdigits _
  · exact hdigits _

theorem readNumber_int (n : ℤ) (hrest : NoNumHead rest) : readNumber (printInt n ++ rest) = some (.int n, rest) := by
  obtain ⟨h1, h2⟩ := takeWhile_append (printInt_all n) hrest
  simp only [readNumber, h1, h2, intLiteral_printInt]

theorem readNumber_float (x : FloatLit) (hrest : NoNumHead rest) :
    readNumber (x.text ++ rest) = some (.float x, rest) := by
  have hvalid := x.valid
  simp only [isFloatLiteral, Bool.and_eq_true] at hvalid
  obtain ⟨h1, h2⟩ := takeWhile_append hvalid.1.2 hrest
  have hint : intLiteral x.text = none := by simpa using hvalid.2
  simp only [readNumber, h1, h2, hint, x.valid, dite_true]

/-- A number starts with a digit or a sign. -/
def numHead (c : Char) : Bool := c.isDigit || c = '-'

theorem numHead_cases (h : numHead c = true) :
    c ≠ ' ' ∧ c ≠ '\n' ∧ c ≠ '\r' ∧ c ≠ '\t' ∧ c ≠ '"' ∧ c ≠ '[' ∧ c ≠ '\x7b' ∧ c ≠ 'n' ∧ c ≠ 't' ∧ c ≠ 'f' := by
  refine ⟨?_, ?_, ?_, ?_, ?_, ?_, ?_, ?_, ?_, ?_⟩ <;> (rintro rfl; revert h; decide)

theorem printInt_head (n : ℤ) : ∃ c cs, printInt n = c :: cs ∧ numHead c = true := by
  unfold printInt
  split
  · exact ⟨_, _, rfl, by decide⟩
  · cases hd : Nat.toDigits 10 n.natAbs with
    | nil => exact absurd hd Nat.toDigits_ne_nil
    | cons c cs => exact ⟨c, cs, rfl, by simp [numHead, toDigits_head hd]⟩

theorem floatText_head (x : FloatLit) : ∃ c cs, x.text = c :: cs ∧ numHead c = true := by
  have hvalid := x.valid
  simp only [isFloatLiteral, Bool.and_eq_true] at hvalid
  cases ht : x.text with
  | nil => rw [ht] at hvalid; exact absurd hvalid.1.1.2 (by decide)
  | cons c cs =>
    refine ⟨c, cs, rfl, ?_⟩
    by_cases hneg : c = '-'
    · simp [numHead, hneg]
    · have hhead : (c :: cs).head? ≠ some '-' := by simpa using hneg
      rw [ht, if_neg hhead] at hvalid
      by_contra hc
      have hdigit : c.isDigit = false := by
        simp only [numHead, Bool.or_eq_true, not_or] at hc
        exact Bool.eq_false_iff.mpr hc.1
      have : (c :: cs).takeWhile Char.isDigit = [] := by simp [hdigit]
      rw [this] at hvalid
      exact absurd hvalid.1.1.1 (by decide)

theorem skipWs_cons (h : c ≠ ' ' ∧ c ≠ '\n' ∧ c ≠ '\r' ∧ c ≠ '\t') (cs : List Char) : skipWs (c :: cs) = c :: cs := by
  simp [skipWs, h]

theorem readValue_number (hc : numHead c = true) (fuel : ℕ) :
    readValue (fuel + 1) (c :: cs) = readNumber (c :: cs) := by
  obtain ⟨h1, h2, h3, h4, h5, h6, h7, h8, h9, h10⟩ := numHead_cases hc
  simp only [readValue, skipWs_cons ⟨h1, h2, h3, h4⟩, if_neg h5, if_neg h6, if_neg h7, if_neg h8, if_neg h9, if_neg h10]

theorem escape_length_pos (c : Char) : 1 ≤ (escape c).length := by
  unfold escape
  split_ifs <;> simp

theorem length_le_flatMap_escape (s : List Char) : s.length ≤ (s.flatMap escape).length := by
  induction s with
  | nil => simp
  | cons c s ih =>
    have := escape_length_pos c
    rw [List.flatMap_cons, List.length_append, List.length_cons]
    omega

theorem quote_length (s : String) : s.toList.length + 2 ≤ (quote s).length := by
  have := length_le_flatMap_escape s.toList
  simp only [quote, List.length_cons, List.length_append, List.length_nil]
  omega

theorem readString_toList (s : String) {fuel : ℕ} (hf : (quote s).length ≤ fuel) (rest : List Char) :
    readString fuel (s.toList.flatMap escape ++ '"' :: rest) = some (s.toList, rest) :=
  readString_quote _ _ (by have := quote_length s; omega) rest

theorem quote_append (s : String) (rest : List Char) :
    quote s ++ rest = '"' :: (s.toList.flatMap escape ++ '"' :: rest) := by
  simp [quote]

theorem readKey_quote (k : String) (fuel : ℕ) (hf : (quote k).length ≤ fuel) (rest : List Char) :
    readKey fuel (quote k ++ ':' :: rest) = some (k, rest) := by
  rw [quote_append]
  simp only [readKey, skipWs_cons (c := '"') (by decide), readString_toList k hf,
    Option.bind_eq_bind, Option.bind_some, skipWs_cons (c := ':') (by decide),
    String.ofList_toList]

theorem noNumHead_cons (h : isNumChar c = false) (rest : List Char) : NoNumHead (c :: rest) := by
  intro c' hc'
  simp only [List.head?_cons, Option.mem_def, Option.some.injEq] at hc'
  exact hc' ▸ h

theorem printItems_noNumHead (xs : List Json) (rest : List Char) : NoNumHead (printItems xs ++ rest) := by
  cases xs <;> exact noNumHead_cons (by decide) _

theorem printFields_noNumHead (fs : List (String × Json)) (rest : List Char) : NoNumHead (printFields fs ++ rest) := by
  cases fs <;> exact noNumHead_cons (by decide) _

/-- The first character of a value's text is neither blank nor a closing bracket. -/
theorem print_head (j : Json) : ∃ c cs, j.print = c :: cs ∧ c ≠ ']' ∧ c ≠ '\x7d' ∧
    c ≠ ' ' ∧ c ≠ '\n' ∧ c ≠ '\r' ∧ c ≠ '\t' := by
  have number : ∀ {c : Char}, numHead c = true → c ≠ ']' ∧ c ≠ '\x7d' ∧ c ≠ ' ' ∧ c ≠ '\n' ∧ c ≠ '\r' ∧ c ≠ '\t' := by
    intro c hc
    refine ⟨?_, ?_, ?_, ?_, ?_, ?_⟩ <;> (rintro rfl; revert hc; decide)
  match j with
  | .null => exact ⟨_, _, rfl, by decide⟩
  | .bool true => exact ⟨_, _, rfl, by decide⟩
  | .bool false => exact ⟨_, _, rfl, by decide⟩
  | .int n =>
    obtain ⟨c, cs, h, hc⟩ := printInt_head n
    exact ⟨c, cs, h, number hc⟩
  | .float x =>
    obtain ⟨c, cs, h, hc⟩ := floatText_head x
    exact ⟨c, cs, h, number hc⟩
  | .str s => exact ⟨_, _, rfl, by decide⟩
  | .arr [] => exact ⟨_, _, rfl, by decide⟩
  | .arr (_ :: _) => exact ⟨_, _, rfl, by decide⟩
  | .obj [] => exact ⟨_, _, rfl, by decide⟩
  | .obj (_ :: _) => exact ⟨_, _, rfl, by decide⟩

theorem skipWs_print (j : Json) (rest : List Char) :
    skipWs (j.print ++ rest) = j.print ++ rest ∧ (j.print ++ rest).head? ≠ some ']' := by
  obtain ⟨c, cs, h, h1, h2, h3⟩ := print_head j
  rw [h, List.cons_append, skipWs_cons h3]
  exact ⟨rfl, by simpa using h1⟩

theorem skipWs_quote (k : String) (rest : List Char) : (skipWs (quote k ++ rest)).head? ≠ some '\x7d' := by
  rw [quote_append, skipWs_cons (by decide)]
  simp

mutual
/-- The reader undoes the printer, whatever follows the value. -/
theorem readValue_print : ∀ (j : Json) (fuel : ℕ) (rest : List Char), j.WF →
    j.print.length ≤ fuel → NoNumHead rest → readValue fuel (j.print ++ rest) = some (j, rest)
  | j, 0, rest, _, hf, _ => by
    obtain ⟨c, cs, h, -⟩ := print_head j
    simp [h] at hf
  | .null, fuel + 1, rest, _, _, _ => by
    simp [print, readValue, skipWs, literal]
  | .bool true, fuel + 1, rest, _, _, _ => by
    simp [print, readValue, skipWs, literal]
  | .bool false, fuel + 1, rest, _, _, _ => by
    simp [print, readValue, skipWs, literal]
  | .int n, fuel + 1, rest, _, _, hrest => by
    obtain ⟨c, cs, h, hc⟩ := printInt_head n
    have := readNumber_int n hrest
    rw [print]
    rw [h, List.cons_append] at this ⊢
    rw [readValue_number hc, this]
  | .float x, fuel + 1, rest, _, _, hrest => by
    obtain ⟨c, cs, h, hc⟩ := floatText_head x
    have := readNumber_float x hrest
    rw [print]
    rw [h, List.cons_append] at this ⊢
    rw [readValue_number hc, this]
  | .str s, fuel + 1, rest, _, hf, _ => by
    rw [print] at hf ⊢
    rw [quote_append]
    simp only [readValue, skipWs_cons (c := '"') (by decide), if_true,
      readString_toList s hf, Option.bind_eq_bind, Option.bind_some, String.ofList_toList]
  | .arr [], fuel + 1, rest, _, _, _ => by
    simp [print, readValue, skipWs]
  | .arr (x :: xs), fuel + 1, rest, hwf, hf, _ => by
    simp only [WF, ItemsWF] at hwf
    simp only [print, length_cons, length_append] at hf
    have hx := readValue_print x fuel (printItems xs ++ rest) hwf.1 (by omega) (printItems_noNumHead xs rest)
    have hxs := readItems_print xs fuel rest hwf.2 (by omega)
    obtain ⟨hskip, hhead⟩ := skipWs_print x (printItems xs ++ rest)
    rw [print, cons_append, append_assoc]
    simp only [readValue, skipWs_cons (c := '[') (by decide), Char.reduceEq, if_false, if_true,
      hskip, if_neg hhead, hx, hxs, Option.bind_eq_bind, Option.bind_some]
  | .obj [], fuel + 1, rest, _, _, _ => by
    simp [print, readValue, skipWs]
  | .obj ((k, v) :: fs), fuel + 1, rest, hwf, hf, _ => by
    simp only [WF, FieldsWF] at hwf
    simp only [print, length_cons, length_append] at hf
    have hk := readKey_quote k (fuel + 1) (by omega) (v.print ++ (printFields fs ++ rest))
    have hv := readValue_print v fuel (printFields fs ++ rest) hwf.2.1 (by omega) (printFields_noNumHead fs rest)
    have hfs := readFields_print fs fuel rest hwf.2.2 (by omega)
    rw [print, cons_append, append_assoc, cons_append, append_assoc]
    simp only [readValue, skipWs_cons (c := '\x7b') (by decide), Char.reduceEq, if_false,
      if_true, if_neg (skipWs_quote k _), hk, hv, hfs, Option.bind_eq_bind, Option.bind_some,
      if_pos hwf.1]

theorem readItems_print : ∀ (xs : List Json) (fuel : ℕ) (rest : List Char), ItemsWF xs →
    (printItems xs).length ≤ fuel → readItems fuel (printItems xs ++ rest) = some (xs, rest)
  | [], 0, rest, _, hf => by simp [printItems] at hf
  | _ :: _, 0, rest, _, hf => by simp [printItems] at hf
  | [], fuel + 1, rest, _, _ => by simp [printItems, readItems, skipWs]
  | x :: xs, fuel + 1, rest, hwf, hf => by
    simp only [ItemsWF] at hwf
    simp only [printItems, length_cons, length_append] at hf
    have hx := readValue_print x fuel (printItems xs ++ rest) hwf.1 (by omega) (printItems_noNumHead xs rest)
    have hxs := readItems_print xs fuel rest hwf.2 (by omega)
    rw [printItems, cons_append, append_assoc]
    simp only [readItems, skipWs_cons (c := ',') (by decide), Char.reduceEq, if_false, if_true,
      hx, hxs, Option.bind_eq_bind, Option.bind_some]

theorem readFields_print : ∀ (fs : List (String × Json)) (fuel : ℕ) (rest : List Char),
    FieldsWF fs → (printFields fs).length ≤ fuel → readFields fuel (printFields fs ++ rest) = some (fs, rest)
  | [], 0, rest, _, hf => by simp [printFields] at hf
  | _ :: _, 0, rest, _, hf => by simp [printFields] at hf
  | [], fuel + 1, rest, _, _ => by simp [printFields, readFields, skipWs]
  | (k, v) :: fs, fuel + 1, rest, hwf, hf => by
    simp only [FieldsWF] at hwf
    simp only [printFields, length_cons, length_append] at hf
    have hk := readKey_quote k (fuel + 1) (by omega) (v.print ++ (printFields fs ++ rest))
    have hv := readValue_print v fuel (printFields fs ++ rest) hwf.1 (by omega) (printFields_noNumHead fs rest)
    have hfs := readFields_print fs fuel rest hwf.2 (by omega)
    rw [printFields, cons_append, append_assoc, cons_append, append_assoc]
    simp only [readFields, skipWs_cons (c := ',') (by decide), Char.reduceEq, if_false, if_true,
      hk, hv, hfs, Option.bind_eq_bind, Option.bind_some]
end

/-! ### Round trip -/

theorem sortFields_eq_map (fs : List (String × Json)) : sortFields fs = fs.map fun p => (p.1, p.2.sortKeys) := by
  induction fs with
  | nil => rfl
  | cons p fs ih => obtain ⟨k, v⟩ := p; simp [sortFields, ih]

theorem fieldsWF_iff {fs : List (String × Json)} : FieldsWF fs ↔ ∀ p ∈ fs, p.2.WF := by
  induction fs with
  | nil => simp [FieldsWF]
  | cons p fs ih => obtain ⟨k, v⟩ := p; simp [FieldsWF, ih]

theorem sortByKey_perm (fs : List (String × Json)) : (sortByKey fs).Perm fs := perm_insertionSort _ fs

mutual
theorem sortKeys_wf : ∀ j : Json, j.WF → j.sortKeys.WF
  | .null, _ => trivial
  | .bool _, _ => trivial
  | .int _, _ => trivial
  | .float _, _ => trivial
  | .str _, _ => trivial
  | .arr xs, h => sortItems_wf xs h
  | .obj fs, h => by
    have hperm := sortByKey_perm (sortFields fs)
    have hkeys : (sortFields fs).map Prod.fst = fs.map Prod.fst := by
      simp [sortFields_eq_map]
    simp only [sortKeys, WF] at h ⊢
    refine ⟨(hperm.map Prod.fst).nodup_iff.mpr (hkeys ▸ h.1), fieldsWF_iff.mpr fun p hp => ?_⟩
    exact fieldsWF_iff.mp (sortFields_wf fs h.2) p (hperm.mem_iff.mp hp)

theorem sortItems_wf : ∀ xs : List Json, ItemsWF xs → ItemsWF (sortItems xs)
  | [], _ => trivial
  | x :: xs, h => ⟨sortKeys_wf x h.1, sortItems_wf xs h.2⟩

theorem sortFields_wf : ∀ fs : List (String × Json), FieldsWF fs → FieldsWF (sortFields fs)
  | [], _ => trivial
  | (_, v) :: fs, h => ⟨sortKeys_wf v h.1, sortFields_wf fs h.2⟩
end

/-- Everything one round of the reader returns is well formed; the three functions call each
other at one fuel less. -/
theorem read_wf (fuel : ℕ) : (∀ cs j rest, readValue fuel cs = some (j, rest) → j.WF) ∧
    (∀ cs xs rest, readItems fuel cs = some (xs, rest) → ItemsWF xs) ∧
    ∀ cs fs rest, readFields fuel cs = some (fs, rest) → FieldsWF fs := by
  induction fuel with
  | zero => simp [readValue, readItems, readFields]
  | succ fuel ih =>
    obtain ⟨ihv, ihi, ihf⟩ := ih
    refine ⟨?_, ?_, ?_⟩
    · intro cs j rest h
      simp only [readValue] at h
      have hlit : ∀ {w : List Char} {j' : Json} {cs : List Char}, literal w j' cs = some (j, rest) → j = j' := by
        intro w j' cs h
        simp only [literal] at h
        split_ifs at h
        simpa using (Prod.mk.inj (Option.some.inj h)).1.symm
      split at h
      · cases h
      · split_ifs at h with h1 h2 h3 h4 h5 h6 h7 h8
        · simp only [Option.bind_eq_bind, Option.bind_eq_some_iff] at h
          obtain ⟨p, -, h⟩ := h
          obtain ⟨rfl, -⟩ := Prod.mk.inj (Option.some.inj h)
          trivial
        · obtain ⟨rfl, -⟩ := Prod.mk.inj (Option.some.inj h)
          trivial
        · simp only [Option.bind_eq_bind, Option.bind_eq_some_iff] at h
          obtain ⟨x, hx, xs, hxs, h⟩ := h
          obtain ⟨rfl, -⟩ := Prod.mk.inj (Option.some.inj h)
          exact ⟨ihv _ _ _ hx, ihi _ _ _ hxs⟩
        · obtain ⟨rfl, -⟩ := Prod.mk.inj (Option.some.inj h)
          exact ⟨nodup_nil, trivial⟩
        · simp only [Option.bind_eq_bind, Option.bind_eq_some_iff] at h
          obtain ⟨k, -, v, hv, fs, hfs, h⟩ := h
          split_ifs at h with hn
          obtain ⟨rfl, -⟩ := Prod.mk.inj (Option.some.inj h)
          exact ⟨hn, ihv _ _ _ hv, ihf _ _ _ hfs⟩
        · rw [hlit h]; trivial
        · rw [hlit h]; trivial
        · rw [hlit h]; trivial
        · simp only [readNumber] at h
          split at h
          · obtain ⟨rfl, -⟩ := Prod.mk.inj (Option.some.inj h)
            trivial
          · split_ifs at h
            obtain ⟨rfl, -⟩ := Prod.mk.inj (Option.some.inj h)
            trivial
    · intro cs xs rest h
      simp only [readItems] at h
      split at h
      · cases h
      · split_ifs at h
        · obtain ⟨rfl, -⟩ := Prod.mk.inj (Option.some.inj h)
          trivial
        · simp only [Option.bind_eq_bind, Option.bind_eq_some_iff] at h
          obtain ⟨x, hx, xs, hxs, h⟩ := h
          obtain ⟨rfl, -⟩ := Prod.mk.inj (Option.some.inj h)
          exact ⟨ihv _ _ _ hx, ihi _ _ _ hxs⟩
    · intro cs fs rest h
      simp only [readFields] at h
      split at h
      · cases h
      · split_ifs at h
        · obtain ⟨rfl, -⟩ := Prod.mk.inj (Option.some.inj h)
          trivial
        · simp only [Option.bind_eq_bind, Option.bind_eq_some_iff] at h
          obtain ⟨k, -, v, hv, fs, hfs, h⟩ := h
          obtain ⟨rfl, -⟩ := Prod.mk.inj (Option.some.inj h)
          exact ⟨ihv _ _ _ hv, ihf _ _ _ hfs⟩

/-- The reader refuses a repeated key, so what it returns is a dictionary throughout. -/
theorem loads_wf {text : String} {j : Json} (h : loads text = some j) : j.WF := by
  simp only [loads] at h
  split at h
  · split_ifs at h
    obtain rfl := Option.some.inj h
    exact (read_wf _).1 _ _ _ ‹_›
  · cases h

theorem get?_wf {j v : Json} {k : String} (hj : j.WF) (h : j.get? k = some v) : v.WF := by
  cases j with
  | obj fs =>
    rw [get?, Assoc.lookup_eq_some_iff hj.1] at h
    exact fieldsWF_iff.mp hj.2 _ h
  | _ => simp [get?] at h

/-- Reading back a written value gives it with its keys sorted. -/
theorem loads_encode {j : Json} (h : j.WF) : loads j.encode = some j.sortKeys := by
  have := readValue_print j.sortKeys (j.sortKeys.print.length + 1) [] (sortKeys_wf j h)
    (by omega) (fun c hc => by simp at hc)
  rw [append_nil] at this
  simp only [loads, encode, String.toList_ofList, this]
  simp [skipWs]

theorem sortByKey_map (f : Json → Json) (fs : List (String × Json)) :
    (sortByKey fs).map (fun p => (p.1, f p.2)) = sortByKey (fs.map fun p => (p.1, f p.2)) :=
  map_insertionSort _ _ _ _ fun _ _ _ _ => Iff.rfl

theorem sortByKey_sorted (fs : List (String × Json)) : (sortByKey fs).Pairwise fun a b => a.1 ≤ b.1 := by
  have : IsTrans (String × Json) fun a b => a.1 ≤ b.1 := ⟨fun _ _ _ h h' => le_trans h h'⟩
  have : Std.Total fun a b : String × Json => a.1 ≤ b.1 := ⟨fun a b => le_total a.1 b.1⟩
  exact pairwise_insertionSort _ fs

/-- Fields with distinct keys sort to one list, whatever order they come in. -/
theorem sortByKey_perm_eq {fs fs' : List (String × Json)} (hn : (fs.map Prod.fst).Nodup)
    (h : fs.Perm fs') : sortByKey fs = sortByKey fs' := by
  have hperm : (sortByKey fs).Perm (sortByKey fs') := (sortByKey_perm fs).trans (h.trans (sortByKey_perm fs').symm)
  refine hperm.eq_of_pairwise ?_ (sortByKey_sorted fs) (sortByKey_sorted fs')
  intro a b ha hb hab hba
  have hmem : ∀ {p}, p ∈ sortByKey fs → p ∈ fs := fun hp => (sortByKey_perm fs).mem_iff.mp hp
  exact inj_on_of_nodup_map hn (hmem ha) (hmem (hperm.mem_iff.mpr hb)) (le_antisymm hab hba)

mutual
theorem sortKeys_sortKeys : ∀ j : Json, j.sortKeys.sortKeys = j.sortKeys
  | .null => rfl
  | .bool _ => rfl
  | .int _ => rfl
  | .float _ => rfl
  | .str _ => rfl
  | .arr xs => by simp only [sortKeys, sortItems_sortItems xs]
  | .obj fs => by
    have hmap : sortFields (sortByKey (sortFields fs)) = sortByKey (sortFields fs) := by
      rw [sortFields_eq_map, sortByKey_map, ← sortFields_eq_map, sortFields_sortFields fs]
    have hsort : sortByKey (sortByKey (sortFields fs)) = sortByKey (sortFields fs) :=
      (sortByKey_sorted _).insertionSort_eq
    simp only [sortKeys, hmap, hsort]

theorem sortItems_sortItems : ∀ xs : List Json, sortItems (sortItems xs) = sortItems xs
  | [] => rfl
  | x :: xs => by simp only [sortItems, sortKeys_sortKeys x, sortItems_sortItems xs]

theorem sortFields_sortFields : ∀ fs : List (String × Json), sortFields (sortFields fs) = sortFields fs
  | [] => rfl
  | (k, v) :: fs => by simp only [sortFields, sortKeys_sortKeys v, sortFields_sortFields fs]
end

theorem encode_sortKeys (j : Json) : j.sortKeys.encode = j.encode := by
  rw [encode, encode, sortKeys_sortKeys]

end Json

end SystemDesign
