import SystemDesign.Lib.Json

/-!
`json.dumps` with its default separators: a space after every comma and colon.

The text is only ever compared with another such text, so all that matters is
that the order of two texts is that of Python and that a text determines the
value: reading it back gives the value (`readValue_spaced`).
-/

namespace SystemDesign.Json

open List

mutual
def spaced : Json → List Char
  | .null => ['n', 'u', 'l', 'l']
  | .bool true => ['t', 'r', 'u', 'e']
  | .bool false => ['f', 'a', 'l', 's', 'e']
  | .int n => printInt n
  | .float x => x.text
  | .str s => quote s
  | .arr [] => ['[', ']']
  | .arr (x :: xs) => '[' :: (x.spaced ++ spacedItems xs)
  | .obj [] => ['\x7b', '\x7d']
  | .obj ((k, v) :: rest) => '\x7b' :: (quote k ++ ':' :: ' ' :: (v.spaced ++ spacedFields rest))
termination_by structural j => j

def spacedItems : List Json → List Char
  | [] => [']']
  | x :: xs => ',' :: ' ' :: (x.spaced ++ spacedItems xs)
termination_by structural l => l

def spacedFields : List (String × Json) → List Char
  | [] => ['\x7d']
  | (k, v) :: rest => ',' :: ' ' :: (quote k ++ ':' :: ' ' :: (v.spaced ++ spacedFields rest))
termination_by structural l => l
end

/-- `json.dumps(value, sort_keys=True)`. -/
def dumps (j : Json) : String := String.ofList j.sortKeys.spaced

theorem skipWs_space (cs : List Char) : skipWs (' ' :: cs) = skipWs cs := by simp [skipWs]

theorem readValue_space (fuel : ℕ) (cs : List Char) : readValue fuel (' ' :: cs) = readValue fuel cs := by
  cases fuel with
  | zero => rfl
  | succ fuel => rw [readValue, readValue, skipWs_space]

theorem readKey_space (fuel : ℕ) (cs : List Char) : readKey fuel (' ' :: cs) = readKey fuel cs := by
  rw [readKey, readKey, skipWs_space]

theorem spacedItems_noNumHead (xs : List Json) (rest : List Char) : NoNumHead (spacedItems xs ++ rest) := by
  cases xs <;> exact noNumHead_cons (by decide) _

theorem spacedFields_noNumHead (fs : List (String × Json)) (rest : List Char) :
    NoNumHead (spacedFields fs ++ rest) := by
  cases fs with
  | nil => exact noNumHead_cons (by decide) _
  | cons e fs => exact noNumHead_cons (by decide) _

/-- A value starts with a character that is neither a blank nor a closing bracket. -/
theorem spaced_head (j : Json) : ∃ c cs, j.spaced = c :: cs ∧ c ≠ ']' ∧ c ≠ '\x7d' ∧
    (c ≠ ' ' ∧ c ≠ '\n' ∧ c ≠ '\r' ∧ c ≠ '\t') := by
  cases j with
  | arr xs => cases xs <;> exact ⟨_, _, rfl, by decide⟩
  | obj fs => cases fs <;> exact ⟨_, _, rfl, by decide⟩
  | null => exact print_head .null
  | bool b => cases b <;> exact ⟨_, _, rfl, by decide⟩
  | int n => exact print_head (.int n)
  | float x => exact print_head (.float x)
  | str s => exact print_head (.str s)

theorem skipWs_spaced (j : Json) (rest : List Char) :
    skipWs (j.spaced ++ rest) = j.spaced ++ rest ∧ (j.spaced ++ rest).head? ≠ some ']' := by
  obtain ⟨c, cs, h, h1, -, h3⟩ := spaced_head j
  rw [h, cons_append, skipWs_cons h3]
  exact ⟨rfl, by simpa using h1⟩

mutual
theorem readValue_spaced : ∀ (j : Json) (fuel : ℕ) (rest : List Char), j.WF →
    j.spaced.length ≤ fuel → NoNumHead rest → readValue fuel (j.spaced ++ rest) = some (j, rest)
  | j, 0, rest, _, hf, _ => by
    obtain ⟨c, cs, h, -⟩ := spaced_head j
    simp [h] at hf
  | .null, fuel + 1, rest, hwf, hf, hrest => readValue_print .null _ rest hwf hf hrest
  | .bool true, fuel + 1, rest, hwf, hf, hrest => readValue_print (.bool true) _ rest hwf hf hrest
  | .bool false, fuel + 1, rest, hwf, hf, hrest => readValue_print (.bool false) _ rest hwf hf hrest
  | .int n, fuel + 1, rest, hwf, hf, hrest => readValue_print (.int n) _ rest hwf hf hrest
  | .float x, fuel + 1, rest, hwf, hf, hrest => readValue_print (.float x) _ rest hwf hf hrest
  | .str s, fuel + 1, rest, hwf, hf, hrest => readValue_print (.str s) _ rest hwf hf hrest
  | .arr [], fuel + 1, rest, hwf, hf, hrest => readValue_print (.arr []) _ rest hwf hf hrest
  | .obj [], fuel + 1, rest, hwf, hf, hrest => readValue_print (.obj []) _ rest hwf hf hrest
  | .arr (x :: xs), fuel + 1, rest, hwf, hf, _ => by
    simp only [WF, ItemsWF] at hwf
    simp only [spaced, length_cons, length_append] at hf
    have hx := readValue_spaced x fuel (spacedItems xs ++ rest) hwf.1 (by omega) (spacedItems_noNumHead xs rest)
    have hxs := readItems_spaced xs fuel rest hwf.2 (by omega)
    obtain ⟨hskip, hhead⟩ := skipWs_spaced x (spacedItems xs ++ rest)
    rw [spaced, cons_append, append_assoc]
    simp only [readValue, skipWs_cons (c := '[') (by decide), Char.reduceEq, if_false, if_true,
      hskip, if_neg hhead, hx, hxs, Option.bind_eq_bind, Option.bind_some]
  | .obj ((k, v) :: fs), fuel + 1, rest, hwf, hf, _ => by
    simp only [WF, FieldsWF] at hwf
    simp only [spaced, length_cons, length_append] at hf
    have hk := readKey_quote k (fuel + 1) (by omega) (' ' :: (v.spaced ++ (spacedFields fs ++ rest)))
    have hv := readValue_spaced v fuel (spacedFields fs ++ rest) hwf.2.1 (by omega) (spacedFields_noNumHead fs rest)
    have hfs := readFields_spaced fs fuel rest hwf.2.2 (by omega)
    rw [spaced, cons_append, append_assoc, cons_append, cons_append, append_assoc]
    simp only [readValue, skipWs_cons (c := '\x7b') (by decide), Char.reduceEq, if_false,
      if_true, if_neg (skipWs_quote k _), hk, readValue_space, hv, hfs, Option.bind_eq_bind,
      Option.bind_some, if_pos hwf.1]

theorem readItems_spaced : ∀ (xs : List Json) (fuel : ℕ) (rest : List Char), ItemsWF xs →
    (spacedItems xs).length ≤ fuel → readItems fuel (spacedItems xs ++ rest) = some (xs, rest)
  | [], 0, rest, _, hf => by simp [spacedItems] at hf
  | _ :: _, 0, rest, _, hf => by simp [spacedItems] at hf
  | [], fuel + 1, rest, _, _ => by simp [spacedItems, readItems, skipWs]
  | x :: xs, fuel + 1, rest, hwf, hf => by
    simp only [ItemsWF] at hwf
    simp only [spacedItems, length_cons, length_append] at hf
    have hx := readValue_spaced x fuel (spacedItems xs ++ rest) hwf.1 (by omega) (spacedItems_noNumHead xs rest)
    have hxs := readItems_spaced xs fuel rest hwf.2 (by omega)
    rw [spacedItems, cons_append, cons_append, append_assoc]
    simp only [readItems, skipWs_cons (c := ',') (by decide), Char.reduceEq, if_false, if_true,
      readValue_space, hx, hxs, Option.bind_eq_bind, Option.bind_some]

theorem readFields_spaced : ∀ (fs : List (String × Json)) (fuel : ℕ) (rest : List Char),
    FieldsWF fs → (spacedFields fs).length ≤ fuel → readFields fuel (spacedFields fs ++ rest) = some (fs, rest)
  | [], 0, rest, _, hf => by simp [spacedFields] at hf
  | _ :: _, 0, rest, _, hf => by simp [spacedFields] at hf
  | [], fuel + 1, rest, _, _ => by simp [spacedFields, readFields, skipWs]
  | (k, v) :: fs, fuel + 1, rest, hwf, hf => by
    simp only [FieldsWF] at hwf
    simp only [spacedFields, length_cons, length_append] at hf
    have hk := readKey_quote k (fuel + 1) (by omega) (' ' :: (v.spaced ++ (spacedFields fs ++ rest)))
    have hv := readValue_spaced v fuel (spacedFields fs ++ rest) hwf.1 (by omega) (spacedFields_noNumHead fs rest)
    have hfs := readFields_spaced fs fuel rest hwf.2 (by omega)
    rw [spacedFields, cons_append, cons_append, append_assoc, cons_append, cons_append, append_assoc]
    simp only [readFields, skipWs_cons (c := ',') (by decide), Char.reduceEq, if_false, if_true,
      readKey_space, hk, readValue_space, hv, hfs, Option.bind_eq_bind, Option.bind_some]
end

/-- Values with one text are one value up to key order. -/
theorem sortKeys_eq_of_dumps {j j' : Json} (hj : j.WF) (hj' : j'.WF) (h : j.dumps = j'.dumps) :
    j.sortKeys = j'.sortKeys := by
  have htext : j.sortKeys.spaced = j'.sortKeys.spaced := String.ofList_injective h
  have hnil : NoNumHead [] := by simp [NoNumHead]
  have h1 := readValue_spaced j.sortKeys _ [] (sortKeys_wf j hj) le_rfl hnil
  have h2 := readValue_spaced j'.sortKeys _ [] (sortKeys_wf j' hj') le_rfl hnil
  rw [htext, h2] at h1
  exact (Prod.mk.inj (Option.some.inj h1)).1.symm

end SystemDesign.Json
