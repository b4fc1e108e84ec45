import Mathlib.Data.List.Basic
import Mathlib.Order.Nat

/-!
Patterns with wildcards and the search for their parts in order.

A pattern is cut at the wildcards. Its parts fit a text with gaps between them (`Gapped`) exactly when searching each part
leftmost behind the one before finds all of them (`findAll_isSome_iff`, `findAll_last_iff`): an earlier end never loses
a later part (`findAll_of_occurs`).
-/

namespace SystemDesign.Wildcard

open List hiding le_of_lt le_refl

variable {α : Type}

/-! ### What a pattern says -/

/-- The text is the pattern with each `star` replaced by some string. -/
inductive Expands (star : α) : List α → List α → Prop
  | nil : Expands star [] []
  | char {c : α} {pattern text : List α} (hc : c ≠ star) (h : Expands star pattern text) :
      Expands star (c :: pattern) (c :: text)
  | gap {pattern text : List α} (filling : List α) (h : Expands star pattern text) :
      Expands star (star :: pattern) (filling ++ text)

/-- The text begins with an expansion of the pattern, and is one where it is anchored. -/
def Fits (star : α) (pattern text : List α) (anchored : Bool) : Prop :=
  ∃ front rest, Expands star pattern front ∧ text = front ++ rest ∧ (anchored = true → rest = [])

/-- The parts stand in the text in order, each behind a gap; where it is anchored, the last one ends it. -/
def Gapped (anchored : Bool) : List (List α) → List α → Prop
  | [], text => anchored = true → text = []
  | part :: parts, text => ∃ gap rest, text = gap ++ (part ++ rest) ∧ Gapped anchored parts rest

variable {anchored : Bool} {text : List α} {star : α}

theorem fits_nil : Fits star [] text anchored ↔ (anchored = true → text = []) := by
  constructor
  · rintro ⟨_, rest, ⟨⟩, rfl, h⟩
    exact h
  · exact fun h => ⟨[], text, .nil, rfl, h⟩

theorem fits_cons {c : α} (hc : c ≠ star) {pattern : List α} :
    Fits star (c :: pattern) text anchored ↔ ∃ tail, text = c :: tail ∧ Fits star pattern tail anchored := by
  constructor
  · rintro ⟨_, rest, hexpands, rfl, h⟩
    cases hexpands with
    | char _ hexpands => exact ⟨_, rfl, _, rest, hexpands, rfl, h⟩
    | gap => exact absurd rfl hc
  · rintro ⟨_, rfl, front, rest, hexpands, rfl, h⟩
    exact ⟨c :: front, rest, .char hc hexpands, rfl, h⟩

theorem fits_star {pattern : List α} :
    Fits star (star :: pattern) text anchored ↔ ∃ gap tail, text = gap ++ tail ∧ Fits star pattern tail anchored := by
  constructor
  · rintro ⟨_, rest, hexpands, rfl, h⟩
    cases hexpands with
    | char hc => exact absurd rfl hc
    | gap filling hexpands => exact ⟨filling, _, append_assoc .., _, rest, hexpands, rfl, h⟩
  · rintro ⟨gap, _, rfl, front, rest, hexpands, rfl, h⟩
    exact ⟨gap ++ front, rest, .gap gap hexpands, (append_assoc ..).symm, h⟩

variable [DecidableEq α]

theorem splitOn_star (star : α) (pattern : List α) : (star :: pattern).splitOn star = [] :: pattern.splitOn star := by
  rw [List.splitOn, splitOnP_cons_eq_if_modifyHead, if_pos (beq_self_eq_true star)]
  rfl

theorem splitOn_char {c : α} (hc : c ≠ star) (pattern : List α) :
    (c :: pattern).splitOn star = (pattern.splitOn star).modifyHead (List.cons c) := by
  rw [List.splitOn, splitOnP_cons_eq_if_modifyHead, if_neg (by simpa using hc)]
  rfl

/-- A pattern fits where its first part begins the text and the others stand behind it. -/
theorem fits_iff_gapped (star : α) (pattern text : List α) (anchored : Bool) {first : List α} {rest : List (List α)}
    (h : pattern.splitOn star = first :: rest) :
    Fits star pattern text anchored ↔ ∃ tail, text = first ++ tail ∧ Gapped anchored rest tail := by
  induction pattern generalizing text first rest with
  | nil =>
    obtain ⟨rfl, rfl⟩ : [] = first ∧ [] = rest := by simpa [splitOn_nil] using h
    rw [fits_nil]
    exact ⟨fun h => ⟨text, rfl, h⟩, fun ⟨tail, htail, h⟩ => htail ▸ h⟩
  | cons c pattern ih =>
    obtain ⟨first', rest', hsplit⟩ := exists_cons_of_ne_nil (splitOn_ne_nil star pattern)
    by_cases hc : c = star
    · subst hc
      rw [splitOn_star, hsplit] at h
      obtain ⟨rfl, rfl⟩ := List.cons.inj h
      rw [fits_star]
      constructor
      · rintro ⟨gap, tail, rfl, hfits⟩
        obtain ⟨tail', rfl, hgapped⟩ := (ih tail hsplit).mp hfits
        exact ⟨_, rfl, gap, tail', rfl, hgapped⟩
      · rintro ⟨_, rfl, gap, tail', rfl, hgapped⟩
        exact ⟨gap, _, rfl, (ih _ hsplit).mpr ⟨tail', rfl, hgapped⟩⟩
    · rw [splitOn_char hc, hsplit] at h
      obtain ⟨rfl, rfl⟩ := List.cons.inj h
      rw [fits_cons hc]
      constructor
      · rintro ⟨tail, rfl, hfits⟩
        obtain ⟨tail', rfl, hgapped⟩ := (ih tail hsplit).mp hfits
        exact ⟨tail', rfl, hgapped⟩
      · rintro ⟨tail', rfl, hgapped⟩
        exact ⟨_, rfl, (ih _ hsplit).mpr ⟨tail', rfl, hgapped⟩⟩

/-! ### Searching -/

/-- `text.find(part, position)` -/
def find (text part : List α) (position : ℕ) : Option ℕ :=
  (List.range' position (text.length + 1 - position)).find? fun i => part.isPrefixOf (text.drop i)

/-- The parts are searched one behind the other; where the last one ends. -/
def findAll (text : List α) : List (List α) → ℕ → Option ℕ
  | [], position => some position
  | part :: parts, position => (find text part position).bind fun found => findAll text parts (found + part.length)

/-- The parts stand in the text in order behind the position, and end before `stop`. -/
def Occurs (text : List α) : List (List α) → ℕ → ℕ → Prop
  | [], position, stop => position ≤ stop
  | part :: parts, position, stop =>
    ∃ i, position ≤ i ∧ i ≤ text.length ∧ part <+: text.drop i ∧ Occurs text parts (i + part.length) stop

variable {position : ℕ}

theorem find_eq_some {part : List α} {i : ℕ} (h : find text part position = some i) :
    position ≤ i ∧ i ≤ text.length ∧ part <+: text.drop i := by
  have hmem := mem_of_find?_eq_some h
  rw [mem_range'_1] at hmem
  exact ⟨hmem.1, by omega, isPrefixOf_iff_prefix.mp (find?_some (p := fun i => part.isPrefixOf (text.drop i)) h)⟩

theorem find_le {part : List α} {i : ℕ} (hposition : position ≤ i) (hi : i ≤ text.length)
    (hpart : part <+: text.drop i) : ∃ j ≤ i, find text part position = some j := by
  have hmem : i ∈ List.range' position (text.length + 1 - position) := by
    rw [mem_range'_1]
    omega
  cases hfind : find text part position with
  | none =>
    have := find?_eq_none.mp hfind i hmem
    exact absurd (List.isPrefixOf_iff_prefix.mpr hpart) this
  | some j =>
    refine ⟨j, ?_, rfl⟩
    obtain ⟨-, front, back, hsplit, hfront⟩ := find?_eq_some_iff_append.mp hfind
    by_contra hlt
    have hsorted : (List.range' position (text.length + 1 - position)).Pairwise (· < ·) := pairwise_lt_range'
    rw [hsplit, pairwise_append] at hsorted
    rw [hsplit] at hmem
    rcases mem_append.mp hmem with hfirst | hlater
    · have := hfront i hfirst
      rw [List.isPrefixOf_iff_prefix.mpr hpart] at this
      cases this
    · rcases mem_cons.mp hlater with rfl | hlater
      · exact hlt (le_refl _)
      · exact hlt (le_of_lt ((pairwise_cons.mp hsorted.2.1).1 i hlater))

variable {parts : List (List α)}

omit [DecidableEq α] in
theorem Occurs.mono {position' stop : ℕ} (h : Occurs text parts position stop) (hle : position' ≤ position) :
    Occurs text parts position' stop := by
  cases parts with
  | nil => exact hle.trans h
  | cons part parts =>
    obtain ⟨i, hi, hrest⟩ := h
    exact ⟨i, hle.trans hi, hrest⟩

/-- The search ends no later than the parts do anywhere in the text. -/
theorem findAll_of_occurs {stop : ℕ} (h : Occurs text parts position stop) :
    ∃ e ≤ stop, findAll text parts position = some e := by
  induction parts generalizing position with
  | nil => exact ⟨position, h, rfl⟩
  | cons part parts ih =>
    obtain ⟨i, hposition, hi, hpart, hrest⟩ := h
    obtain ⟨j, hj, hfind⟩ := find_le hposition hi hpart
    obtain ⟨e, he, hall⟩ := ih (hrest.mono (Nat.add_le_add_right hj part.length))
    exact ⟨e, he, by rw [findAll, hfind, Option.bind_some, hall]⟩

theorem occurs_of_findAll {e : ℕ} (h : findAll text parts position = some e) : Occurs text parts position e := by
  induction parts generalizing position with
  | nil => exact (Option.some.inj h).le
  | cons part parts ih =>
    rw [findAll] at h
    obtain ⟨i, hfind, h⟩ := Option.bind_eq_some_iff.mp h
    obtain ⟨hposition, hi, hpart⟩ := find_eq_some hfind
    exact ⟨i, hposition, hi, hpart, ih h⟩

/-! ### Gaps and places -/

omit [DecidableEq α] in
theorem gapped_cons_drop {anchored : Bool} {text part : List α} {parts : List (List α)} {position : ℕ}
    (hposition : position ≤ text.length) : Gapped anchored (part :: parts) (text.drop position) ↔
      ∃ i, position ≤ i ∧ i ≤ text.length ∧ part <+: text.drop i ∧
        Gapped anchored parts (text.drop (i + part.length)) := by
  constructor
  · rintro ⟨gap, rest, heq, hgapped⟩
    have hlength := congrArg List.length heq
    rw [length_drop, length_append] at hlength
    have hdrop : text.drop (position + gap.length) = part ++ rest := by
      rw [← drop_drop, heq, drop_left]
    refine ⟨position + gap.length, by omega, by omega, hdrop ▸ prefix_append .., ?_⟩
    rw [← drop_drop, hdrop, drop_left]
    exact hgapped
  · rintro ⟨i, hi, -, ⟨rest, hrest⟩, hgapped⟩
    refine ⟨(text.drop position).take (i - position), rest, ?_, ?_⟩
    · rw [hrest, show i = position + (i - position) by omega, ← drop_drop,
        show position + (i - position) - position = i - position by omega, take_append_drop]
    · rw [← drop_drop, ← hrest, drop_left] at hgapped
      exact hgapped

/-- Without an anchor the search finds the parts exactly when they stand in the text. -/
theorem findAll_isSome_iff (hposition : position ≤ text.length) :
    (findAll text parts position).isSome ↔ Gapped false parts (text.drop position) := by
  have hoccurs : (findAll text parts position).isSome ↔ ∃ stop, Occurs text parts position stop := by
    rw [Option.isSome_iff_exists]
    exact ⟨fun ⟨e, he⟩ => ⟨e, occurs_of_findAll he⟩, fun ⟨_, h⟩ => (findAll_of_occurs h).imp fun _ he => he.2⟩
  rw [hoccurs]
  clear hoccurs
  induction parts generalizing position with
  | nil => exact ⟨fun _ => nofun, fun _ => ⟨position, le_rfl⟩⟩
  | cons part parts ih =>
    rw [gapped_cons_drop hposition]
    constructor
    · rintro ⟨stop, i, hi, htext, hpart, hoccurs⟩
      have hlength := hpart.length_le
      rw [length_drop] at hlength
      exact ⟨i, hi, htext, hpart, (ih (by omega)).mp ⟨stop, hoccurs⟩⟩
    · rintro ⟨i, hi, htext, hpart, hgapped⟩
      have hlength := hpart.length_le
      rw [length_drop] at hlength
      obtain ⟨stop, hoccurs⟩ := (ih (by omega)).mpr hgapped
      exact ⟨stop, i, hi, htext, hpart, hoccurs⟩

/-- With an anchor the last part may end the text behind what the search finds of the others. -/
theorem findAll_last_iff {last : List α} (hposition : position ≤ text.length) :
    (∃ e, findAll text parts position = some e ∧ last <:+ text ∧ e + last.length ≤ text.length) ↔
      Gapped true (parts ++ [last]) (text.drop position) := by
  have hoccurs : (∃ e, findAll text parts position = some e ∧ last <:+ text ∧ e + last.length ≤ text.length) ↔
      ∃ stop, Occurs text parts position stop ∧ last <:+ text ∧ stop + last.length ≤ text.length := by
    constructor
    · rintro ⟨e, he, hlast, hle⟩
      exact ⟨e, occurs_of_findAll he, hlast, hle⟩
    · rintro ⟨stop, h, hlast, hle⟩
      obtain ⟨e, hstop, he⟩ := findAll_of_occurs h
      exact ⟨e, he, hlast, by omega⟩
  rw [hoccurs]
  clear hoccurs
  induction parts generalizing position with
  | nil =>
    rw [nil_append, gapped_cons_drop hposition]
    constructor
    · rintro ⟨stop, hstop, ⟨front, rfl⟩, hle⟩
      rw [length_append] at hle
      refine ⟨front.length, ?_, by simp, by simp only [drop_left, prefix_rfl], fun _ => ?_⟩
      · have : position ≤ stop := hstop
        omega
      · rw [← drop_drop, drop_left, drop_length]
    · rintro ⟨i, hi, htext, ⟨rest, hrest⟩, hnil⟩
      have hend := hnil rfl
      rw [← drop_drop, ← hrest, drop_left] at hend
      rw [hend, append_nil] at hrest
      have hlength := congrArg List.length hrest
      rw [length_drop] at hlength
      exact ⟨i, hi, hrest ▸ drop_suffix .., by omega⟩
  | cons part parts ih =>
    rw [cons_append, gapped_cons_drop hposition]
    constructor
    · rintro ⟨stop, ⟨i, hi, htext, hpart, hoccurs⟩, hlast⟩
      have hlength := hpart.length_le
      rw [length_drop] at hlength
      exact ⟨i, hi, htext, hpart, (ih (by omega)).mp ⟨stop, hoccurs, hlast⟩⟩
    · rintro ⟨i, hi, htext, hpart, hgapped⟩
      have hlength := hpart.length_le
      rw [length_drop] at hlength
      obtain ⟨stop, hoccurs, hlast⟩ := (ih (by omega)).mpr hgapped
      exact ⟨stop, ⟨i, hi, htext, hpart, hoccurs⟩, hlast⟩

end SystemDesign.Wildcard
