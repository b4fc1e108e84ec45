import Mathlib.Data.List.Basic

/-!
Copies of one history.

Each member of a family keeps a log. They are copies of one history when of any two logs one is a
prefix of the other: what two of them hold at a position is then the same. This lasts as long as
only a longest log is written to and the others copy prefixes.
-/

namespace SystemDesign

open List

variable {ι α : Type}

def Comparable (logs : ι → List α) : Prop := ∀ i j, logs i <+: logs j ∨ logs j <+: logs i

/-- A place in a log that is written to at its end is the end, or a place that the log had. -/
theorem split_snoc {log before after : List α} {a b : α} (h : log ++ [a] = before ++ b :: after) :
    (after = [] ∧ b = a ∧ before = log) ∨ ∃ rest, after = rest ++ [a] ∧ log = before ++ b :: rest := by
  obtain rfl | ⟨rest, last, rfl⟩ := after.eq_nil_or_concat
  · obtain ⟨hlog, hlast⟩ := append_inj' h rfl
    exact .inl ⟨rfl, (cons.inj hlast).1.symm, hlog.symm⟩
  · rw [concat_eq_append, ← cons_append, ← append_assoc] at h
    obtain ⟨hlog, hlast⟩ := append_inj' h rfl
    exact .inr ⟨rest, by rw [(cons.inj hlast).1, concat_eq_append], hlog⟩

namespace Comparable

variable {logs : ι → List α} {i j : ι}

theorem prefix_of_length_le (h : Comparable logs) (hle : (logs i).length ≤ (logs j).length) : logs i <+: logs j := by
  obtain hinitial | hinitial := h i j
  · exact hinitial
  · have hsame : logs j = logs i := hinitial.eq_of_length_le hle
    exact hsame ▸ prefix_refl _

/-- A position that both logs have holds the same in both. -/
theorem agree (h : Comparable logs) {n : ℕ} {a : α} (hi : (logs i)[n]? = some a) (hj : n < (logs j).length) :
    (logs j)[n]? = some a := by
  obtain ⟨hlt, -⟩ := List.getElem?_eq_some_iff.mp hi
  obtain ⟨t, ht⟩ | ⟨t, ht⟩ := h i j
  · rw [← ht, getElem?_append_left hlt, hi]
  · rw [← ht, getElem?_append_left hj] at hi
    exact hi

variable [DecidableEq ι]

theorem append (h : Comparable logs) (hlongest : ∀ j, (logs j).length ≤ (logs i).length) (a : α) :
    Comparable (Function.update logs i (logs i ++ [a])) := by
  have hinitial : ∀ j, logs j <+: logs i ++ [a] := fun j =>
    (h.prefix_of_length_le (hlongest j)).trans (prefix_append _ _)
  intro j k
  simp only [Function.update_apply]
  split
  · split
    · exact .inl (prefix_refl _)
    · exact .inr (hinitial k)
  · split
    · exact .inl (hinitial j)
    · exact h j k

/-- A log may be replaced by a prefix of another. -/
theorem copy (h : Comparable logs) {log : List α} (hlog : log <+: logs i) : Comparable (Function.update logs j log) := by
  have hothers : ∀ k, logs k <+: log ∨ log <+: logs k := by
    intro k
    obtain hinitial | hinitial := h k i
    · exact prefix_or_prefix_of_prefix hinitial hlog
    · exact .inr (hlog.trans hinitial)
  intro k l
  simp only [Function.update_apply]
  split
  · split
    · exact .inl (prefix_refl _)
    · exact (hothers l).symm
  · split
    · exact hothers k
    · exact h k l

end Comparable

end SystemDesign
