import SystemDesign.Lib.Dict

/-!
Vector clocks (`replication/vector_clock.py`).

`dominates` compares entry by entry and counts a node that only the left clock
lists as a strictly greater counter, whatever its counter is. `dominates_iff`
says what that amounts to: the counters are at least those of the other clock,
and the clocks differ in a counter or the left one lists a node more.
-/

namespace SystemDesign.KvStore

open Dict

/-- A clock; counters are the non-negative integers every reader checks for. -/
structure VectorClock where
  entries : Dict String ℕ
  maxEntries : ℕ := 10
deriving DecidableEq

namespace VectorClock

/-- The loop over the other clock's entries: `none` where the source returns `False`. -/
def compareEntries (mine : Dict String ℕ) : Bool → List (String × ℕ) → Option Bool
  | greater, [] => some greater
  | greater, (node, otherCounter) :: rest =>
      let selfCounter := (mine.get? node).getD 0
      if selfCounter < otherCounter then none
      else compareEntries mine (greater || otherCounter < selfCounter) rest

def dominates (c other : VectorClock) : Bool :=
  if c.entries.entries.isEmpty && other.entries.entries.isEmpty then false
  else match compareEntries c.entries false other.entries.entries with
    | none => false
    | some hasStrictlyGreater =>
        hasStrictlyGreater || c.entries.keys.any fun node => !other.entries.contains node

/-! ### What `dominates` means -/

/-- The counter of a node, zero when the clock does not list it. -/
def counter (c : VectorClock) (node : String) : ℕ := (c.entries.get? node).getD 0

/-- The nodes a clock lists. -/
def Lists (c : VectorClock) (node : String) : Prop := ∃ n, c.entries.get? node = some n

theorem compareEntries_eq_some {mine : Dict String ℕ} {l : List (String × ℕ)} {g b : Bool} :
    compareEntries mine g l = some b ↔ (∀ e ∈ l, e.2 ≤ (mine.get? e.1).getD 0) ∧
      (b = true ↔ g = true ∨ ∃ e ∈ l, e.2 < (mine.get? e.1).getD 0) := by
  induction l generalizing g with
  | nil => cases b <;> cases g <;> simp [compareEntries]
  | cons e l ih =>
    obtain ⟨node, n⟩ := e
    simp only [compareEntries]
    by_cases hlt : (mine.get? node).getD 0 < n
    · rw [if_pos hlt]
      constructor
      · intro h
        cases h
      · rintro ⟨h, -⟩
        exact absurd (h _ List.mem_cons_self) (not_le.mpr hlt)
    · rw [if_neg hlt, ih, List.forall_mem_cons]
      have hle : n ≤ (mine.get? node).getD 0 := not_lt.mp hlt
      simp only [Bool.or_eq_true, decide_eq_true_eq, List.mem_cons, exists_eq_or_imp, hle, true_and, or_assoc]

theorem counter_of_not_lists {c : VectorClock} {node : String} (h : ¬ c.Lists node) : c.counter node = 0 := by
  cases hget : c.entries.get? node with
  | none => simp [counter, hget]
  | some n => exact absurd ⟨n, hget⟩ h

/-- All entries of the other clock are met iff all counters are. -/
theorem entries_le_iff {c other : VectorClock} :
    (∀ e ∈ other.entries.entries, e.2 ≤ (c.entries.get? e.1).getD 0) ↔ other.counter ≤ c.counter := by
  constructor
  · intro h node
    by_cases hl : other.Lists node
    · obtain ⟨n, hn⟩ := hl
      have := h (node, n) (mem_entries.mpr hn)
      simpa [counter, hn] using this
    · rw [counter_of_not_lists hl]
      exact Nat.zero_le _
  · rintro h ⟨node, n⟩ he
    have hn := mem_entries.mp he
    have := h node
    simpa [counter, hn] using this

theorem dominates_iff {c other : VectorClock} : c.dominates other = true ↔
    other.counter ≤ c.counter ∧ (c.counter ≠ other.counter ∨ ∃ node, c.Lists node ∧ ¬ other.Lists node) := by
  have hlisted : (c.entries.keys.any fun node => !other.entries.contains node) = true ↔
      ∃ node, c.Lists node ∧ ¬ other.Lists node := by
    simp only [List.any_eq_true, Dict.mem_keys, Bool.not_eq_true', contains_eq_false_iff, Lists, not_exists]
    refine exists_congr fun node => and_congr_right fun _ => ?_
    cases other.entries.get? node <;> simp
  -- a strictly greater counter shows up in one of the two loops
  have hgreater : other.counter ≤ c.counter →
      ((∃ e ∈ other.entries.entries, e.2 < (c.entries.get? e.1).getD 0) ∨ ∃ node, c.Lists node ∧ ¬ other.Lists node) →
      c.counter ≠ other.counter ∨ ∃ node, c.Lists node ∧ ¬ other.Lists node := by
    rintro - (⟨⟨node, n⟩, he, hlt⟩ | h)
    · refine .inl fun heq => ?_
      have hn := mem_entries.mp he
      have := congrFun heq node
      simp only [counter, hn, Option.getD_some] at this
      simp only at hlt
      omega
    · exact .inr h
  have hfound : other.counter ≤ c.counter → (c.counter ≠ other.counter ∨ ∃ node, c.Lists node ∧ ¬ other.Lists node) →
      (∃ e ∈ other.entries.entries, e.2 < (c.entries.get? e.1).getD 0) ∨ ∃ node, c.Lists node ∧ ¬ other.Lists node := by
    rintro hle (hne | h)
    · obtain ⟨node, hnode⟩ := Function.ne_iff.mp hne
      have hlt : other.counter node < c.counter node := lt_of_le_of_ne (hle node) (Ne.symm hnode)
      by_cases hl : other.Lists node
      · obtain ⟨n, hn⟩ := hl
        exact .inl ⟨(node, n), mem_entries.mpr hn, by simpa [counter, hn] using hlt⟩
      · refine .inr ⟨node, ?_, hl⟩
        by_contra hc
        rw [counter_of_not_lists hc] at hlt
        omega
    · exact .inr h
  unfold dominates
  split_ifs with hempty
  · simp only [Bool.and_eq_true, List.isEmpty_iff] at hempty
    have hnone : ∀ node, ¬ c.Lists node := by
      rintro node ⟨n, hn⟩
      have := mem_entries.mpr hn
      simp [hempty.1] at this
    have hnone' : ∀ node, ¬ other.Lists node := by
      rintro node ⟨n, hn⟩
      have := mem_entries.mpr hn
      simp [hempty.2] at this
    have heq : c.counter = other.counter := funext fun node => by
      rw [counter_of_not_lists (hnone node), counter_of_not_lists (hnone' node)]
    simp [heq, hnone]
  · cases hcmp : compareEntries c.entries false other.entries.entries with
    | none =>
      simp only [Bool.false_eq_true, false_iff]
      rintro ⟨hle, -⟩
      have := compareEntries_eq_some (g := false)
        (b := decide (∃ e ∈ other.entries.entries, e.2 < (c.entries.get? e.1).getD 0))
        |>.mpr ⟨entries_le_iff.mpr hle, by simp⟩
      rw [hcmp] at this
      cases this
    | some b =>
      obtain ⟨hle, hb⟩ := compareEntries_eq_some.mp hcmp
      have hle' := entries_le_iff.mp hle
      simp only [Bool.or_eq_true, hlisted, hb, Bool.false_eq_true, false_or, hle', true_and]
      exact ⟨hgreater hle', hfound hle'⟩

end VectorClock

end SystemDesign.KvStore
