import Mathlib

/-!
The newest of several entries.

Of two entries the later one is taken, and of two of one time the first. This is associative, so the newest entry
of a list can be found piece by piece.
-/

namespace SystemDesign

open List hiding not_lt

variable {α τ : Type} [LinearOrder τ]

/-- The candidate is taken when it is newer. -/
def newerOf (time : α → τ) (best candidate : Option α) : Option α :=
  match candidate with
  | none => best
  | some c =>
    match best with
    | none => some c
    | some b => if time b < time c then some c else some b

def newestOf (time : α → τ) (entries : List (Option α)) : Option α := entries.foldl (newerOf time) none

variable {time : α → τ} {entries : List (Option α)}

@[simp] theorem newerOf_none (best : Option α) : newerOf time best none = best := rfl

@[simp] theorem none_newerOf (candidate : Option α) : newerOf time none candidate = candidate := by
  cases candidate <;> rfl

theorem newerOf_some (b c : α) : newerOf time (some b) (some c) = if time b < time c then some c else some b := rfl

theorem newerOf_assoc (a b c : Option α) : newerOf time (newerOf time a b) c = newerOf time a (newerOf time b c) := by
  cases a with
  | none => simp
  | some a =>
    cases b with
    | none => simp
    | some b =>
      cases c with
      | none => simp
      | some c =>
        rw [newerOf_some, newerOf_some]
        by_cases hab : time a < time b <;> by_cases hbc : time b < time c
        · rw [if_pos hab, if_pos hbc, newerOf_some, newerOf_some, if_pos hbc, if_pos (hab.trans hbc)]
        · rw [if_pos hab, if_neg hbc, newerOf_some, newerOf_some, if_neg hbc, if_pos hab]
        · rw [if_neg hab, if_pos hbc]
        · rw [if_neg hab, if_neg hbc, newerOf_some, newerOf_some, if_neg hab,
            if_neg ((not_lt.mp hbc).trans (not_lt.mp hab)).not_gt]

theorem foldl_newerOf (entries : List (Option α)) (best : Option α) :
    entries.foldl (newerOf time) best = newerOf time best (newestOf time entries) := by
  induction entries generalizing best with
  | nil => rfl
  | cons entry entries ih =>
    unfold newestOf
    rw [foldl_cons, foldl_cons, ih, ih (newerOf time none entry), none_newerOf, newerOf_assoc]

@[simp] theorem newestOf_nil : newestOf time ([] : List (Option α)) = none := rfl

theorem newestOf_cons (entry : Option α) (entries : List (Option α)) :
    newestOf time (entry :: entries) = newerOf time entry (newestOf time entries) := by
  rw [newestOf, foldl_cons, foldl_newerOf, none_newerOf]

theorem newestOf_append (entries later : List (Option α)) :
    newestOf time (entries ++ later) = newerOf time (newestOf time entries) (newestOf time later) := by
  rw [newestOf, foldl_append, foldl_newerOf]
  rfl

theorem newestOf_part (before part after : List (Option α)) :
    newestOf time (before ++ newestOf time part :: after) = newestOf time (before ++ part ++ after) := by
  rw [newestOf_append, newestOf_cons, newestOf_append, newestOf_append, newerOf_assoc]

theorem newestOf_mem {a : α} (h : newestOf time entries = some a) : some a ∈ entries := by
  induction entries with
  | nil => cases h
  | cons entry entries ih =>
    rw [newestOf_cons] at h
    cases entry with
    | none => exact mem_cons_of_mem _ (ih ((none_newerOf _).symm.trans h))
    | some b =>
      cases hrest : newestOf time entries with
      | none =>
        rw [hrest] at h
        exact h ▸ mem_cons_self
      | some c =>
        rw [hrest, newerOf_some] at h
        split at h
        · exact mem_cons_of_mem _ (ih (hrest.trans h))
        · exact h ▸ mem_cons_self

theorem newestOf_eq_none (h : ∀ entry ∈ entries, entry = none) : newestOf time entries = none := by
  cases hnewest : newestOf time entries with
  | none => rfl
  | some a => cases h _ (newestOf_mem hnewest)

/-- The newest entry is the first of those that are not older than any other. -/
theorem newestOf_eq_some {i : ℕ} {a : α} (hi : entries[i]? = some (some a))
    (hfirst : ∀ j b, entries[j]? = some (some b) → time b ≤ time a ∧ (j < i → time b < time a)) :
    newestOf time entries = some a := by
  induction entries generalizing i with
  | nil => cases hi
  | cons entry entries ih =>
    rw [newestOf_cons]
    cases i with
    | zero =>
      obtain rfl : entry = some a := Option.some.inj hi
      cases hrest : newestOf time entries with
      | none => rfl
      | some b =>
        obtain ⟨j, hj⟩ := mem_iff_getElem?.mp (newestOf_mem hrest)
        rw [newerOf_some, if_neg (hfirst (j + 1) b hj).1.not_gt]
    | succ i =>
      rw [ih hi fun j b hj => ⟨(hfirst (j + 1) b hj).1, fun hlt => (hfirst (j + 1) b hj).2 (Nat.succ_lt_succ hlt)⟩]
      cases entry with
      | none => rfl
      | some b => rw [newerOf_some, if_pos ((hfirst 0 b rfl).2 (Nat.succ_pos i))]

end SystemDesign
