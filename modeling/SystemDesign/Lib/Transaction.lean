import Mathlib.Data.List.Basic

/-!
Checks that raise and transactions that roll back.

A write transaction runs on a copy of the store: what it raises leaves the store as
it was, and what it returns commits all of its changes at once.
-/

namespace SystemDesign

open List

variable {ε α β σ : Type}

/-- A check: it raises `e` unless `c` holds. -/
def require (c : Prop) [Decidable c] (e : ε) : Except ε Unit := if c then .ok () else .error e

@[simp] theorem require_eq_ok {c : Prop} [Decidable c] {e : ε} {u : Unit} : require c e = .ok u ↔ c := by
  by_cases h : c <;> simp [require, h]

variable {f : α → Except ε β}

theorem bind_eq_ok {x : Except ε α} {b : β} : (x >>= f) = .ok b ↔ ∃ a, x = .ok a ∧ f a = .ok b := by
  cases x with
  | error e => simp [bind, Except.bind]
  | ok a => simp [bind, Except.bind]

theorem of_bind {x : Except ε α} {b : β} (h : (x >>= f) = .ok b) : ∃ a, x = .ok a ∧ f a = .ok b := bind_eq_ok.mp h

theorem of_check {x : Except ε Unit} {f : Unit → Except ε β} {b : β} (h : (x >>= f) = .ok b) : f () = .ok b := by
  obtain ⟨_, -, hrest⟩ := bind_eq_ok.mp h
  exact hrest

/-! ### Calls that avoid an error -/

/-- The call returns what satisfies `P`, or raises something else than `bad`. -/
def Avoids (bad : ε) (P : α → Prop) : Except ε α → Prop
  | .ok a => P a
  | .error e => e ≠ bad

namespace Avoids

variable {bad : ε} {P : α → Prop} {Q : β → Prop}

theorem raises {e : ε} (h : e ≠ bad) : Avoids bad P (.error e) := h

theorem check {c : Prop} [Decidable c] {e : ε} (h : e ≠ bad) : Avoids bad (fun _ => c) (require c e) := by
  by_cases hc : c
  · simp [require, hc, Avoids]
  · simpa [require, hc, Avoids] using h

variable {x : Except ε α}

theorem bind (hx : Avoids bad P x) (hf : ∀ a, P a → Avoids bad Q (f a)) : Avoids bad Q (x >>= f) := by
  cases x with
  | ok a => exact hf a hx
  | error e => exact hx

theorem mono {P' : α → Prop} (hx : Avoids bad P x) (h : ∀ a, P a → P' a) : Avoids bad P' x := by
  cases x with
  | ok a => exact h a hx
  | error e => exact hx

theorem eq_ok (h : Avoids bad P x) : Avoids bad (fun a => P a ∧ x = .ok a) x := by
  cases x with
  | ok a => exact ⟨h, rfl⟩
  | error e => exact h

theorem foldlM {P : σ → Prop} {step : σ → α → Except ε σ} (xs : List α) {s : σ} (hs : P s)
    (hstep : ∀ s x, P s → Avoids bad P (step s x)) : Avoids bad P (xs.foldlM step s) := by
  induction xs generalizing s with
  | nil => exact hs
  | cons x xs ih =>
    rw [foldlM_cons]
    exact (hstep s x hs).bind fun t ht => ih ht

theorem mapM (xs : List α) (hf : ∀ x, Avoids bad Q (f x)) : Avoids bad (fun ys => ∀ y ∈ ys, Q y) (xs.mapM f) := by
  induction xs with
  | nil =>
    rw [mapM_nil]
    exact fun y hy => nomatch hy
  | cons x xs ih =>
    rw [mapM_cons]
    refine (hf x).bind fun y hy => ih.bind fun ys hys => ?_
    intro z hz
    rcases mem_cons.mp hz with rfl | hz
    · exact hy
    · exact hys z hz

end Avoids

theorem mapM_ok {g : α → β} {l : List α} (h : ∀ a ∈ l, f a = .ok (g a)) : l.mapM f = .ok (l.map g) := by
  induction l with
  | nil => rfl
  | cons a l ih =>
    rw [mapM_cons, h a mem_cons_self, ih fun b hb => h b (mem_cons_of_mem _ hb)]
    rfl

/-- What each item of a loop that returns keeps, said of the items done. -/
theorem foldlM_ok {I : σ → List α → Prop} {f : σ → α → Except ε σ}
    (hstep : ∀ s s' done x, I s done → f s x = .ok s' → I s' (done ++ [x])) (xs done : List α) {s s' : σ}
    (hs : I s done) (h : xs.foldlM f s = .ok s') : I s' (done ++ xs) := by
  induction xs generalizing s done with
  | nil =>
    cases h
    simpa using hs
  | cons x xs ih =>
    rw [foldlM_cons, bind_eq_ok] at h
    obtain ⟨next, hnext, hrest⟩ := h
    simpa using ih (done ++ [x]) (hstep _ _ _ _ hs hnext) hrest

/-! ### Transactions -/

/-- A write transaction: the store afterwards and what the call returned or raised. -/
def transaction (s : σ) (body : σ → Except ε (σ × α)) : σ × Except ε α :=
  match body s with
  | .ok (s', a) => (s', .ok a)
  | .error e => (s, .error e)

theorem transaction_cases (s : σ) (body : σ → Except ε (σ × α)) :
    (∃ s' a, body s = .ok (s', a) ∧ transaction s body = (s', .ok a)) ∨
      ∃ e, body s = .error e ∧ transaction s body = (s, .error e) := by
  cases h : body s with
  | ok p => exact .inl ⟨p.1, p.2, rfl, by simp [transaction, h]⟩
  | error e => exact .inr ⟨e, rfl, by simp [transaction, h]⟩

end SystemDesign
