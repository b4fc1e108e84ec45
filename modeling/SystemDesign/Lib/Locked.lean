import SystemDesign.Lib.Transaction

/-!
Programs that run under a lock: they read and change a state, and an exception leaves the
changes that were made before it.

A run is computed line by line: each rule says what the first line comes to, and what is left
to run.
-/

namespace SystemDesign

abbrev Locked (ε σ α : Type) := ExceptT ε (StateM σ) α

namespace Locked

variable {ε σ α β : Type}

/-- What the program returns or raises, and the state it leaves. -/
def exec (p : Locked ε σ α) (s : σ) : Except ε α × σ := StateT.run (ExceptT.run p) s

def lift (x : Except ε α) : Locked ε σ α := ExceptT.mk (Pure.pure x)

def effect (f : σ → σ) : Locked ε σ Unit := ExceptT.mk fun s => (.ok (), f s)

def read (f : σ → α) : Locked ε σ α := ExceptT.mk fun s => (.ok (f s), s)

@[simp] theorem exec_pure (a : α) (s : σ) : (Pure.pure a : Locked ε σ α).exec s = (.ok a, s) := rfl

@[simp] theorem exec_lift (x : Except ε α) (s : σ) : (lift x : Locked ε σ α).exec s = (x, s) := rfl

@[simp] theorem exec_effect (f : σ → σ) (s : σ) : (effect f : Locked ε σ Unit).exec s = (.ok (), f s) := rfl

@[simp] theorem exec_read (f : σ → α) (s : σ) : (read f : Locked ε σ α).exec s = (.ok (f s), s) := rfl

@[simp] theorem exec_require {c : Prop} [Decidable c] (h : c) (e : ε) (s : σ) :
    (lift (require c e) : Locked ε σ Unit).exec s = (.ok (), s) := by
  rw [exec_lift, require, if_pos h]

theorem exec_bind (p : Locked ε σ α) (f : α → Locked ε σ β) (s : σ) : (p >>= f).exec s = match p.exec s with
      | (.ok a, s') => (f a).exec s'
      | (.error e, s') => (.error e, s') := by
  simp only [exec, ExceptT.run_bind, StateT.run_bind]
  rcases StateT.run (ExceptT.run p) s with ⟨e | a, s'⟩ <;> rfl

variable {p : Locked ε σ α} {f : α → Locked ε σ β}

theorem exec_bind_ok {s s' : σ} {a : α} (h : p.exec s = (.ok a, s')) : (p >>= f).exec s = (f a).exec s' := by
  rw [exec_bind, h]

theorem exec_bind_error {s s' : σ} {e : ε} (h : p.exec s = (.error e, s')) : (p >>= f).exec s = (.error e, s') := by
  rw [exec_bind, h]

/-! ### Triples -/

/-- From a state with `P` the program leaves a state with `Q`, or one with `R` where it raises. -/
def Leaves (P : σ → Prop) (p : Locked ε σ α) (Q : α → σ → Prop) (R : σ → Prop) : Prop :=
  ∀ s, P s → match p.exec s with
    | (.ok a, s') => Q a s'
    | (.error _, s') => R s'

variable {Q : α → σ → Prop} {P R : σ → Prop}

theorem Leaves.bind {Q' : β → σ → Prop} (hp : Leaves P p Q R) (hf : ∀ a, Leaves (Q a) (f a) Q' R) :
    Leaves P (p >>= f) Q' R := by
  intro s hs
  have h := hp s hs
  rw [exec_bind]
  rcases hrun : p.exec s with ⟨e | a, s'⟩
  · rw [hrun] at h
    exact h
  · rw [hrun] at h
    exact hf a s' h

theorem Leaves.pure {a : α} (h : ∀ s, P s → Q a s) : Leaves P (Pure.pure a : Locked ε σ α) Q R := h

theorem Leaves.effect {f : σ → σ} {Q : Unit → σ → Prop} (h : ∀ s, P s → Q () (f s)) :
    Leaves P (Locked.effect f : Locked ε σ Unit) Q R := h

theorem Leaves.lift {x : Except ε α} (hok : ∀ a, x = .ok a → ∀ s, P s → Q a s) (herror : ∀ s, P s → R s) :
    Leaves P (Locked.lift x) Q R := by
  intro s hs
  rw [exec_lift]
  cases x with
  | error e => exact herror s hs
  | ok a => exact hok a rfl s hs

theorem Leaves.read {f : σ → α} {g : α → Locked ε σ β} {Q : β → σ → Prop}
    (h : ∀ a, Leaves (fun s => P s ∧ f s = a) (g a) Q R) : Leaves P (Locked.read f >>= g) Q R := by
  intro s hs
  rw [exec_bind_ok (exec_read f s)]
  exact h (f s) s ⟨hs, rfl⟩

theorem Leaves.mono {P' : σ → Prop} {Q' : α → σ → Prop} {R' : σ → Prop} (h : Leaves P p Q R) (hP : ∀ s, P' s → P s)
    (hQ : ∀ a s, Q a s → Q' a s) (hR : ∀ s, R s → R' s) : Leaves P' p Q' R' := by
  intro s hs
  have h := h s (hP s hs)
  rcases hrun : p.exec s with ⟨e | a, s'⟩
  · rw [hrun] at h
    exact hR s' h
  · rw [hrun] at h
    exact hQ a s' h

end Locked

end SystemDesign
