import Mathlib.Algebra.Order.Monoid.Defs

/-!
Walks in a weighted graph, and how they leave a settled set.

An edge is used by `takes e d`, at the price `d`. `leaves` is what the searches by settled costs rest on: a walk to a node
that is not settled passes a first one, and what is known about it is at most the price of the walk.
-/

namespace SystemDesign

variable {V E R : Type} [AddCommMonoid R] {src dst : E → V}
  {takes takes' : E → R → Prop} {s t : V} {es : List E} {c : R}

/-- A walk over `es` from a node to a node, and its price. -/
inductive Walk (src dst : E → V) (takes : E → R → Prop) : V → List E → V → R → Prop
  | nil (v : V) : Walk src dst takes v [] v 0
  | cons {e : E} {es : List E} {t : V} {d c : R} (he : takes e d) (h : Walk src dst takes (dst e) es t c) :
      Walk src dst takes (src e) (e :: es) t (d + c)

namespace Walk

theorem concat (h : Walk src dst takes s es t c) {e : E} {d : R} (he : takes e d) (hsrc : src e = t) :
    Walk src dst takes s (es ++ [e]) (dst e) (c + d) := by
  induction h with
  | nil v =>
    subst hsrc
    have hone : Walk src dst takes (src e) [e] (dst e) (d + 0) := .cons he (.nil _)
    rwa [add_zero, ← zero_add d] at hone
  | cons he' h ih =>
    rw [add_assoc]
    exact .cons he' (ih hsrc)

theorem mono (htakes : ∀ e d, takes e d → takes' e d) (h : Walk src dst takes s es t c) :
    Walk src dst takes' s es t c := by
  induction h with
  | nil v => exact .nil v
  | cons he h ih => exact .cons (htakes _ _ he) ih

variable [LinearOrder R] [IsOrderedAddMonoid R]

theorem nonneg (hprice : ∀ e d, takes e d → 0 ≤ d) (h : Walk src dst takes s es t c) : 0 ≤ c := by
  induction h with
  | nil v => exact le_rfl
  | cons he h ih => exact add_nonneg (hprice _ _ he) ih

/-- A walk from a node of cost `c₀` to a node outside of the settled ones meets a node outside of them that is known at a
cost the walk does not beat. -/
theorem leaves (settled : V → Prop) (cost : V → Option R) (hprice : ∀ e d, takes e d → 0 ≤ d)
    (hrelaxed : ∀ e d c₀, takes e d → settled (src e) → cost (src e) = some c₀ → ∃ c', cost (dst e) = some c' ∧ c' ≤ c₀ + d)
    (h : Walk src dst takes s es t c) (ht : ¬ settled t) {c₀ : R} (hs : cost s = some c₀) :
    ∃ v c', ¬ settled v ∧ cost v = some c' ∧ c' ≤ c₀ + c := by
  induction h generalizing c₀ with
  | nil v => exact ⟨v, c₀, ht, hs, (add_zero c₀).ge⟩
  | @cons e es t d c he h ih =>
    by_cases hsettled : settled (src e)
    · obtain ⟨c₁, hc₁, hle⟩ := hrelaxed e d c₀ he hsettled hs
      obtain ⟨v, c', hv, hc', hle'⟩ := ih ht hc₁
      exact ⟨v, c', hv, hc', (hle'.trans (add_le_add_left hle c)).trans_eq (add_assoc c₀ d c)⟩
    · exact ⟨src e, c₀, hsettled, hs, le_add_of_nonneg_right (add_nonneg (hprice e d he) (h.nonneg hprice))⟩

end Walk

end SystemDesign
