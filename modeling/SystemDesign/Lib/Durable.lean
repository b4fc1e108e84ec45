import Mathlib.Data.List.Basic

/-!
Programs over state that survives a crash.

A program passes through states, one after each atomic effect; a crash leaves one of
them. `Spec P p C Q`: from a state with `P`, every state `p` passes through has `C`, and the
result and the state it ends in have `Q`. The rules follow the program's text.
-/

namespace SystemDesign

/-- What a run passes through, and what it comes to. -/
structure Trail (ε σ α : Type) where
  passed : List σ
  result : Except ε α
  final : σ

def Durable (ε σ α : Type) : Type := σ → Trail ε σ α

namespace Durable

variable {ε σ α β : Type}

instance : Monad (Durable ε σ) where
  pure a := fun s => ⟨[], .ok a, s⟩
  bind p f := fun s =>
    let t := p s
    match t.result with
    | .ok a => ⟨t.passed ++ (f a t.final).passed, (f a t.final).result, (f a t.final).final⟩
    | .error e => ⟨t.passed, .error e, t.final⟩

def read : Durable ε σ σ := fun s => ⟨[], .ok s, s⟩

/-- One atomic change. -/
def effect (f : σ → σ) : Durable ε σ Unit := fun s => ⟨[f s], .ok (), f s⟩

def lift (x : Except ε α) : Durable ε σ α := fun s => ⟨[], x, s⟩

def each (f : β → Durable ε σ Unit) : List β → Durable ε σ Unit
  | [] => pure ()
  | b :: bs => do
    f b
    each f bs

/-- What a crash during a program can leave, its last state included. -/
def Leaves (p : Durable ε σ α) (s s' : σ) : Prop := s' = s ∨ s' ∈ (p s).passed

structure Spec (P : σ → Prop) (p : Durable ε σ α) (C : σ → Prop) (Q : Except ε α → σ → Prop) : Prop where
  crash : ∀ s, P s → ∀ s' ∈ (p s).passed, C s'
  done : ∀ s, P s → Q (p s).result (p s).final

variable {Q : Except ε α → σ → Prop} {C P : σ → Prop}

theorem Spec.pure {a : α} (h : ∀ s, P s → Q (.ok a) s) : Spec P (Pure.pure a : Durable ε σ α) C Q :=
  ⟨fun _ _ _ hs' => (nomatch hs'), h⟩

theorem Spec.lift {x : Except ε α} (h : ∀ s, P s → Q x s) : Spec P (Durable.lift x : Durable ε σ α) C Q :=
  ⟨fun _ _ _ hs' => (nomatch hs'), h⟩

theorem Spec.effect {Q : Except ε Unit → σ → Prop} {f : σ → σ} (hc : ∀ s, P s → C (f s))
    (hq : ∀ s, P s → Q (.ok ()) (f s)) : Spec P (Durable.effect f : Durable ε σ Unit) C Q := by
  constructor
  · intro s hs s' hs'
    obtain rfl := List.mem_singleton.mp hs'
    exact hc s hs
  · exact hq

/-- A program and what follows it; an exception ends both. -/
theorem Spec.bind {P C : σ → Prop} {R : α → σ → Prop} {Q : Except ε β → σ → Prop}
    {p : Durable ε σ α} {f : α → Durable ε σ β}
    (hp : Spec P p C fun r s => match r with
      | .ok a => R a s
      | .error e => Q (.error e) s)
    (hf : ∀ a, Spec (R a) (f a) C Q) : Spec P (p >>= f) C Q := by
  constructor
  · intro s hs s' hs'
    have hdone := hp.done s hs
    simp only [Bind.bind] at hs'
    cases hr : (p s).result with
    | ok a =>
      rw [hr] at hs' hdone
      rw [List.mem_append] at hs'
      obtain hs' | hs' := hs'
      · exact hp.crash s hs s' hs'
      · exact (hf a).crash _ hdone s' hs'
    | error e =>
      rw [hr] at hs'
      exact hp.crash s hs s' hs'
  · intro s hs
    have hdone := hp.done s hs
    simp only [Bind.bind]
    cases hr : (p s).result with
    | ok a =>
      rw [hr] at hdone
      exact (hf a).done _ hdone
    | error e =>
      rw [hr] at hdone
      exact hdone

theorem Spec.read {P C : σ → Prop} {Q : Except ε β → σ → Prop} {f : σ → Durable ε σ β}
    (h : ∀ d, P d → Spec (fun s => s = d) (f d) C Q) : Spec P (Durable.read >>= f) C Q := by
  constructor
  · intro s hs s' hs'
    have hmem : s' ∈ (f s s).passed := by simpa [Bind.bind, Durable.read] using hs'
    exact (h s hs).crash s rfl s' hmem
  · exact fun s hs => (h s hs).done s rfl

variable {p : Durable ε σ α}

theorem Spec.mono {P' C' : σ → Prop} {Q' : Except ε α → σ → Prop} (h : Spec P p C Q) (hP : ∀ s, P' s → P s)
    (hC : ∀ s, C s → C' s) (hQ : ∀ r s, Q r s → Q' r s) : Spec P' p C' Q' :=
  ⟨fun s hs s' hs' => hC s' (h.crash s (hP s hs) s' hs'), fun s hs => hQ _ _ (h.done s (hP s hs))⟩

/-! From one state, a program is run line by line. -/

theorem lift_ok_bind (a : α) (f : α → Durable ε σ β) : (Durable.lift (.ok a) >>= f) = f a := rfl

theorem lift_error_bind (e : ε) (f : α → Durable ε σ β) :
    (Durable.lift (.error e) >>= f) = Durable.lift (.error e) := rfl

variable {d : σ}

theorem Spec.read_bind {Q : Except ε β → σ → Prop} {f : σ → Durable ε σ β} (h : Spec (fun s => s = d) (f d) C Q) :
    Spec (fun s => s = d) (Durable.read >>= f) C Q :=
  Spec.read fun _ hd => hd ▸ h

theorem Spec.effect_bind {Q : Except ε β → σ → Prop} {f : σ → σ} {g : Unit → Durable ε σ β} (hc : C (f d))
    (h : Spec (fun s => s = f d) (g ()) C Q) : Spec (fun s => s = d) (Durable.effect f >>= g) C Q := by
  apply Spec.bind (R := fun _ s => s = f d)
  · apply Spec.effect
    · rintro s rfl
      exact hc
    · rintro s rfl
      rfl
  · exact fun _ => h

theorem Spec.effect_at {Q : Except ε Unit → σ → Prop} {f : σ → σ} (hc : C (f d)) (hq : Q (.ok ()) (f d)) :
    Spec (fun s => s = d) (Durable.effect f) C Q := by
  apply Spec.effect
  · rintro s rfl
    exact hc
  · rintro s rfl
    exact hq

theorem Spec.lift_at {x : Except ε α} (h : Q x d) : Spec (fun s => s = d) (Durable.lift x) C Q := by
  apply Spec.lift
  rintro s rfl
  exact h

theorem Spec.guard {Q : Except ε β → σ → Prop} {c : Prop} [Decidable c] {e : ε} {f : Unit → Durable ε σ β}
    (herror : Q (.error e) d) (h : c → Spec (fun s => s = d) (f ()) C Q) :
    Spec (fun s => s = d) (Durable.lift (if c then .ok () else .error e) >>= f) C Q := by
  by_cases hc : c
  · rw [if_pos hc, lift_ok_bind]
    exact h hc
  · rw [if_neg hc, lift_error_bind]
    exact Spec.lift_at herror

theorem Spec.pure_at {a : α} (h : Q (.ok a) d) : Spec (fun s => s = d) (Pure.pure a) C Q := by
  apply Spec.pure
  rintro s rfl
  exact h

/-- A program known to return, and what follows it. -/
theorem Spec.call {D : σ → Prop} {R : α → σ → Prop} {Q : Except ε β → σ → Prop} {f : α → Durable ε σ β}
    (hp : Spec P p D fun r s => ∃ a, r = .ok a ∧ R a s) (hC : ∀ s, D s → C s)
    (hf : ∀ a d, R a d → Spec (fun s => s = d) (f a) C Q) : Spec P (p >>= f) C Q := by
  apply Spec.bind (R := R)
  · apply hp.mono (fun _ hs => hs) hC
    rintro r s ⟨a, rfl, ha⟩
    exact ha
  · intro a
    exact ⟨fun s hs => (hf a s hs).crash s rfl, fun s hs => (hf a s hs).done s rfl⟩

/-- A loop over a list: `I` says where it stands. -/
theorem Spec.each {I : List β → σ → Prop} {f : β → Durable ε σ Unit} (items : List β)
    (h : ∀ b bs, b :: bs <:+ items → Spec (I (b :: bs)) (f b) C fun r s => r = .ok () ∧ I bs s) :
    Spec (I items) (Durable.each f items) C fun r s => r = .ok () ∧ I [] s := by
  induction items with
  | nil => exact Spec.pure fun s hs => ⟨rfl, hs⟩
  | cons b bs ih =>
    have hfirst := h b bs (List.suffix_refl _)
    have hrest := ih fun c cs hcs => h c cs (hcs.trans (List.suffix_cons b bs))
    apply Spec.bind (R := fun _ s => I bs s)
    · apply hfirst.mono (fun _ hs => hs) (fun _ hs => hs)
      rintro r s ⟨rfl, hs⟩
      exact hs
    · exact fun _ => hrest

theorem Spec.leaves (h : Spec P p C Q) {s s' : σ} (hs : P s) (hC : C s) (hl : p.Leaves s s') : C s' := by
  obtain rfl | hl := hl
  · exact hC
  · exact h.crash s hs s' hl

end Durable

end SystemDesign
