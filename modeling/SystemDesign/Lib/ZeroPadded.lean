import Mathlib.Data.Nat.Digits.Defs

/-!
Decimal numbers of a fixed width.

They are compared as texts as the numbers are, also in front of other texts (`zeroPadded_append_lt`).
-/

namespace SystemDesign

open List

/-- `f"{n:0{width}d}"` of a number that is not wider -/
def zeroPadded : ℕ → ℕ → List Char
  | 0, _ => []
  | width + 1, n => Nat.digitChar (n / 10 ^ width) :: zeroPadded width (n % 10 ^ width)

/-- `int(text)` of decimal digits -/
def decimalValue (text : List Char) : ℕ := text.foldl (fun value c => value * 10 + (c.toNat - 48)) 0

theorem length_zeroPadded (width n : ℕ) : (zeroPadded width n).length = width := by
  induction width generalizing n with
  | zero => rfl
  | succ width ih => rw [zeroPadded, length_cons, ih]

theorem digitChar_lt : ∀ d < 10, ∀ e < 10, (Nat.digitChar d < Nat.digitChar e ↔ d < e) := by decide

theorem digitChar_value : ∀ d < 10, (Nat.digitChar d).toNat - 48 = d := by decide

theorem digitChar_isDigit : ∀ d < 10, (Nat.digitChar d).isDigit = true := by decide

theorem zeroPadded_isDigit {width n : ℕ} (h : n < 10 ^ width) : ∀ c ∈ zeroPadded width n, c.isDigit = true := by
  induction width generalizing n with
  | zero => exact fun _ hc => absurd hc not_mem_nil
  | succ width ih =>
    intro c hc
    have hpos : 0 < 10 ^ width := Nat.pow_pos (by omega)
    rcases mem_cons.mp hc with rfl | hc
    · exact digitChar_isDigit _ (Nat.div_lt_of_lt_mul (by rwa [pow_succ] at h))
    · exact ih (Nat.mod_lt _ hpos) c hc

theorem zeroPadded_append_lt {width n m : ℕ} (hn : n < 10 ^ width) (hm : m < 10 ^ width) (x y : List Char) :
    zeroPadded width n ++ x < zeroPadded width m ++ y ↔ n < m ∨ n = m ∧ x < y := by
  induction width generalizing n m with
  | zero =>
    have hn' : n = 0 := by simpa using hn
    have hm' : m = 0 := by simpa using hm
    subst hn' hm'
    simp [zeroPadded]
  | succ width ih =>
    have hpos : 0 < 10 ^ width := Nat.pow_pos (by omega)
    have hdivn : n / 10 ^ width < 10 := Nat.div_lt_of_lt_mul (by rwa [pow_succ] at hn)
    have hdivm : m / 10 ^ width < 10 := Nat.div_lt_of_lt_mul (by rwa [pow_succ] at hm)
    rw [zeroPadded, zeroPadded, cons_append, cons_append, cons_lt_cons_iff, digitChar_lt _ hdivn _ hdivm,
      ih (Nat.mod_lt _ hpos) (Nat.mod_lt _ hpos)]
    have hchar : Nat.digitChar (n / 10 ^ width) = Nat.digitChar (m / 10 ^ width) ↔ n / 10 ^ width = m / 10 ^ width := by
      constructor
      · intro heq
        rw [← digitChar_value _ hdivn, heq, digitChar_value _ hdivm]
      · exact congrArg _
    rw [hchar]
    have hsplitn := Nat.div_add_mod n (10 ^ width)
    have hsplitm := Nat.div_add_mod m (10 ^ width)
    have hmodn := Nat.mod_lt n hpos
    have hmodm := Nat.mod_lt m hpos
    generalize n / 10 ^ width = a at *
    generalize m / 10 ^ width = b at *
    generalize n % 10 ^ width = c at *
    generalize m % 10 ^ width = d at *
    generalize 10 ^ width = t at *
    subst hsplitn hsplitm
    constructor
    · rintro (hlt | ⟨rfl, hlt | ⟨rfl, hlt⟩⟩)
      · left
        nlinarith
      · left
        omega
      · exact .inr ⟨rfl, hlt⟩
    · rcases lt_trichotomy a b with hab | rfl | hab
      · exact fun _ => .inl hab
      · rintro (hlt | ⟨heq, hlt⟩)
        · exact .inr ⟨rfl, .inl (by omega)⟩
        · exact .inr ⟨rfl, .inr ⟨by omega, hlt⟩⟩
      · rintro (hlt | ⟨heq, hlt⟩)
        · nlinarith
        · nlinarith

theorem foldl_zeroPadded (value : ℕ) {width n : ℕ} (h : n < 10 ^ width) :
    (zeroPadded width n).foldl (fun value c => value * 10 + (c.toNat - 48)) value = value * 10 ^ width + n := by
  induction width generalizing value n with
  | zero =>
    have hn : n = 0 := by simpa using h
    simp [zeroPadded, hn]
  | succ width ih =>
    have hpos : 0 < 10 ^ width := Nat.pow_pos (by omega)
    rw [zeroPadded, foldl_cons, ih _ (Nat.mod_lt _ hpos),
      digitChar_value _ (Nat.div_lt_of_lt_mul (by rwa [pow_succ] at h))]
    have hsplit := Nat.div_add_mod n (10 ^ width)
    calc (value * 10 + n / 10 ^ width) * 10 ^ width + n % 10 ^ width
        = value * 10 ^ (width + 1) + (10 ^ width * (n / 10 ^ width) + n % 10 ^ width) := by ring
      _ = value * 10 ^ (width + 1) + n := by rw [hsplit]

theorem decimalValue_zeroPadded {width n : ℕ} (h : n < 10 ^ width) : decimalValue (zeroPadded width n) = n := by
  rw [decimalValue, foldl_zeroPadded 0 h, Nat.zero_mul, Nat.zero_add]

end SystemDesign
