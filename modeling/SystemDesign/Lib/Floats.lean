import SystemDesign.Lib.Json

/-!
The value of a float literal and the literal of an integer.

`repr` prints the shortest literal that reads back as the float, and rounding is
monotone, so a float and a bound that is itself a float compare as their literals do.
-/

namespace SystemDesign.FloatLit

open List

/-- What the text from the letter `e` on says. -/
def exponent : List Char → ℤ
  | _ :: '-' :: ds => -(Nat.ofDigitChars 10 ds 0 : ℤ)
  | _ :: '+' :: ds => Nat.ofDigitChars 10 ds 0
  | _ :: ds => Nat.ofDigitChars 10 ds 0
  | [] => 0

def magnitude (body : List Char) : ℚ :=
  let whole := body.takeWhile Char.isDigit
  let rest := body.dropWhile Char.isDigit
  let fraction := if rest.head? = some '.' then rest.tail.takeWhile Char.isDigit else []
  let power := if rest.head? = some '.' then rest.tail.dropWhile Char.isDigit else rest
  Nat.ofDigitChars 10 (whole ++ fraction) 0 * (10 : ℚ) ^ (exponent power - fraction.length)

def value (x : FloatLit) : ℚ := if x.text.head? = some '-' then -magnitude x.text.tail else magnitude x.text

theorem natLiteral_append_point (ds rest : List Char) : natLiteral (ds ++ '.' :: rest) = none := by
  unfold natLiteral
  rw [if_neg]
  intro h
  have hpoint : '.' ∈ ds ++ '.' :: rest := by simp
  rw [h] at hpoint
  have hdigit := Nat.isDigit_of_mem_toDigits (by decide) (by decide) hpoint
  exact absurd hdigit (by decide)

theorem takeWhile_digits (n : ℕ) (rest : List Char) :
    (Nat.toDigits 10 n ++ '.' :: rest).takeWhile Char.isDigit = Nat.toDigits 10 n ∧
      (Nat.toDigits 10 n ++ '.' :: rest).dropWhile Char.isDigit = '.' :: rest := by
  have hall : ∀ c ∈ Nat.toDigits 10 n, c.isDigit = true := fun c hc =>
    Nat.isDigit_of_mem_toDigits (by decide) (by decide) hc
  constructor
  · rw [takeWhile_append_of_pos hall]
    simp
  · rw [dropWhile_append_of_pos hall]
    simp

theorem head?_toDigits_append (n : ℕ) (rest : List Char) : (Nat.toDigits 10 n ++ rest).head? ≠ some '-' := by
  cases h : Nat.toDigits 10 n with
  | nil => exact absurd h Nat.toDigits_ne_nil
  | cons c cs =>
    have hmem : c ∈ Nat.toDigits 10 n := by
      rw [h]
      exact mem_cons_self
    have hc : c.isDigit = true := Nat.isDigit_of_mem_toDigits (by decide) (by decide) hmem
    simp only [cons_append, head?_cons, ne_eq, Option.some.injEq]
    rintro rfl
    exact absurd hc (by decide)

/-- `repr(float(n))` for an integer of fewer than 17 digits is its digits and `.0`. -/
theorem ofInt_valid (n : ℤ) : isFloatLiteral (Json.printInt n ++ ['.', '0']) = true := by
  have hall : (Json.printInt n ++ ['.', '0']).all isNumChar = true := by
    rw [all_append, Json.printInt_all]
    decide
  have hfraction : isFraction ['.', '0'] = true := by decide
  obtain ⟨htake, hdrop⟩ := takeWhile_digits n.natAbs ['0']
  unfold isFloatLiteral
  rw [hall]
  unfold Json.printInt intLiteral
  split
  · simp only [cons_append, head?_cons, if_true, tail_cons, htake, hdrop, hfraction,
      Json.natLiteral_toDigits, natLiteral_append_point]
    rfl
  · simp only [if_neg (head?_toDigits_append _ _), htake, hdrop, hfraction,
      Json.natLiteral_toDigits, natLiteral_append_point]
    rfl

/-- `float(n)`. -/
def ofInt (n : ℤ) : FloatLit := ⟨Json.printInt n ++ ['.', '0'], ofInt_valid n⟩

end SystemDesign.FloatLit
