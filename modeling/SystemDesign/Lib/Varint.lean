import Mathlib

/-!
Numbers in chunks of five bits, the lowest first, and signed numbers as natural ones.

A chunk other than the last carries a bit more (`IsVarint`), so a list of chunks is cut into numbers in one way
(`flatten_injective`) and the numbers are read back (`value_varint`, `unzigzag_zigzag`).
-/

namespace SystemDesign.Varint

open List

/-- The chunks of a number. -/
def varint (n : ℕ) : List ℕ := if 0x20 ≤ n then (0x20 ||| (n &&& 0x1F)) :: varint (n >>> 5) else [n]
termination_by n
decreasing_by
  rw [Nat.shiftRight_eq_div_pow]
  omega

/-- The number of some chunks. -/
def value : List ℕ → ℕ
  | [] => 0
  | chunk :: chunks => chunk % 32 + 32 * value chunks

/-- All chunks but the last carry the bit that says that more follow. -/
def IsVarint : List ℕ → Prop
  | [] => False
  | [chunk] => chunk < 32
  | chunk :: chunks => 32 ≤ chunk ∧ IsVarint chunks

theorem chunk_eq (n : ℕ) : (0x20 ||| (n &&& 0x1F)) = 32 + n % 32 := by
  have hmod : n &&& 0x1F = n % 32 := Nat.and_two_pow_sub_one_eq_mod n 5
  have hor : 32 + n % 32 = 32 ||| n % 32 := Nat.two_pow_add_eq_or_of_lt (i := 5) (by omega) 1
  rw [hmod, hor]

theorem isVarint_cons {chunk : ℕ} {chunks : List ℕ} (h : 32 ≤ chunk) (hchunks : IsVarint chunks) :
    IsVarint (chunk :: chunks) := by
  cases chunks with
  | nil => exact hchunks.elim
  | cons => exact ⟨h, hchunks⟩

/-- What the chunks of a number are, and that they give it back. -/
theorem varint_spec (n : ℕ) : IsVarint (varint n) ∧ (∀ chunk ∈ varint n, chunk < 64) ∧ value (varint n) = n := by
  induction n using Nat.strongRecOn with
  | ind n ih =>
    rw [varint]
    split
    · rename_i hlarge
      obtain ⟨hvarint, hchunks, hvalue⟩ := ih (n >>> 5) (by rw [Nat.shiftRight_eq_div_pow]; omega)
      rw [chunk_eq]
      refine ⟨isVarint_cons (by omega) hvarint, fun chunk hchunk => ?_, ?_⟩
      · rcases mem_cons.mp hchunk with rfl | hchunk
        · omega
        · exact hchunks chunk hchunk
      · rw [value, hvalue, Nat.shiftRight_eq_div_pow]
        omega
    · rename_i hsmall
      refine ⟨by show n < 32; omega, fun chunk hchunk => ?_, ?_⟩
      · rw [mem_singleton.mp hchunk]
        omega
      · rw [value, value]
        omega

theorem append_injective {a b : List ℕ} (ha : IsVarint a) (hb : IsVarint b) {s t : List ℕ} (h : a ++ s = b ++ t) :
    a = b ∧ s = t := by
  induction a generalizing b with
  | nil => exact ha.elim
  | cons chunk chunks ih =>
    cases b with
    | nil => exact hb.elim
    | cons chunk' chunks' =>
      obtain ⟨rfl, htail⟩ := List.cons.inj h
      cases chunks with
      | nil =>
        cases chunks' with
        | nil => exact ⟨rfl, htail⟩
        | cons =>
          have hsmall : chunk < 32 := ha
          have := hb.1
          omega
      | cons =>
        cases chunks' with
        | nil =>
          have hsmall : chunk < 32 := hb
          have := ha.1
          omega
        | cons =>
          obtain ⟨heq, hrest⟩ := ih ha.2 hb.2 htail
          exact ⟨by rw [heq], hrest⟩

/-- Chunks are cut into numbers in one way. -/
theorem flatten_injective {a b : List (List ℕ)} (ha : ∀ chunks ∈ a, IsVarint chunks)
    (hb : ∀ chunks ∈ b, IsVarint chunks) (h : a.flatten = b.flatten) : a = b := by
  induction a generalizing b with
  | nil =>
    cases b with
    | nil => rfl
    | cons first b =>
      have hnil : first = [] := (append_eq_nil_iff.mp (flatten_cons ▸ h.symm)).1
      have := hb first mem_cons_self
      rw [hnil] at this
      exact this.elim
  | cons first a ih =>
    cases b with
    | nil =>
      have hnil : first = [] := (append_eq_nil_iff.mp (flatten_cons ▸ h)).1
      have := ha first mem_cons_self
      rw [hnil] at this
      exact this.elim
    | cons first' b =>
      rw [flatten_cons, flatten_cons] at h
      obtain ⟨rfl, hrest⟩ := append_injective (ha first mem_cons_self) (hb first' mem_cons_self) h
      rw [ih (fun chunks h => ha chunks (mem_cons_of_mem _ h)) (fun chunks h => hb chunks (mem_cons_of_mem _ h)) hrest]

/-! ### Signed numbers -/

/-- `~(delta << 1) if delta < 0 else delta << 1` -/
def zigzag (delta : ℤ) : ℕ := if delta < 0 then (-(2 * delta) - 1).toNat else (2 * delta).toNat

def unzigzag (n : ℕ) : ℤ := if n % 2 = 1 then -(n / 2 : ℕ) - 1 else (n / 2 : ℕ)

theorem unzigzag_zigzag (delta : ℤ) : unzigzag (zigzag delta) = delta := by
  unfold unzigzag zigzag
  split
  · rw [if_pos (by omega)]
    omega
  · rw [if_neg (by omega)]
    omega

end SystemDesign.Varint
