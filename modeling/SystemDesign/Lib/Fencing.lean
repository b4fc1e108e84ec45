import Mathlib.Data.List.Nodup

/-!
Fencing by tokens.

Every claim of a row draws a new token, which the row keeps until it is given back. The token
of a claim that was followed by another is then never the row's.
-/

namespace SystemDesign

open List

variable {κ : Type} [DecidableEq κ]

/-- Claims, the latest first, and the tokens of the rows; a row that nobody has claimed has none. -/
structure Fenced (claims : List (κ × String)) (token : κ → String) : Prop where
  nodup : (claims.map Prod.snd).Nodup
  current : ∀ k, token k = "" ∨ (claims.find? fun claim => claim.1 = k).map Prod.snd = some (token k)

namespace Fenced

variable {claims : List (κ × String)} {token token' : κ → String}

theorem empty (h : ∀ k, token k = "") : Fenced [] token := ⟨nodup_nil, fun k => .inl (h k)⟩

theorem keep (h : Fenced claims token) (hkept : ∀ k, token' k = token k ∨ token' k = "") : Fenced claims token' where
  nodup := h.nodup
  current k := by
    obtain hsame | hempty := hkept k
    · rw [hsame]
      exact h.current k
    · exact .inl hempty

theorem claim (h : Fenced claims token) {k : κ} {t : String} (hnew : t ∉ claims.map Prod.snd)
    (htoken : ∀ k', token' k' = if k' = k then t else token k') : Fenced ((k, t) :: claims) token' where
  nodup := nodup_cons.mpr ⟨hnew, h.nodup⟩
  current k' := by
    rw [htoken, find?_cons]
    by_cases hsame : k' = k
    · rw [if_pos hsame, decide_eq_true hsame.symm]
      exact .inr rfl
    · rw [if_neg hsame, decide_eq_false (Ne.symm hsame)]
      exact h.current k'

/-- The token of a claim that was followed by another claim of the row. -/
theorem stale (h : Fenced claims token) {after before : List (κ × String)} {k : κ} {t : String}
    (hclaims : claims = after ++ (k, t) :: before) (hlater : ∃ claim ∈ after, claim.1 = k) (ht : t ≠ "") :
    token k ≠ t := by
  rintro rfl
  obtain hempty | hcurrent := h.current k
  · exact ht hempty
  obtain ⟨claim, hmem, hkey⟩ := hlater
  have hfound : (after.find? fun claim => claim.1 = k).isSome = true :=
    find?_isSome.mpr ⟨claim, hmem, decide_eq_true hkey⟩
  obtain ⟨latest, hlatest⟩ := Option.isSome_iff_exists.mp hfound
  rw [hclaims, find?_append, hlatest] at hcurrent
  have htoken : latest.2 = token k := Option.some.inj hcurrent
  have hnodup := h.nodup
  rw [hclaims, map_append, nodup_append'] at hnodup
  exact hnodup.2.2 (mem_map.mpr ⟨latest, mem_of_find?_eq_some hlatest, htoken⟩) mem_cons_self

end Fenced

end SystemDesign
