import SystemDesign.Lib.Dict

/-!
Where a dictionary's entries stand after a change.
-/

namespace SystemDesign.Dict

variable {κ ν : Type} [DecidableEq κ] {d : Dict κ ν} {k : κ} {v : ν}

theorem set_entries_of_none (h : d.get? k = none) (v : ν) : (d.set k v).entries = d.entries ++ [(k, v)] := by
  have hnot : k ∉ d.entries.map Prod.fst := Assoc.lookup_eq_none_iff.mp h
  simp only [Dict.set, dif_neg hnot]

theorem keys_set_of_none (h : d.get? k = none) (v : ν) : (d.set k v).keys = d.keys ++ [k] := by
  rw [keys, set_entries_of_none h, List.map_append]
  rfl

theorem keys_erase (d : Dict κ ν) (k : κ) : (d.erase k).keys = d.keys.filter fun k' => k' ≠ k := by
  rw [keys, keys, List.filter_map]
  rfl

theorem length_erase_of_some (h : d.get? k = some v) : (d.erase k).entries.length + 1 = d.entries.length := by
  rw [(entries_perm h).length_eq, List.length_cons]

end SystemDesign.Dict
