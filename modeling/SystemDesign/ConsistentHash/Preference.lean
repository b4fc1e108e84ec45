import SystemDesign.ConsistentHash.Weights

/-!
Preference lists (`get_nodes`): the nodes met clockwise from a key, each where it is first met.

A walk goes over the entries beyond the position and then over those up to it. Dropping a node's entries
drops them from the walk and moves nothing else.
-/

namespace SystemDesign.ConsistentHash

open List hiding not_le not_lt

variable {hash : String → ℤ} {maxVirtualNodes : ℕ} {p p' : Published} {w : Dict String ℕ} {x : String}
  {out : List ℤ}

/-- The entries in the order in which a walk from a position meets them. -/
def walk (entries : List Entry) (position : ℤ) : List Entry :=
  (entries.filter fun e => position < e.position) ++ entries.filter fun e => e.position ≤ position

/-- The nodes in the order in which a walk first meets them. -/
def preference (entries : List Entry) (position : ℤ) : List String := ((walk entries position).map Entry.node).eraseDups

/-! ### Walking the ring -/

variable {entries : List Entry}

theorem collect_eq {start target : ℕ} (offsets : List ℕ) {met : List Entry} {result : List String}
    (hmet : offsets.map (fun i => entries[(start + i) % entries.length]?) = met.map some)
    (hresult : result.length < target) :
    Published.collect entries start target offsets result =
      .ok ((result ++ ((met.map Entry.node).filter fun n => n ∉ result).eraseDups).take target) := by
  induction offsets generalizing met result with
  | nil =>
    obtain rfl : met = [] := by simpa using hmet.symm
    simp [Published.collect, take_of_length_le hresult.le]
  | cons offset offsets ih =>
    obtain _ | ⟨e, met⟩ := met
    · cases hmet
    rw [map_cons, map_cons] at hmet
    obtain ⟨hentry, hrest⟩ := cons_eq_cons.mp hmet
    rw [Published.collect, hentry]
    dsimp only
    by_cases hseen : e.node ∈ result
    · rw [if_pos hseen, ih hrest hresult, map_cons, filter_cons_of_neg (by simpa using hseen)]
    · have hnew : ((e :: met).map Entry.node).filter (fun n => n ∉ result) =
          e.node :: (met.map Entry.node).filter fun n => n ∉ result := filter_cons_of_pos (by simpa using hseen)
      have hlater : ((met.map Entry.node).filter fun n => n ∉ result).filter (fun n => !n == e.node) =
          (met.map Entry.node).filter fun n => n ∉ result ++ [e.node] := by
        rw [filter_filter]
        refine filter_congr fun n _ => ?_
        by_cases hn : n = e.node <;> simp [hn]
      rw [if_neg hseen, hnew, eraseDups_cons, hlater]
      by_cases hfull : (result ++ [e.node]).length = target
      · rw [if_pos hfull]
        generalize (((met.map Entry.node).filter fun n => n ∉ result ++ [e.node]).eraseDups) = rest
        rw [append_cons result e.node rest, take_append_of_le_length hfull.ge, take_of_length_le hfull.le]
      · have hroom : (result ++ [e.node]).length < target := by
          rw [length_append, length_singleton] at hfull ⊢
          omega
        rw [if_neg hfull, ih hrest hroom, ← append_cons]

/-- Sorted entries are those up to a position and then those beyond it. -/
theorem split_at (hsorted : entries.Pairwise fun a b => a.le b = true) (position : ℤ) :
    entries = (entries.filter fun e => e.position ≤ position) ++ entries.filter fun e => position < e.position := by
  induction entries with
  | nil => rfl
  | cons e entries ih =>
    obtain ⟨hfirst, hrest⟩ := pairwise_cons.mp hsorted
    by_cases he : e.position ≤ position
    · rw [filter_cons_of_pos (by simpa using he), filter_cons_of_neg (by simpa using he), cons_append, ← ih hrest]
    · have hbeyond : ∀ e' ∈ e :: entries, position < e'.position := by
        intro e' he'
        obtain rfl | he' := mem_cons.mp he'
        · exact not_le.mp he
        · exact (not_le.mp he).trans_le (Entry.position_le (hfirst e' he'))
      rw [filter_eq_nil_iff.mpr fun e' he' => by simpa using hbeyond e' he',
        filter_eq_self.mpr fun e' he' => decide_eq_true (hbeyond e' he'), nil_append]

/-- The offsets of the loop run through the walk. -/
theorem met_eq (hsorted : entries.Pairwise fun a b => a.le b = true) (position : ℤ) :
    (List.range entries.length).map (fun i =>
      entries[(bisectRight (entries.map Entry.position) position % entries.length + i) % entries.length]?) =
      (walk entries position).map some := by
  have hbisect : bisectRight (entries.map Entry.position) position = (entries.filter fun e => e.position ≤ position).length := by
    nth_rewrite 1 [split_at hsorted position]
    rw [map_append, bisectRight_append, length_map]
    · intro z hz
      obtain ⟨e, he, rfl⟩ := mem_map.mp hz
      simpa using (mem_filter.mp he).2
    · intro z hz
      obtain ⟨e, he, rfl⟩ := mem_map.mp hz
      simpa using (mem_filter.mp he).2
  have hwalk : walk entries position = entries.rotate (bisectRight (entries.map Entry.position) position) := by
    have hle : (entries.filter fun e => e.position ≤ position).length ≤ entries.length := length_filter_le _ _
    have hsplit := split_at hsorted position
    rw [hbisect, rotate_eq_drop_append_take hle, walk]
    generalize entries.filter (fun e => e.position ≤ position) = before at hsplit ⊢
    generalize entries.filter (fun e => position < e.position) = beyond at hsplit ⊢
    rw [hsplit, drop_left, take_left]
  refine ext_getElem? fun i => ?_
  rw [hwalk, getElem?_map, getElem?_map]
  by_cases hi : i < entries.length
  · rw [getElem?_range hi, getElem?_rotate hi, Option.map_some, Nat.mod_add_mod, Nat.add_comm]
    have hlt := Nat.mod_lt (i + bisectRight (entries.map Entry.position) position) (Nat.zero_lt_of_lt hi)
    rw [getElem?_eq_getElem hlt, Option.map_some]
  · have hlength : (entries.rotate (bisectRight (entries.map Entry.position) position)).length ≤ i := by
      rw [length_rotate]
      exact not_lt.mp hi
    rw [getElem?_eq_none (by simpa using hi), getElem?_eq_none hlength]
    rfl

/-! ### Lists of a reachable ring -/

theorem mem_walk {position : ℤ} {e : Entry} : e ∈ walk entries position ↔ e ∈ entries := by
  rw [walk, mem_append, mem_filter, mem_filter]
  by_cases he : e.position ≤ position
  · simp [he]
  · simp [he, not_le.mp he]

theorem mem_preference {position : ℤ} {n : String} : n ∈ preference entries position ↔ ∃ e ∈ entries, e.node = n := by
  simp only [preference, mem_eraseDups, mem_map, mem_walk]

theorem nodup_preference (entries : List Entry) (position : ℤ) : (preference entries position).Nodup := nodup_eraseDups _

theorem preference_filter (entries : List Entry) (position : ℤ) (x : String) :
    preference (entries.filter fun e => e.node ≠ x) position = (preference entries position).filter fun n => n ≠ x := by
  rw [preference, preference, ← eraseDups_filter, walk, walk, map_append, map_append, filter_append,
    filter_map, filter_map, filter_filter, filter_filter, filter_filter, filter_filter]
  simp only [Function.comp_def, Bool.and_comm]

namespace Built

theorem mem_nodes (h : Built hash maxVirtualNodes p w) {n : String} : n ∈ p.nodes ↔ ∃ e ∈ p.entries, e.node = n := by
  rw [h.nodes, Dict.mem_keys]
  constructor
  · rintro ⟨count, hcount⟩
    have hpos := h.positive n count hcount
    refine ⟨⟨hash (n ++ "#" ++ toString 0), n, 0⟩, h.entries.symm.subset ?_, rfl⟩
    refine mem_flatMap.mpr ⟨(n, count), Dict.mem_entries.mpr hcount, mem_map.mpr ⟨0, ?_, rfl⟩⟩
    simpa using hpos
  · rintro ⟨e, he, rfl⟩
    obtain ⟨⟨name, count⟩, hname, hmem⟩ := mem_flatMap.mp (h.entries.subset he)
    exact ⟨count, (node_of_mem_virtualEntries hmem).symm ▸ Dict.mem_entries.mp hname⟩

theorem length_preference (h : Built hash maxVirtualNodes p w) (position : ℤ) :
    (preference p.entries position).length = p.nodes.length := by
  refine Perm.length_eq ((perm_ext_iff_of_nodup (nodup_preference _ _) (h.nodes ▸ w.nodup)).mpr fun n => ?_)
  exact mem_preference.trans h.mem_nodes.symm

theorem entries_ne_nil (h : Built hash maxVirtualNodes p w) : p.entries ≠ [] ↔ p.nodes ≠ [] := by
  constructor
  · intro hne hnil
    obtain ⟨e, he⟩ := exists_mem_of_ne_nil _ hne
    have hmem := h.mem_nodes.mpr ⟨e, he, rfl⟩
    rw [hnil] at hmem
    cases hmem
  · intro hne hnil
    obtain ⟨n, hn⟩ := exists_mem_of_ne_nil _ hne
    obtain ⟨e, he, -⟩ := h.mem_nodes.mp hn
    rw [hnil] at he
    cases he

theorem start_eq (h : Built hash maxVirtualNodes p w) (hne : p.nodes ≠ []) (position : ℤ) :
    p.start position = .ok (bisectRight (p.entries.map Entry.position) position % p.entries.length) := by
  have hentries := h.entries_ne_nil.mpr hne
  rw [Published.start, if_neg (by simpa using hentries), h.positions]

/-- `get_nodes` is the beginning of the preference list. -/
theorem getNodes_eq (h : Built hash maxVirtualNodes p w) {count : ℕ} (hne : p.nodes ≠ [] ∨ count = 0) (key : String) :
    p.getNodes hash key count = .ok ((preference p.entries (hash key)).take count) := by
  obtain rfl | hcount := Nat.eq_zero_or_pos count
  · simp [Published.getNodes, pure, Except.pure]
  · obtain hne | rfl := hne
    swap
    · cases hcount
    have hnodes : 0 < p.nodes.length := length_pos_iff.mpr hne
    have htarget : ([] : List String).length < min count p.nodes.length := by
      rw [length_nil]
      omega
    have hcollect := collect_eq _ (met_eq h.sorted (hash key)) htarget
    have htake : (preference p.entries (hash key)).take (min count p.nodes.length) =
        (preference p.entries (hash key)).take count := by
      rw [← h.length_preference (hash key), ← take_take, take_length]
    simp only [not_mem_nil, not_false_eq_true, decide_true, filter_true, nil_append] at hcollect
    have hpos : ¬ ((count : ℤ) < 0) := by omega
    have hzero : ¬ ((count : ℤ) = 0) := by omega
    simp only [Published.getNodes, if_neg hpos, if_neg hzero, Int.toNat_natCast, h.start_eq hne]
    exact (hcollect.trans (congrArg Except.ok htake))

theorem getNode_eq (h : Built hash maxVirtualNodes p w) (hne : p.nodes ≠ []) (key : String) :
    ∃ owner, p.getNode hash key = .ok owner ∧ (preference p.entries (hash key)).head? = some owner := by
  have hentries := length_pos_iff.mpr (h.entries_ne_nil.mpr hne)
  have hfirst := congrArg List.head? (met_eq h.sorted (hash key))
  rw [head?_map, head?_map, head?_range, if_neg hentries.ne', Option.map_some, Nat.add_zero, Nat.mod_mod] at hfirst
  have hlt := Nat.mod_lt (bisectRight (p.entries.map Entry.position) (hash key)) hentries
  cases hwalk : (walk p.entries (hash key)).head? with
  | none => simp [hwalk, getElem?_eq_getElem hlt] at hfirst
  | some e =>
    have hentry : p.entries[bisectRight (p.entries.map Entry.position) (hash key) % p.entries.length]? = some e := by
      simpa [hwalk] using hfirst
    refine ⟨e.node, ?_, ?_⟩
    · simp only [Published.getNode, h.start_eq hne, bind, Except.bind, hentry]
    · rw [preference, head?_eraseDups, head?_map, hwalk, Option.map_some]

theorem entries_of_remove (hrun : publishRemove p x = .ok (p', out)) : p'.entries = p.entries.filter fun e => e.node ≠ x := by
  obtain ⟨-, rfl⟩ := publishRemove_cases hrun
  rfl

/-- The entries before a node was added are those that are not its own. -/
theorem entries_of_add {n : ℤ} (h : Built hash maxVirtualNodes p w)
    (hrun : publishAdd hash maxVirtualNodes p x n = .ok (p', out)) : p.entries = p'.entries.filter fun e => e.node ≠ x := by
  have hbuilt := h.add hrun
  obtain ⟨-, hx, -, rfl⟩ := publishAdd_cases hrun
  refine sorted_eq (Perm.symm ?_) h.sorted (hbuilt.sorted.filter _)
  have hadded : ((p.entries ++ (virtualEntries hash x 0 n.toNat).mergeSort Entry.le).mergeSort Entry.le).Perm
      (p.entries ++ virtualEntries hash x 0 n.toNat) :=
    (List.mergeSort_perm _ _).trans ((List.mergeSort_perm _ _).append_left _)
  refine (hadded.filter _).trans (Perm.of_eq ?_)
  rw [filter_append, filter_eq_self.mpr fun e he => ?_,
    filter_eq_nil_iff.mpr fun e he => by simp [node_of_mem_virtualEntries he], append_nil]
  exact decide_eq_true fun heq => hx (h.mem_nodes.mpr ⟨e, he, heq⟩)

/-- The two rings before and after a node: the smaller one's lists are the larger one's without it. -/
theorem without {w' : Dict String ℕ} (h : Built hash maxVirtualNodes p w) (h' : Built hash maxVirtualNodes p' w')
    (hentries : p'.entries = p.entries.filter fun e => e.node ≠ x) (hx : p.nodes ≠ []) {count : ℕ}
    (hne : p'.nodes ≠ [] ∨ count = 0) (key : String) :
    ∃ longer, p.getNodes hash key (count + 1 : ℕ) = .ok longer ∧
      p'.getNodes hash key count = .ok ((longer.filter fun n => n ≠ x).take count) := by
  refine ⟨_, h.getNodes_eq (.inl hx) key, ?_⟩
  rw [h'.getNodes_eq hne key, hentries, preference_filter, take_filter_take (nodup_preference _ _)]

theorem owner_without {w' : Dict String ℕ} (h : Built hash maxVirtualNodes p w) (h' : Built hash maxVirtualNodes p' w')
    (hentries : p'.entries = p.entries.filter fun e => e.node ≠ x) (key : String) {owner : String}
    (howner : p.getNode hash key = .ok owner) (hne : owner ≠ x) : p'.getNode hash key = .ok owner := by
  have hnodes : p.nodes ≠ [] := by
    intro hnil
    have hempty : p.entries = [] := by
      by_contra hentries
      exact h.entries_ne_nil.mp hentries hnil
    simp [Published.getNode, Published.start, hempty, bind, Except.bind] at howner
  obtain ⟨first, hfirst, hhead⟩ := h.getNode_eq hnodes key
  obtain rfl : first = owner := Except.ok.inj (hfirst.symm.trans howner)
  have hhead' : (preference p'.entries (hash key)).head? = some first := by
    rw [hentries, preference_filter]
    cases hlist : preference p.entries (hash key) with
    | nil => simp [hlist] at hhead
    | cons n rest =>
      obtain rfl : n = first := by simpa [hlist] using hhead
      rw [filter_cons_of_pos (by simpa using hne), head?_cons]
  have hnodes' : p'.nodes ≠ [] := by
    refine h'.entries_ne_nil.mp fun hnil => ?_
    simp [preference, walk, hnil] at hhead'
  obtain ⟨first', hfirst', hhead''⟩ := h'.getNode_eq hnodes' key
  rw [hfirst', Option.some.inj (hhead''.symm.trans hhead')]

end Built

end SystemDesign.ConsistentHash
