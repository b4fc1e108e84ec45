import SystemDesign.Autocomplete.Trie

/-!
What the nodes of a tree hold.

Every item lies below the characters of its query (`Rooted`), so the items of the node of a prefix are those that begin
with it (`walk_spec`). A published node caches the best of its items (`Cached`).
-/

namespace SystemDesign.Autocomplete

open Smallest List

variable {τ : Type}

/-! ### Items -/

mutual

/-- All items of a node. -/
def Tree.all : Tree τ → List Match
  | .node children terminal _ => terminal.toList ++ children.all

def Forest.all : Forest τ → List Match
  | .nil => []
  | .cons _ child rest => child.all ++ rest.all

end

def Forest.chars : Forest τ → List Char
  | .nil => []
  | .cons char _ rest => char :: rest.chars

mutual

/-- The node of `place`: its terminal has this query, and its children are in their places. -/
def Tree.Rooted (place : Text) : Tree τ → Prop
  | .node children terminal _ => (∀ item ∈ terminal, item.query = place) ∧ children.Rooted place

def Forest.Rooted (place : Text) : Forest τ → Prop
  | .nil => True
  | .cons char child rest => child.Rooted (place ++ [char]) ∧ char ∉ rest.chars ∧ rest.Rooted place

end

mutual

/-- Every node caches the best of its items. -/
def Tree.Cached : Node → Prop
  | .node children terminal top => top = ranked (terminal.toList ++ children.all) ∧ children.Cached

def Forest.Cached : Forest (List Match) → Prop
  | .nil => True
  | .cons _ child rest => child.Cached ∧ rest.Cached

end

theorem Tree.Cached.top_eq {node : Node} (h : node.Cached) : node.top = ranked node.all := by
  cases node
  exact h.1

theorem Tree.Cached.children {node : Node} (h : node.Cached) : node.children.Cached := by
  cases node
  exact h.2

theorem Forest.Cached.nodes {forest : Forest (List Match)} (h : forest.Cached) : ∀ node ∈ forest.nodes, node.Cached := by
  match forest, h with
  | .nil, _ => exact fun _ hmem => absurd hmem not_mem_nil
  | .cons _ child rest, h =>
    intro node hmem
    rcases mem_cons.mp hmem with rfl | hmem
    · exact h.1
    · exact Forest.Cached.nodes h.2 node hmem

theorem Forest.mem_all {forest : Forest τ} {item : Match} : item ∈ forest.all ↔ ∃ node ∈ forest.nodes, item ∈ node.all := by
  match forest with
  | .nil => simp [Forest.all, Forest.nodes]
  | .cons _ child rest =>
    rw [Forest.all, mem_append, Forest.mem_all, Forest.nodes, exists_mem_cons_iff]

theorem Tree.children_sublist (node : Tree τ) : node.children.all.Sublist node.all := by
  cases node
  exact sublist_append_right ..

mutual

theorem Tree.Rooted.begins {place : Text} : ∀ {node : Tree τ}, node.Rooted place → ∀ item ∈ node.all, place <+: item.query
  | .node children terminal _, h, item, hmem => by
    rcases mem_append.mp hmem with hmem | hmem
    · rw [h.1 item (Option.mem_toList.mp hmem)]
    · exact Forest.Rooted.begins h.2 item hmem

theorem Forest.Rooted.begins {place : Text} : ∀ {forest : Forest τ}, forest.Rooted place →
    ∀ item ∈ forest.all, place <+: item.query
  | .nil, _, item, hmem => absurd hmem not_mem_nil
  | .cons char child rest, h, item, hmem => by
    rcases mem_append.mp hmem with hmem | hmem
    · exact (prefix_append place [char]).trans (Tree.Rooted.begins h.1 item hmem)
    · exact Forest.Rooted.begins h.2.2 item hmem

end

/-! ### Children -/

theorem not_prefix_of_other {place : Text} {char char' : Char} (hne : char' ≠ char) (rest : Text) {query : Text}
    (h : place ++ [char'] <+: query) : ¬ place ++ char :: rest <+: query := by
  rintro ⟨tail, rfl⟩
  rw [append_assoc, prefix_append_right_inj, cons_append, cons_prefix_cons] at h
  exact hne h.1

/-- Of the children only that of the next character has items behind a longer place. -/
theorem Forest.filter_all {place : Text} {char : Char} (rest : Text) {forest : Forest τ} (h : forest.Rooted place) :
    forest.all.filter (fun item => (place ++ char :: rest).isPrefixOf item.query) =
      ((forest.get? char).map fun child => child.all.filter fun item => (place ++ char :: rest).isPrefixOf item.query).getD [] := by
  match forest, h with
  | .nil, _ => rfl
  | .cons char' child others, h =>
    rw [Forest.all, filter_append, Forest.get?]
    have hnone {items : List Match} (hitems : ∀ item ∈ items, ¬ place ++ char :: rest <+: item.query) :
        items.filter (fun item => (place ++ char :: rest).isPrefixOf item.query) = [] :=
      filter_eq_nil_iff.mpr fun item hmem hbegin => hitems item hmem (List.isPrefixOf_iff_prefix.mp hbegin)
    split
    · rename_i heq
      subst heq
      have hothers (forest : Forest τ) (hrooted : forest.Rooted place) (hchars : char' ∉ forest.chars) :
          ∀ item ∈ forest.all, ¬ place ++ char' :: rest <+: item.query := by
        induction forest using Forest.rec (motive_1 := fun _ => True) with
        | node => trivial
        | nil => exact fun _ hmem => absurd hmem not_mem_nil
        | cons other child forest _ ih =>
          intro item hmem
          rcases mem_append.mp hmem with hmem | hmem
          · exact not_prefix_of_other (fun heq => hchars (by rw [← heq]; exact mem_cons_self)) rest (hrooted.1.begins item hmem)
          · exact ih hrooted.2.2 (fun hmem' => hchars (mem_cons_of_mem _ hmem')) item hmem
      rw [hnone (hothers others h.2.2 h.2.1), append_nil]
      rfl
    · rename_i hne
      rw [hnone fun item hmem => not_prefix_of_other hne rest (h.1.begins item hmem), nil_append]
      exact Forest.filter_all rest h.2.2

theorem Forest.Rooted.get {place : Text} {char : Char} {forest : Forest τ} (h : forest.Rooted place) {child : Tree τ}
    (hget : forest.get? char = some child) : child.Rooted (place ++ [char]) := by
  match forest, h with
  | .nil, _ => cases hget
  | .cons char' child' rest, h =>
    rw [Forest.get?] at hget
    split at hget
    · rename_i heq
      rw [← Option.some.inj hget, ← heq]
      exact h.1
    · exact Forest.Rooted.get h.2.2 hget

theorem Forest.mem_nodes_of_get {char : Char} {forest : Forest τ} {child : Tree τ}
    (hget : forest.get? char = some child) : child ∈ forest.nodes := by
  match forest with
  | .nil => cases hget
  | .cons char' child' rest =>
    rw [Forest.get?] at hget
    split at hget
    · rw [← Option.some.inj hget]
      exact mem_cons_self
    · exact mem_cons_of_mem _ (Forest.mem_nodes_of_get hget)

/-- The items of the node of a prefix are those that begin with it. -/
theorem walk_spec (path : Text) {place : Text} {node : Tree τ} (h : node.Rooted place) :
    node.all.filter (fun item => (place ++ path).isPrefixOf item.query) = ((walk path node).map Tree.all).getD [] := by
  induction path generalizing place node with
  | nil =>
    rw [append_nil]
    exact filter_eq_self.mpr fun item hmem => isPrefixOf_iff_prefix.mpr (h.begins item hmem)
  | cons char path ih =>
    obtain ⟨children, terminal, top⟩ := node
    have hterminal : terminal.toList.filter (fun item => (place ++ char :: path).isPrefixOf item.query) = [] := by
      refine filter_eq_nil_iff.mpr fun item hmem hbegin => ?_
      have hlength := (List.isPrefixOf_iff_prefix.mp hbegin).length_le
      rw [h.1 item (Option.mem_toList.mp hmem), length_append, length_cons] at hlength
      omega
    rw [Tree.all, filter_append, hterminal, nil_append, Forest.filter_all path h.2, walk]
    cases hget : children.get? char with
    | none => rfl
    | some child =>
      have := ih (h.2.get hget)
      rw [append_assoc, singleton_append] at this
      exact this

theorem walk_cached (path : Text) {node found : Node} (h : node.Cached) (hwalk : walk path node = some found) :
    found.Cached := by
  induction path generalizing node with
  | nil =>
    cases hwalk
    exact h
  | cons char path ih =>
    obtain ⟨children, terminal, top⟩ := node
    rw [walk] at hwalk
    split at hwalk
    · cases hwalk
    · rename_i child hget
      exact ih (h.2.nodes child (Forest.mem_nodes_of_get hget)) hwalk

/-! ### Building -/

mutual

theorem freeze_all : ∀ node : BuilderNode, (freeze node).all = node.all
  | .node children terminal _ => by
    rw [freeze, Tree.all, freezeAll_all children, Tree.all]

theorem freezeAll_all : ∀ forest : Forest Unit, (freezeAll forest).all = forest.all
  | .nil => rfl
  | .cons _ child rest => by
    rw [freezeAll, Forest.all, freeze_all child, freezeAll_all rest, Forest.all]

end

theorem freezeAll_chars : ∀ forest : Forest Unit, (freezeAll forest).chars = forest.chars
  | .nil => rfl
  | .cons _ _ rest => by
    rw [freezeAll, Forest.chars, freezeAll_chars rest, Forest.chars]

mutual

theorem freeze_rooted {place : Text} : ∀ {node : BuilderNode}, node.Rooted place → (freeze node).Rooted place
  | .node _ _ _, h => ⟨h.1, freezeAll_rooted h.2⟩

theorem freezeAll_rooted {place : Text} : ∀ {forest : Forest Unit}, forest.Rooted place → (freezeAll forest).Rooted place
  | .nil, _ => trivial
  | .cons _ _ rest, h => ⟨freeze_rooted h.1, (freezeAll_chars rest).symm ▸ h.2.1, freezeAll_rooted h.2.2⟩

end

/-- The best of the children are among their cached items. -/
theorem tops_spec : ∀ {forest : Forest (List Match)}, forest.Cached → forest.all.Nodup →
    (tops forest).Nodup ∧ tops forest ⊆ forest.all ∧
      ∀ item ∈ forest.all, item ∈ tops forest ∨ Beaten topLimit (tops forest) item
  | .nil, _, _ => ⟨nodup_nil, fun _ h => h, fun _ h => absurd h not_mem_nil⟩
  | .cons _ (.node children terminal top) rest, h, hnodup => by
    obtain ⟨hchild, hrest, hdisjoint⟩ := nodup_append.mp hnodup
    obtain ⟨ihnodup, ihsub, ihcovered⟩ := tops_spec h.2 hrest
    have htop : top = ranked (Tree.all (.node children terminal top)) := h.1.top_eq
    have htopsub : top ⊆ Tree.all (.node children terminal top) := fun item hmem =>
      mem_of_mem_smallest (htop ▸ hmem : item ∈ ranked (Tree.all (.node children terminal top)))
    have htopnodup : top.Nodup := by
      rw [htop]
      exact nodup_smallest hchild
    have hall : (top ++ tops rest).Nodup := nodup_append.mpr ⟨htopnodup, ihnodup, fun item hmem other hother =>
      hdisjoint item (htopsub hmem) other (ihsub hother)⟩
    refine ⟨hall, ?_, fun item hmem => ?_⟩
    · exact append_subset.mpr ⟨fun item hmem => mem_append_left _ (htopsub hmem),
        fun item hmem => mem_append_right _ (ihsub hmem)⟩
    · rcases mem_append.mp hmem with hmem | hmem
      · by_cases hin : item ∈ top
        · exact .inl (mem_append_left _ hin)
        · refine .inr (Beaten.mono htopnodup (subset_append_left ..) ?_)
          rw [htop] at hin ⊢
          exact beaten_smallest.mpr (beaten_of_not_mem hmem hin)
      · exact (ihcovered item hmem).imp (mem_append_right _) (Beaten.mono ihnodup (subset_append_right ..))

mutual

theorem freeze_cached : ∀ {node : BuilderNode}, node.all.Nodup → (freeze node).Cached
  | .node children terminal _, hnodup => by
    have hchildren := freezeAll_cached (hnodup.sublist (sublist_append_right ..) : children.all.Nodup)
    have hall : (terminal.toList ++ (freezeAll children).all).Nodup := by
      rw [freezeAll_all]
      exact hnodup
    obtain ⟨hterminal, hnodup', hdisjoint⟩ := nodup_append.mp hall
    obtain ⟨htops, hsub, hcovered⟩ := tops_spec hchildren hnodup'
    have hcandidates : (terminal.toList ++ tops (freezeAll children)).Nodup :=
      nodup_append.mpr ⟨hterminal, htops, fun item hmem other hother => hdisjoint item hmem other (hsub hother)⟩
    refine ⟨smallest_eq_of_covered hcandidates hall ?_ fun item hmem => ?_, hchildren⟩
    · exact append_subset.mpr ⟨subset_append_left .., fun item hmem => mem_append_right _ (hsub hmem)⟩
    · rcases mem_append.mp hmem with hmem | hmem
      · exact .inl (mem_append_left _ hmem)
      · exact (hcovered item hmem).imp (mem_append_right _) (Beaten.mono htops (subset_append_right ..))

theorem freezeAll_cached : ∀ {forest : Forest Unit}, forest.all.Nodup → (freezeAll forest).Cached
  | .nil, _ => trivial
  | .cons _ _ _, hnodup =>
    ⟨freeze_cached (hnodup.sublist (sublist_append_left ..)),
      freezeAll_cached (hnodup.sublist (sublist_append_right ..))⟩

end

/-! ### Inserting -/

theorem Forest.set_spec {place : Text} (char : Char) : ∀ {forest : Forest τ}, forest.Rooted place →
    ∃ others : List Match, forest.all.Perm (((forest.get? char).map Tree.all).getD [] ++ others) ∧
      ∀ child : Tree τ, child.Rooted (place ++ [char]) → (forest.set char child).Rooted place ∧
        (forest.set char child).all.Perm (child.all ++ others) ∧
        ∀ other, other ∈ (forest.set char child).chars → other = char ∨ other ∈ forest.chars
  | .nil, _ => ⟨[], Perm.refl _, fun child hchild =>
    ⟨⟨hchild, not_mem_nil, trivial⟩, Perm.refl _, fun _ hmem => .inl (mem_singleton.mp hmem)⟩⟩
  | .cons char' child' rest, h => by
    rw [Forest.get?]
    by_cases heq : char' = char
    · subst heq
      rw [if_pos rfl]
      refine ⟨rest.all, Perm.refl _, fun child hchild => ?_⟩
      rw [Forest.set, if_pos rfl]
      exact ⟨⟨hchild, h.2.1, h.2.2⟩, Perm.refl _, fun _ hmem => .inr hmem⟩
    · rw [if_neg heq]
      obtain ⟨others, hperm, hset⟩ := Forest.set_spec char h.2.2
      refine ⟨child'.all ++ others, ?_, fun child hchild => ?_⟩
      · exact (hperm.append_left child'.all).trans (perm_append_comm_assoc ..)
      · obtain ⟨hrooted, hperm', hchars⟩ := hset child hchild
        rw [Forest.set, if_neg heq]
        refine ⟨⟨h.1, fun hmem => ?_, hrooted⟩, ?_, fun other hmem => ?_⟩
        · exact (hchars char' hmem).elim heq h.2.1
        · exact (hperm'.append_left child'.all).trans (perm_append_comm_assoc ..)
        · rcases mem_cons.mp hmem with rfl | hmem
          · exact .inr mem_cons_self
          · exact (hchars other hmem).imp id (mem_cons_of_mem _)

theorem insertAt_spec (item : Match) (path : Text) {place : Text} {node : BuilderNode} (h : node.Rooted place)
    (hquery : item.query = place ++ path) (hnew : ∀ other ∈ node.all, other.query ≠ item.query) :
    ∃ node', insertAt item path node = .ok node' ∧ node'.Rooted place ∧ node'.all.Perm (item :: node.all) := by
  induction path generalizing place node with
  | nil =>
    obtain ⟨children, terminal, top⟩ := node
    have hnone : terminal = none := by
      rw [Option.eq_none_iff_forall_ne_some]
      intro other hother
      refine hnew other (mem_append_left _ (Option.mem_toList.mpr hother)) ?_
      rw [h.1 other hother, hquery, append_nil]
    refine ⟨.node children (some item) (), ?_, ⟨fun other hother => ?_, h.2⟩, ?_⟩
    · rw [insertAt, require, if_pos hnone]
      rfl
    · rw [← Option.some.inj hother, hquery, append_nil]
    · rw [hnone]
      exact Perm.refl _
  | cons char path ih =>
    obtain ⟨children, terminal, top⟩ := node
    obtain ⟨others, hperm, hset⟩ := Forest.set_spec char h.2
    have hchild : ((children.get? char).getD emptyBuilder).Rooted (place ++ [char]) := by
      cases hget : children.get? char with
      | none => exact ⟨fun _ hmem => (by cases hmem), trivial⟩
      | some child => exact h.2.get hget
    have hall : ((children.get? char).getD emptyBuilder).all = ((children.get? char).map Tree.all).getD [] := by
      cases children.get? char <;> rfl
    obtain ⟨child', hinsert, hrooted, hitems⟩ := ih hchild (by rw [hquery, append_assoc]; rfl) fun other hother => by
      rw [hall] at hother
      exact hnew other (mem_append_right _ (hperm.mem_iff.mpr (mem_append_left _ hother)))
    obtain ⟨hforest, hforestall, -⟩ := hset child' hrooted
    refine ⟨.node (children.set char child') terminal (), ?_, ⟨h.1, hforest⟩, ?_⟩
    · rw [insertAt, hinsert]
      rfl
    · rw [hall] at hitems
      show (terminal.toList ++ (children.set char child').all).Perm (item :: (terminal.toList ++ children.all))
      refine (Perm.append_left _ ?_).trans perm_middle
      exact hforestall.trans ((hitems.append_right others).trans (hperm.symm.cons item))

/-- Distinct normalized queries with positive counts make a tree of exactly them. -/
theorem build_spec {frequencies : List Match} (hdistinct : (frequencies.map Match.query).Nodup)
    (hvalid : ∀ item ∈ frequencies, normalize item.query false = .ok item.query ∧ 0 < item.count) :
    ∃ root, build frequencies = .ok root ∧ root.Rooted [] ∧ root.all.Perm frequencies ∧ root.Cached := by
  have hloop (items : List Match) (node : BuilderNode) (h : node.Rooted [])
      (hdistinct : ((node.all ++ items).map Match.query).Nodup)
      (hvalid : ∀ item ∈ items, normalize item.query false = .ok item.query ∧ 0 < item.count) :
      ∃ node', items.foldlM (fun root item => do
        let query ← normalize item.query false
        require (query = item.query ∧ 0 < item.count) (.valueError "invalid snapshot frequency")
        insertAt item item.query root) node = Except.ok node' ∧ node'.Rooted [] ∧ node'.all.Perm (node.all ++ items) := by
    induction items generalizing node with
    | nil => exact ⟨node, rfl, h, (append_nil _).symm ▸ Perm.refl _⟩
    | cons item items ih =>
      have hnew : ∀ other ∈ node.all, other.query ≠ item.query := fun other hother heq => by
        rw [map_append, nodup_append] at hdistinct
        exact hdistinct.2.2 _ (mem_map_of_mem hother) _ (mem_map_of_mem mem_cons_self) heq
      obtain ⟨node', hinsert, hrooted, hperm⟩ := insertAt_spec item item.query h rfl hnew
      have hmove : (node'.all ++ items).Perm (node.all ++ item :: items) :=
        (hperm.append_right items).trans perm_middle.symm
      obtain ⟨last, hrest, hlast, hall⟩ := ih node' hrooted ((hmove.map Match.query).nodup_iff.mpr hdistinct)
        fun other hother => hvalid other (mem_cons_of_mem _ hother)
      obtain ⟨hnormal, hpositive⟩ := hvalid item mem_cons_self
      refine ⟨last, ?_, hlast, hall.trans hmove⟩
      rw [foldlM_cons, hnormal]
      show (require _ _ >>= fun _ => insertAt item item.query node) >>= _ = _
      rw [require, if_pos ⟨rfl, hpositive⟩]
      show insertAt item item.query node >>= _ = _
      rw [hinsert]
      exact hrest
  obtain ⟨node, hfold, hrooted, hperm⟩ := hloop frequencies emptyBuilder ⟨fun _ hmem => (by cases hmem), trivial⟩
    hdistinct hvalid
  refine ⟨freeze node, ?_, freeze_rooted hrooted, ?_, freeze_cached ?_⟩
  · rw [build, hfold]
    rfl
  · rw [freeze_all]
    exact hperm
  · exact (hperm.nodup_iff).mpr (Nodup.of_map _ hdistinct)

end SystemDesign.Autocomplete
