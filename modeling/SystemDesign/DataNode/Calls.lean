import SystemDesign.DataNode.Crashes

/-!
The calls of a node that is up: `put`, `collect` and `compact`.
-/

namespace SystemDesign.DataNode

open List hiding not_lt
open Dict
open Function (update update_eq_self update_of_ne update_self)
open Durable

variable {U : Set Chunk}

/-! ### Putting -/

variable {d : NodeDisk}

theorem contentsOf_eq_none {records : List Record} {k : ChunkKey} (hm : contentsOf d records k = none) :
    d.large.get? k = none ∧ survivors records k = none := by
  unfold contentsOf at hm
  cases hf : d.large.get? k with
  | some f =>
    rw [hf] at hm
    cases hm
  | none =>
    rw [hf] at hm
    exact ⟨rfl, hm⟩

theorem rows_snoc (records : List Record) (r : Record) :
    rows 0 (records ++ [r]) .empty = r.index (encode records).length (rows 0 records .empty) := by
  rw [rows_append, Nat.zero_add]

variable {m : Contents} {name : String}

/-- A chunk that was not there is stored, or it is not. -/
theorem store_spec (h : Serves U d name m) {key : ChunkKey} {data : Chunk} (hdata : data ∈ U)
    (hdigest : Sha256.digest data = key) (hlength : data.length ≤ chunkLimit) (hnone : m key = none)
    (now mtime : UInt64) :
    Spec (fun s => s = d) (store name key data now mtime) (fun s => Holds U s m ∨ Holds U s (update m key (some data)))
      fun r s => (r = .ok () ∧ Serves U s name (update m key (some data))) ∨
        ∃ e, r = .error e ∧ validTime now = false ∧ Serves U s name m := by
  have hserves := h
  obtain ⟨records, hstored, hindex, rfl⟩ := h
  obtain ⟨hlarge, hgone⟩ := contentsOf_eq_none hnone
  unfold store
  by_cases hnow : validTime now = true
  · have hcheck : checkNow now = .ok () := if_pos hnow
    rw [hcheck, lift_ok_bind]
    by_cases hsmall : data.length ≤ small
    · rw [if_pos hsmall]
      have hr : (Record.put key data now).Ok U := by
        refine ⟨?_, hnow, hsmall, ?_⟩
        · rw [Record.key, ← hdigest]
          exact Sha256.digest_length data
        · rintro k d c heq
          cases heq
          exact ⟨hdata, hdigest⟩
      have hpack := hstored.pack
      rw [append_nil] at hpack
      apply Spec.call (append_spec hpack key data now false)
      · rintro s ⟨done, hdone, hs⟩
        exact hstored.cut (r := .put key data now) hr hlarge hdone hs
      · rintro offset s ⟨rfl, hs⟩
        have hstored' : Stored U s name (records ++ [Record.put key data now]) [] := hstored.wrote_all hr hs
        have hm : contentsOf s (records ++ [Record.put key data now]) =
            update (contentsOf d records) key (some data) := by
          rw [contentsOf_congr hs.large]
          exact contentsOf_append (r := .put key data now) hlarge records
        have hserves' : Serves U (setRow key ⟨.pack, (encode records).length + headerSize, data.length,
            now⟩ s) name (update (contentsOf d records) key (some data)) := by
          refine ⟨records ++ [Record.put key data now], hstored'.congr rfl rfl rfl, ⟨?_, ?_⟩, hm.symm⟩
          · intro k f hf
            change s.large.get? k = some f at hf
            rw [hs.large] at hf
            have hne : k ≠ key := by
              rintro rfl
              rw [hlarge] at hf
              cases hf
            obtain ⟨created, hrow⟩ := hindex.large k f hf
            refine ⟨created, ?_⟩
            change (s.index.set key _).get? k = _
            rw [get?_set_of_ne _ hne, hs.index]
            exact hrow
          · intro k hf
            change s.large.get? k = none at hf
            rw [hs.large] at hf
            rw [rows_snoc]
            change (s.index.set key _).get? k = ((rows 0 records .empty).set key _).get? k
            by_cases hk : k = key
            · subst hk
              rw [get?_set_self, get?_set_self]
            · rw [get?_set_of_ne _ hk, get?_set_of_ne _ hk, hs.index]
              exact hindex.pack k hf
        apply Spec.effect_at
        · exact .inr hserves'.holds
        · exact .inl ⟨rfl, hserves'⟩
    · rw [if_neg hsmall]
      have hlong : small < data.length := Nat.not_le.mp hsmall
      have hfile : LargeOk U key ⟨data, mtime⟩ := ⟨hdata, hdigest, hlong, hlength⟩
      have hstored' : Stored U (setLarge key ⟨data, mtime⟩ d) name records [] := by
        refine ⟨hstored.current, hstored.named, hstored.pack, hstored.torn, hstored.records, ?_⟩
        intro k f hf
        obtain ⟨rfl, rfl⟩ | ⟨-, hf⟩ := get?_set_cases hf
        · exact hfile
        · exact hstored.large k f hf
      have hm : contentsOf (setLarge key ⟨data, mtime⟩ d) records = update (contentsOf d records) key (some data) := by
        funext k
        unfold contentsOf setLarge
        by_cases hk : k = key
        · subst hk
          simp
        · rw [update_of_ne hk, get?_set_of_ne _ hk]
      have hserves' : Serves U (setRow key ⟨.large, 0, data.length, now⟩ (setLarge key ⟨data, mtime⟩ d))
          name (update (contentsOf d records) key (some data)) := by
        refine ⟨records, hstored'.congr rfl rfl rfl, ⟨?_, ?_⟩, hm.symm⟩
        · intro k f hf
          change ∃ created, (d.index.set key _).get? k = _
          obtain ⟨rfl, rfl⟩ | ⟨hk, hf⟩ := get?_set_cases hf
          · exact ⟨now, get?_set_self _ _ _⟩
          · rw [get?_set_of_ne _ hk]
            exact hindex.large k f hf
        · intro k hf
          have hk : k ≠ key := by
            rintro rfl
            have hself : (setLarge k ⟨data, mtime⟩ d).large.get? k = some ⟨data, mtime⟩ := get?_set_self _ _ _
            rw [show (setLarge k ⟨data, mtime⟩ d).large.get? k = none from hf] at hself
            cases hself
          change (d.index.set key _).get? k = _
          rw [get?_set_of_ne _ hk]
          apply hindex.pack k
          rw [← get?_set_of_ne d.large hk ⟨data, mtime⟩]
          exact hf
      apply Spec.effect_bind
      · exact .inr (.inr ⟨name, records, [], hstored', hm.symm⟩)
      · apply Spec.effect_at
        · exact .inr hserves'.holds
        · exact .inl ⟨rfl, hserves'⟩
  · have hcheck : checkNow now = .error (.valueError "invalid node clock") := if_neg hnow
    rw [hcheck, lift_error_bind]
    apply Spec.lift_at
    exact .inr ⟨_, rfl, Bool.eq_false_iff.mpr hnow, hserves⟩

/-- What `put` accepts. -/
def Acceptable (key : ChunkKey) (data : Chunk) (now : UInt64) : Prop :=
  Sha256.digest data = key ∧ data.length ≤ chunkLimit ∧ validTime now = true

/-- A put that returns has stored its chunk; one that raises has not touched anything. -/
theorem put_spec (hU : Set.InjOn Sha256.digest U) (h : Serves U d name m) (key : ChunkKey) {data : Chunk}
    (hdata : data ∈ U) (now mtime : UInt64) :
    Spec (fun s => s = d) (put name key data now mtime)
      (fun s => Holds U s m ∨ Sha256.digest data = key ∧ Holds U s (update m key (some data)))
      fun r s => (∃ duplicate, r = .ok duplicate ∧ Sha256.digest data = key ∧
        Serves U s name (update m key (some data))) ∨
        ∃ e, r = .error e ∧ ¬ Acceptable key data now ∧ Serves U s name m := by
  unfold put
  by_cases hkey : key.length = 32
  · have hcheck : checksum key = .ok () := if_pos hkey
    rw [hcheck, lift_ok_bind]
    by_cases hbad : data.length > chunkLimit ∨ Sha256.digest data ≠ key
    · rw [if_pos hbad]
      apply Spec.lift_at
      refine .inr ⟨_, rfl, fun hok => ?_, h⟩
      obtain hlong | hdigest := hbad
      · exact absurd hok.2.1 (Nat.not_le.mpr hlong)
      · exact hdigest hok.1
    · rw [if_neg hbad]
      rw [not_or, not_lt, not_not] at hbad
      obtain ⟨hlength, hdigest⟩ := hbad
      apply Spec.read_bind
      have hget := h.get hkey
      cases hm : m key with
      | some old =>
        -- no other chunk has this digest
        obtain ⟨records, hstored, -, hmeq⟩ := id h
        obtain ⟨hold, holdkey⟩ := hstored.contents (hmeq ▸ hm)
        have hsame : old = data := hU hold hdata (holdkey.trans hdigest.symm)
        subst hsame
        rw [hm] at hget
        rw [hget]
        dsimp only
        rw [if_pos rfl]
        apply Spec.pure_at
        refine .inl ⟨true, rfl, hdigest, ?_⟩
        rw [← hm, update_eq_self]
        exact h
      | none =>
        rw [hm] at hget
        rw [hget]
        dsimp only
        rw [if_neg (by simp)]
        apply Spec.bind (R := fun _ s => Serves U s name (update m key (some data)))
        · apply (store_spec h hdata hdigest hlength hm now mtime).mono (fun _ hs => hs)
          · rintro s (hs | hs)
            · exact .inl hs
            · exact .inr ⟨hdigest, hs⟩
          · rintro r s (⟨rfl, hs⟩ | ⟨e, rfl, hnow, hs⟩)
            · exact hs
            · refine .inr ⟨e, rfl, fun hok => ?_, hs⟩
              rw [hok.2.2] at hnow
              cases hnow
        · intro _
          apply Spec.pure
          intro s hs
          exact .inl ⟨false, rfl, hdigest, hs⟩
  · have hcheck : checksum key = .error (.valueError "expected lowercase SHA256") := if_neg hkey
    rw [hcheck, lift_error_bind]
    apply Spec.lift_at
    refine .inr ⟨_, rfl, fun hok => hkey ?_, h⟩
    rw [← hok.1]
    exact Sha256.digest_length data

/-! ### Collecting -/

/-- What a removal leaves: one chunk less, and the other rows as they were. -/
structure Removed (U : Set Chunk) (d : NodeDisk) (name : String) (m : Contents) (key : ChunkKey)
    (s : NodeDisk) : Prop where
  serves : Serves U s name (update m key none)
  rows : ∀ k, k ≠ key → s.index.get? k = d.index.get? k

theorem removeRow_spec (hU : Set.InjOn Sha256.digest U) (h : Serves U d name m) {key : ChunkKey} {row : ChunkRow}
    (hrow : d.index.get? key = some row) {now : UInt64} (hnow : validTime now = true) :
    Spec (fun s => s = d) (removeRow name now (key, row)) (fun s => Holds U s m ∨ Holds U s (update m key none))
      fun r s => r = .ok () ∧ Removed U d name m key s := by
  obtain ⟨records, hstored, hindex, rfl⟩ := h
  unfold removeRow
  cases hf : d.large.get? key with
  | none =>
    rw [hindex.pack key hf] at hrow
    obtain ⟨data, -, hok⟩ := hstored.rowsOk.some key row hrow
    have hr : (Record.delete key now).Ok U := by
      refine ⟨?_, hnow, Nat.zero_le _, fun _ _ _ heq => nomatch heq⟩
      rw [Record.key, ← hok.digest]
      exact Sha256.digest_length data
    have hpack := hstored.pack
    rw [append_nil] at hpack
    rw [hok.kind]
    dsimp only
    apply Spec.call (append_spec hpack key [] now true)
    · rintro s ⟨done, hdone, hs⟩
      exact hstored.cut (r := .delete key now) hr hf hdone hs
    · rintro _ s ⟨-, hs⟩
      have hstored' : Stored U s name (records ++ [Record.delete key now]) [] := hstored.wrote_all hr hs
      have hm : contentsOf s (records ++ [Record.delete key now]) = update (contentsOf d records) key none := by
        rw [contentsOf_congr hs.large]
        exact contentsOf_append (r := .delete key now) hf records
      have hserves : Serves U (eraseRow key s) name (update (contentsOf d records) key none) := by
        refine ⟨records ++ [Record.delete key now], hstored'.congr rfl rfl rfl, ⟨?_, ?_⟩, hm.symm⟩
        · intro k f hf'
          change s.large.get? k = some f at hf'
          rw [hs.large] at hf'
          have hne : k ≠ key := by
            rintro rfl
            rw [hf] at hf'
            cases hf'
          obtain ⟨created, hrow'⟩ := hindex.large k f hf'
          refine ⟨created, ?_⟩
          change (s.index.erase key).get? k = _
          rw [get?_erase, if_neg hne, hs.index]
          exact hrow'
        · intro k hf'
          change s.large.get? k = none at hf'
          rw [hs.large] at hf'
          rw [rows_snoc]
          change (s.index.erase key).get? k = ((rows 0 records .empty).erase key).get? k
          rw [get?_erase, get?_erase, hs.index, hindex.pack k hf']
      apply Spec.effect_at
      · exact .inr hserves.holds
      · refine ⟨rfl, hserves, fun k hk => ?_⟩
        change (s.index.erase key).get? k = _
        rw [get?_erase, if_neg hk, hs.index]
  | some f =>
    obtain ⟨created, hlarge⟩ := hindex.large key f hf
    rw [hrow] at hlarge
    cases hlarge
    dsimp only
    have hgone := hstored.no_survivor hU hf
    have herased : ∀ k, (eraseLarge key d).large.get? k =
        if k = key then none else d.large.get? k := get?_erase d.large key
    have hstored' : Stored U (eraseLarge key d) name records [] := by
      refine ⟨hstored.current, hstored.named, hstored.pack, hstored.torn, hstored.records, ?_⟩
      intro k f' hf'
      rw [herased] at hf'
      split at hf'
      · cases hf'
      · exact hstored.large k f' hf'
    have hm : contentsOf (eraseLarge key d) records = update (contentsOf d records) key none := by
      funext k
      unfold contentsOf
      rw [herased]
      by_cases hk : k = key
      · subst hk
        simp [hgone]
      · rw [update_of_ne hk, if_neg hk]
    have hserves : Serves U (eraseRow key (eraseLarge key d)) name (update (contentsOf d records) key none) := by
      refine ⟨records, hstored'.congr rfl rfl rfl, ⟨?_, ?_⟩, hm.symm⟩
      · intro k f' hf'
        change (eraseLarge key d).large.get? k = some f' at hf'
        rw [herased] at hf'
        by_cases hk : k = key
        · rw [if_pos hk] at hf'
          cases hf'
        · rw [if_neg hk] at hf'
          obtain ⟨created', hrow'⟩ := hindex.large k f' hf'
          refine ⟨created', ?_⟩
          change (d.index.erase key).get? k = _
          rw [get?_erase, if_neg hk]
          exact hrow'
      · intro k hf'
        change (eraseLarge key d).large.get? k = none at hf'
        rw [herased] at hf'
        change (d.index.erase key).get? k = _
        rw [get?_erase]
        by_cases hk : k = key
        · subst hk
          rw [if_pos rfl]
          exact ((hstored.rowsOk.none k).mpr hgone).symm
        · rw [if_neg hk] at hf' ⊢
          exact hindex.pack k hf'
    apply Spec.effect_bind
    · exact .inr (.inr ⟨name, records, [], hstored', hm.symm⟩)
    · apply Spec.effect_at
      · exact .inr hserves.holds
      · refine ⟨rfl, hserves, fun k hk => ?_⟩
        change (d.index.erase key).get? k = _
        rw [get?_erase, if_neg hk]

/-- Contents that lost some of the chunks picked, and nothing else. -/
structure Thinned (m m' : Contents) (picked : List (ChunkKey × ChunkRow)) : Prop where
  others : ∀ k, k ∉ picked.map Prod.fst → m' k = m k
  each : ∀ k, m' k = m k ∨ m' k = none

theorem Thinned.remove {m' : Contents} {picked : List (ChunkKey × ChunkRow)} (h : Thinned m m' picked)
    {e : ChunkKey × ChunkRow} (he : e ∈ picked) : Thinned m (update m' e.1 none) picked := by
  constructor
  · intro k hk
    rw [update_of_ne]
    · exact h.others k hk
    · rintro rfl
      exact hk (mem_map_of_mem he)
  · intro k
    by_cases hk : k = e.1
    · subst hk
      exact .inr (update_self _ _ _)
    · rw [update_of_ne hk]
      exact h.each k

theorem candidates_nodup (d : NodeDisk) (live : List ChunkKey) (aged : UInt64 → Bool) :
    ((candidates d live aged).map Prod.fst).Nodup :=
  d.index.nodup.sublist (filter_sublist.map _)

/-- The loop of `collect`: what is left to remove is still indexed, the rest is gone. -/
structure Collecting (U : Set Chunk) (name : String) (m : Contents)
    (picked rest : List (ChunkKey × ChunkRow)) (s : NodeDisk) (m' : Contents) : Prop where
  serves : Serves U s name m'
  thinned : Thinned m m' picked
  nodup : (rest.map Prod.fst).Nodup
  rows : ∀ e ∈ rest, s.index.get? e.1 = some e.2
  gone : ∀ e ∈ picked, e ∉ rest → m' e.1 = none

theorem removeRows_spec (hU : Set.InjOn Sha256.digest U) (h : Serves U d name m) {now : UInt64}
    (hnow : validTime now = true) (live : List ChunkKey) (aged : UInt64 → Bool) :
    Spec (fun s => s = d) (Durable.each (removeRow name now) (candidates d live aged))
      (fun s => ∃ m', Holds U s m' ∧ Thinned m m' (candidates d live aged))
      fun r s => ∃ u, r = .ok u ∧ ∃ m', Serves U s name m' ∧ Thinned m m' (candidates d live aged) ∧
        ∀ e ∈ candidates d live aged, m' e.1 = none := by
  have hloop := Spec.each (f := removeRow name now)
    (C := fun s => ∃ m', Holds U s m' ∧ Thinned m m' (candidates d live aged))
    (I := fun rest s => ∃ m', Collecting U name m (candidates d live aged) rest s m')
    (candidates d live aged) fun e rest hsuffix => by
      have he : e ∈ candidates d live aged := hsuffix.subset mem_cons_self
      constructor
      · rintro s ⟨m', hs⟩ s' hs'
        have hcrash := (removeRow_spec hU hs.serves (hs.rows e mem_cons_self) hnow).crash s rfl s' hs'
        obtain hcrash | hcrash := hcrash
        · exact ⟨m', hcrash, hs.thinned⟩
        · exact ⟨_, hcrash, hs.thinned.remove he⟩
      · rintro s ⟨m', hs⟩
        obtain ⟨hok, hremoved⟩ := (removeRow_spec hU hs.serves (hs.rows e mem_cons_self) hnow).done s rfl
        have hnodup := hs.nodup
        rw [map_cons, nodup_cons] at hnodup
        refine ⟨hok, _, hremoved.serves, hs.thinned.remove he, hnodup.2, ?_, ?_⟩
        · intro e' he'
          rw [hremoved.rows]
          · exact hs.rows e' (mem_cons_of_mem _ he')
          · intro heq
            exact hnodup.1 (heq ▸ mem_map_of_mem he')
        · intro e' he' hrest
          by_cases hk : e'.1 = e.1
          · rw [hk]
            exact update_self _ _ _
          · rw [update_of_ne hk]
            apply hs.gone e' he'
            rw [mem_cons, not_or]
            exact ⟨fun heq => hk (heq ▸ rfl), hrest⟩
  apply hloop.mono
  · rintro s rfl
    refine ⟨m, h, ⟨fun _ _ => rfl, fun _ => .inl rfl⟩, candidates_nodup _ _ _, ?_, ?_⟩
    · intro e he
      exact mem_entries.mp (mem_filter.mp he).1
    · exact fun e he hrest => absurd he hrest
  · exact fun _ hs => hs
  · rintro r s ⟨rfl, m', hs⟩
    exact ⟨(), rfl, m', hs.serves, hs.thinned, fun e he => hs.gone e he (by simp)⟩

/-- A collection that returns has removed what it picked. -/
theorem collect_spec (hU : Set.InjOn Sha256.digest U) (h : Serves U d name m) (own : String) (live : List ChunkKey)
    (aged : UInt64 → Bool) (grace : ℤ) (generation : Option String) (now : UInt64) :
    Spec (fun s => s = d) (collect name own live aged grace generation now)
      (fun s => ∃ m', Holds U s m' ∧ Thinned m m' (candidates d live aged))
      fun r s => (∃ removed, r = .ok removed ∧ ∃ m', Serves U s name m' ∧
        Thinned m m' (candidates d live aged) ∧ ∀ e ∈ candidates d live aged, m' e.1 = none) ∨
        ∃ e, r = .error e ∧ Serves U s name m := by
  unfold collect checkNow
  apply Spec.guard (.inr ⟨_, rfl, h⟩)
  intro _
  apply Spec.guard (.inr ⟨_, rfl, h⟩)
  intro _
  apply Spec.guard (.inr ⟨_, rfl, h⟩)
  intro _
  apply Spec.guard (.inr ⟨_, rfl, h⟩)
  intro _
  apply Spec.guard (.inr ⟨_, rfl, h⟩)
  intro hnow
  apply Spec.read_bind
  apply Spec.call (removeRows_spec hU h hnow live aged)
  · exact fun _ hs => hs
  · rintro _ s ⟨m', hs⟩
    apply Spec.pure_at
    exact .inl ⟨_, rfl, m', hs⟩

/-! ### Compacting -/

/-- The record that a row is copied to. -/
def copyOf (m : Contents) (e : ChunkKey × ChunkRow) : Record := .put e.1 ((m e.1).getD []) e.2.created

theorem Serves.wrote_other {s : NodeDisk} {new : String} {bytes : List UInt8} (h : Serves U d name m)
    (hne : name ≠ new) (hs : Wrote d new bytes s) : Serves U s name m := by
  obtain ⟨records, hstored, hindex, rfl⟩ := h
  refine ⟨records, hstored.congr hs.current (hs.other name hne) hs.large, ⟨?_, ?_⟩,
    (contentsOf_congr hs.large records).symm⟩
  · rw [hs.large, hs.index]
    exact hindex.large
  · rw [hs.large, hs.index]
    exact hindex.pack

/-- A row of the old file: its chunk is small, and in no large file. -/
theorem Serves.packRow (h : Serves U d name m) {e : ChunkKey × ChunkRow} (he : e ∈ packRows d) :
    ∃ data, m e.1 = some data ∧ d.large.get? e.1 = none ∧ (copyOf m e).Ok U := by
  obtain ⟨records, hstored, hindex, rfl⟩ := h
  have hmem := (perm_insertionSort _ _).mem_iff.mp he
  obtain ⟨hentry, hkind⟩ := mem_filter.mp hmem
  have hrow := mem_entries.mp hentry
  have hkind := of_decide_eq_true hkind
  cases hf : d.large.get? e.1 with
  | some f =>
    obtain ⟨created, hlarge⟩ := hindex.large e.1 f hf
    rw [hrow] at hlarge
    rw [Option.some.inj hlarge] at hkind
    cases hkind
  | none =>
    rw [hindex.pack e.1 hf] at hrow
    obtain ⟨data, hdata, hok⟩ := hstored.rowsOk.some e.1 e.2 hrow
    have hm : contentsOf d records e.1 = some data := by
      unfold contentsOf
      rw [hf]
      exact hdata
    refine ⟨data, hm, rfl, ?_, hok.created, ?_, ?_⟩
    · change e.1.length = 32
      rw [← hok.digest]
      exact Sha256.digest_length data
    · change ((contentsOf d records e.1).getD []).length ≤ small
      rw [hm]
      exact hok.length
    · intro k d' c heq
      rw [copyOf, hm] at heq
      cases heq
      exact ⟨hok.chunk, hok.digest⟩

theorem survivors_copies (m : Contents) (l : List (ChunkKey × ChunkRow)) (k : ChunkKey) :
    survivors (l.map (copyOf m)) k = if k ∈ l.map Prod.fst then some ((m k).getD []) else none := by
  induction l using List.reverseRecOn with
  | nil => rfl
  | append_singleton l e ih =>
    rw [map_append, map_singleton, survivors_append, map_append, map_singleton]
    by_cases hk : k = e.1
    · subst hk
      simp [copyOf, Record.apply]
    · simp only [copyOf, Record.apply, update_of_ne hk, mem_append, mem_singleton, hk, or_false]
      exact ih

/-- The copies stand for what the old file stood for. -/
theorem Serves.copies {s : NodeDisk} {new : String} (h : Serves U d name m) (hnew : validName new = true)
    (hs : Wrote d new (encode ((packRows d).map (copyOf m))) s) :
    Stored U { s with current := some new } new ((packRows d).map (copyOf m)) [] ∧
      m = contentsOf { s with current := some new } ((packRows d).map (copyOf m)) := by
  have hrows := fun e he => h.packRow (e := e) he
  obtain ⟨records, hstored, hindex, rfl⟩ := h
  constructor
  · refine ⟨rfl, hnew, ?_, torn_nil U, ?_, ?_⟩
    · rw [append_nil]
      exact hs.pack
    · intro r hr
      obtain ⟨e, he, rfl⟩ := mem_map.mp hr
      obtain ⟨-, -, -, hok⟩ := hrows e he
      exact hok
    · change ∀ k f, s.large.get? k = some f → LargeOk U k f
      rw [hs.large]
      exact hstored.large
  · have hsame := contentsOf_congr (d := d) (s := { s with current := some new }) hs.large
    rw [hsame]
    funext k
    cases hf : d.large.get? k with
    | some f =>
      unfold contentsOf
      rw [hf]
    | none =>
      have hm : contentsOf d records k = survivors records k := by
        unfold contentsOf
        rw [hf]
      have hcopy : contentsOf d ((packRows d).map (copyOf (contentsOf d records))) k =
          if k ∈ (packRows d).map Prod.fst then some ((contentsOf d records k).getD []) else none := by
        rw [← survivors_copies]
        unfold contentsOf
        rw [hf]
      rw [hcopy]
      cases hs' : survivors records k with
      | none =>
        rw [if_neg, hm, hs']
        intro hmem
        obtain ⟨e, he, rfl⟩ := mem_map.mp hmem
        obtain ⟨data, hdata, -, -⟩ := hrows e he
        rw [hm, hs'] at hdata
        cases hdata
      | some data =>
        rw [if_pos, hm, hs']
        · rfl
        · cases hrow : (rows 0 records .empty).get? k with
          | none =>
            rw [(hstored.rowsOk.none k).mp hrow] at hs'
            cases hs'
          | some row =>
            obtain ⟨_, _, hok⟩ := hstored.rowsOk.some k row hrow
            refine mem_map.mpr ⟨(k, row), ?_, rfl⟩
            apply (perm_insertionSort _ _).mem_iff.mpr
            refine mem_filter.mpr ⟨mem_entries.mpr ?_, decide_eq_true hok.kind⟩
            rw [hindex.pack k hf]
            exact hrow

theorem copyRows_spec {new : String} (h : Serves U d name m) (hne : name ≠ new) :
    Spec (Wrote d new []) (Durable.each (copyRow name new) (packRows d)) (fun s => Holds U s m)
      fun r s => ∃ u, r = .ok u ∧ Wrote d new (encode ((packRows d).map (copyOf m))) s := by
  have hloop := Spec.each (f := copyRow name new) (C := fun s => Holds U s m)
    (I := fun rest s => ∃ done, done ++ rest = packRows d ∧
      Wrote d new (encode (done.map (copyOf m))) s) (packRows d) fun e rest hsuffix => by
      have he : e ∈ packRows d := hsuffix.subset mem_cons_self
      obtain ⟨data, hdata, -, hok⟩ := h.packRow he
      have hbytes : record e.1 data e.2.created false = (copyOf m e).bytes := by
        rw [copyOf, hdata]
        rfl
      have hone : ∀ s done, done ++ e :: rest = packRows d → Wrote d new (encode (done.map (copyOf m))) s →
          Spec (fun s' => s' = s) (copyRow name new e) (fun s => Holds U s m)
            fun r s => r = .ok () ∧ ∃ done, done ++ rest = packRows d ∧
              Wrote d new (encode (done.map (copyOf m))) s := by
        intro s done hdone hs
        have hget := (h.wrote_other hne hs).get hok.key
        rw [show m (copyOf m e).key = some data from hdata] at hget
        unfold copyRow
        apply Spec.read_bind
        rw [show DataNode.get s name e.1 = .ok data from hget, lift_ok_bind, hbytes]
        apply (writeBytes_spec d new (encode (done.map (copyOf m))) _).mono
        · rintro s' rfl
          exact hs
        · rintro s' ⟨part, -, hs'⟩
          exact (h.wrote_other hne hs').holds
        · rintro r s' ⟨rfl, hs'⟩
          refine ⟨rfl, done ++ [e], by simpa using hdone, ?_⟩
          rw [map_append, encode_append]
          simpa [encode] using hs'
      constructor
      · rintro s ⟨done, hdone, hs⟩
        exact (hone s done hdone hs).crash s rfl
      · rintro s ⟨done, hdone, hs⟩
        exact (hone s done hdone hs).done s rfl
  apply hloop.mono
  · intro s hs
    exact ⟨[], rfl, hs⟩
  · exact fun _ hs => hs
  · rintro r s ⟨rfl, done, hdone, hs⟩
    rw [append_nil] at hdone
    subst hdone
    exact ⟨(), rfl, hs⟩

theorem Serves.unlink {other : String} (h : Serves U d name m) (hne : other ≠ name) :
    Serves U (unlinkPack other d) name m := by
  obtain ⟨records, hstored, hindex, rfl⟩ := h
  refine ⟨records, hstored.congr rfl ?_ rfl, ⟨hindex.large, hindex.pack⟩, rfl⟩
  change (d.packs.erase other).get? name = _
  rw [get?_erase, if_neg hne.symm]

theorem unlinkPacks_spec (name : String) (m : Contents) {others : List String}
    (hothers : ∀ other ∈ others, other ≠ name) :
    Spec (fun s => Serves U s name m) (Durable.each (fun other => Durable.effect (unlinkPack other)) others : Node Unit)
      (fun s => Holds U s m) fun r s => r = .ok () ∧ Serves U s name m :=
  Spec.each (I := fun _ s => Serves U s name m) others fun other rest hsuffix => by
    have hne := hothers other (hsuffix.subset mem_cons_self)
    apply Spec.effect
    · exact fun s hs => (hs.unlink hne).holds
    · exact fun s hs => ⟨rfl, hs.unlink hne⟩

/-- A compaction changes no contents, whether it ends, raises or crashes. -/
theorem compact_spec (h : Serves U d name m) {hex : String} (hhex : '/' ∉ hex.toList) :
    Spec (fun s => s = d) (compact name hex) (fun s => Holds U s m)
      fun r s => (r = .ok () ∧ Serves U s (packName hex) m) ∨
        r = .error (.fileExists (packName hex)) ∧ Serves U s name m := by
  have hnamed := validName_packName hhex
  unfold compact
  apply Spec.read_bind
  cases hold : d.packs.get? (packName hex) with
  | some bytes =>
    rw [if_pos (Option.isSome_some)]
    apply Spec.lift_at
    exact .inr ⟨rfl, h⟩
  | none =>
    rw [if_neg (by simp)]
    have hne : name ≠ packName hex := by
      rintro rfl
      obtain ⟨records, hstored, -⟩ := h
      rw [hstored.pack] at hold
      cases hold
    have hwrote := wrote_setPack d (packName hex) []
    apply Spec.effect_bind
    · exact (h.wrote_other hne hwrote).holds
    · have hcopies : Spec (fun s => s = setPack (packName hex) [] d)
          (Durable.each (copyRow name (packName hex)) (packRows d)) (fun s => Holds U s m)
          fun r s => ∃ u, r = .ok u ∧ Wrote d (packName hex) (encode ((packRows d).map (copyOf m))) s := by
        apply (copyRows_spec h hne).mono
        · rintro s rfl
          exact hwrote
        · exact fun _ hs => hs
        · exact fun _ _ hs => hs
      apply Spec.call hcopies
      · exact fun _ hs => hs
      · intro _ s hs
        obtain ⟨hstored, hm⟩ := h.copies hnamed hs
        apply Spec.call (R := fun _ s' => s' = { s with current := some (packName hex) }) (D := fun s => Holds U s m)
        · unfold switch
          apply Spec.read_bind
          rw [if_neg]
          · apply Spec.effect_at
            · exact .inr ⟨_, _, _, hstored, hm⟩
            · exact ⟨(), rfl, rfl⟩
          · rw [hnamed, hs.pack]
            simp
        · exact fun _ hs => hs
        · rintro _ s' rfl
          apply Spec.call (recover_spec hstored)
          · rw [← hm]
            exact fun _ hs => hs
          · intro _ s' hs'
            rw [← hm] at hs'
            apply Spec.read_bind
            apply (unlinkPacks_spec (packName hex) m ?_).mono
            · rintro s'' rfl
              exact hs'
            · exact fun _ hs => hs
            · exact fun _ _ hs => .inl hs
            · intro other hother
              exact of_decide_eq_true (mem_filter.mp hother).2

end SystemDesign.DataNode
