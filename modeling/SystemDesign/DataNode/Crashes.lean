import SystemDesign.DataNode.Contents

/-!
Every call of a node, with a crash at any of its effects.

Each `_spec` says what a call leaves when it returns and what a crash in it can leave: `recover`,
`openNode` and `compact` leave the contents alone, `put` and `collect` are done or not
done, chunk by chunk.
-/

namespace SystemDesign.DataNode

open Dict List
open Durable

variable {U : Set Chunk}

/-! ### Appending -/

/-- A disk that differs from another in one pack only. -/
structure Wrote (d : NodeDisk) (name : String) (bytes : List UInt8) (s : NodeDisk) : Prop where
  current : s.current = d.current
  large : s.large = d.large
  index : s.index = d.index
  pack : s.packs.get? name = some bytes
  other : ∀ n, n ≠ name → s.packs.get? n = d.packs.get? n

theorem wrote_setPack (d : NodeDisk) (name : String) (bytes : List UInt8) : Wrote d name bytes (setPack name bytes d) :=
  ⟨rfl, rfl, rfl, get?_set_self _ _ _, fun _ hn => get?_set_of_ne _ hn _⟩

theorem Wrote.appendByte {d s : NodeDisk} {name : String} {bytes : List UInt8}
    (h : Wrote d name bytes s) (b : UInt8) : Wrote d name (bytes ++ [b]) (appendByte name b s) := by
  obtain ⟨current, large, index, pack, other⟩ := h
  refine ⟨current, large, index, ?_, fun n hn => ?_⟩
  · rw [DataNode.appendByte, pack]
    exact get?_set_self _ _ _
  · rw [← other n hn]
    exact get?_set_of_ne _ hn _

/-- A crash leaves any beginning of what is written. -/
theorem writeBytes_spec (d : NodeDisk) (name : String) (base bytes : List UInt8) :
    Spec (Wrote d name base) (writeBytes name bytes) (fun s => ∃ done, done <+: bytes ∧ Wrote d name (base ++ done) s)
      fun r s => r = .ok () ∧ Wrote d name (base ++ bytes) s := by
  have hloop := Spec.each (ε := NodeError) (C := fun s => ∃ done, done <+: bytes ∧ Wrote d name (base ++ done) s)
    (I := fun rest s => ∃ done, done ++ rest = bytes ∧ Wrote d name (base ++ done) s)
    (f := fun b => Durable.effect (appendByte name b)) bytes fun b bs _ => by
      apply Spec.effect
      · rintro s ⟨done, hdone, hs⟩
        refine ⟨done ++ [b], ⟨bs, by simpa using hdone⟩, ?_⟩
        rw [← append_assoc]
        exact hs.appendByte b
      · rintro s ⟨done, hdone, hs⟩
        refine ⟨rfl, done ++ [b], by simpa using hdone, ?_⟩
        rw [← append_assoc]
        exact hs.appendByte b
  apply hloop.mono
  · intro s hs
    exact ⟨[], rfl, by simpa using hs⟩
  · exact fun _ hs => hs
  · rintro r s ⟨rfl, done, hdone, hs⟩
    rw [append_nil] at hdone
    subst hdone
    exact ⟨rfl, hs⟩

variable {d : NodeDisk} {name : String}

theorem append_spec {base : List UInt8} (hbase : d.packs.get? name = some base) (key : ChunkKey) (data : Chunk)
    (created : UInt64) (delete : Bool) :
    Spec (fun s => s = d) (append name key data created delete)
      (fun s => ∃ done, done <+: record key data created delete ∧ Wrote d name (base ++ done) s)
      fun r s => ∃ offset, r = .ok offset ∧ offset = base.length + headerSize ∧
        Wrote d name (base ++ record key data created delete) s := by
  unfold append
  apply Spec.read_bind
  rw [hbase]
  dsimp only
  apply Spec.call (R := fun _ s => Wrote d name (base ++ record key data created delete) s)
  · apply (writeBytes_spec d name base (record key data created delete)).mono
    · rintro s rfl
      exact ⟨rfl, rfl, rfl, hbase, fun _ _ => rfl⟩
    · exact fun _ hs => hs
    · rintro r s ⟨rfl, hs⟩
      exact ⟨(), rfl, hs⟩
  · exact fun _ hs => hs
  · intro _ s hs
    apply Spec.pure_at
    exact ⟨_, rfl, rfl, hs⟩

/-! ### What an append stands for -/

variable {records : List Record} {s : NodeDisk}

theorem Stored.wrote_part (h : Stored U d name records []) {done : List UInt8} (hdone : Torn U done)
    (hs : Wrote d name (encode records ++ done) s) : Stored U s name records done :=
  ⟨hs.current.trans h.current, h.named, hs.pack, hdone, h.records, hs.large ▸ h.large⟩

theorem Stored.wrote_all (h : Stored U d name records []) {r : Record} (hr : r.Ok U)
    (hs : Wrote d name (encode records ++ r.bytes) s) : Stored U s name (records ++ [r]) [] := by
  have hencode : encode (records ++ [r]) = encode records ++ r.bytes := by
    rw [encode_append]
    simp [encode]
  refine ⟨hs.current.trans h.current, h.named, ?_, torn_nil U, ?_, hs.large ▸ h.large⟩
  · rw [hencode, append_nil]
    exact hs.pack
  · intro r' hr'
    rw [mem_append, mem_singleton] at hr'
    obtain hr' | rfl := hr'
    · exact h.records r' hr'
    · exact hr

theorem contentsOf_congr (h : s.large = d.large) (records : List Record) :
    contentsOf s records = contentsOf d records := by
  unfold contentsOf
  rw [h]

/-- A record of a chunk that is not a large file takes its effect. -/
theorem contentsOf_append {r : Record} (h : d.large.get? r.key = none) (records : List Record) :
    contentsOf d (records ++ [r]) = r.apply (contentsOf d records) := by
  funext k
  unfold contentsOf
  rw [survivors_append]
  cases r with
  | put key data created =>
    by_cases hk : k = key
    · subst hk
      rw [show d.large.get? k = none from h]
      simp [Record.apply]
    · simp only [Record.apply, Function.update_of_ne hk]
  | delete key created =>
    by_cases hk : k = key
    · subst hk
      rw [show d.large.get? k = none from h]
      simp [Record.apply]
    · simp only [Record.apply, Function.update_of_ne hk]

/-- A record cut off anywhere is written or not. -/
theorem Stored.cut (h : Stored U d name records []) {r : Record} (hr : r.Ok U) (hlarge : d.large.get? r.key = none)
    {done : List UInt8} (hdone : done <+: r.bytes) (hs : Wrote d name (encode records ++ done) s) :
    Holds U s (contentsOf d records) ∨ Holds U s (r.apply (contentsOf d records)) := by
  by_cases hlt : done.length < r.bytes.length
  · left
    refine .inr ⟨name, records, done, h.wrote_part ⟨r, hr, hdone, hlt⟩ hs, ?_⟩
    rw [contentsOf_congr hs.large]
  · right
    have hall : done = r.bytes := hdone.eq_of_length_le (Nat.not_lt.mp hlt)
    subst hall
    refine .inr ⟨name, records ++ [r], [], h.wrote_all hr hs, ?_⟩
    rw [contentsOf_congr hs.large, contentsOf_append hlarge]

/-! ### Recovery -/

theorem get?_indexLarge {large : Dict ChunkKey LargeFile}
    (h : ∀ k f, large.get? k = some f → LargeOk U k f) (index : Dict ChunkKey ChunkRow) (k : ChunkKey) :
    (indexLarge large index).get? k = (large.get? k).elim (index.get? k)
      fun f => some ⟨.large, 0, f.data.length, f.mtime⟩ := by
  have hfold : indexLarge large index = large.entries.foldl
      (fun index e => index.set e.1 ⟨.large, 0, e.2.data.length, e.2.mtime⟩) index := by
    apply foldl_ext
    intro index e he
    have hok := h e.1 e.2 (mem_entries.mp he)
    dsimp only
    rw [take_of_length_le (Nat.le_succ_of_le hok.length), if_pos ⟨hok.length, hok.digest⟩]
  rw [hfold]
  exact get?_foldl_set large.entries large.nodup (fun _ f => ⟨.large, 0, f.data.length, f.mtime⟩) index k

/-- Recovery cannot fail and changes no contents; it may crash and be started again. -/
theorem recover_spec {torn : List UInt8} (h : Stored U d name records torn) :
    Spec (fun s => s = d) (recover name) (fun s => Holds U s (contentsOf d records))
      fun r s => ∃ u, r = .ok u ∧ Serves U s name (contentsOf d records) := by
  have hlength : (encode records ++ torn).length + 1 > records.length := by
    have := length_le_encode h.records
    rw [length_append]
    omega
  have hscan := scan_encode h.records h.torn hlength 0 .empty
  have htake : (encode records ++ torn).take (0 + (encode records).length) = encode records := by
    rw [Nat.zero_add, take_left' rfl]
  have hcut := wrote_setPack d name (encode records)
  have hstored : Stored U (setPack name (encode records) d) name records [] := by
    refine ⟨h.current, h.named, ?_, torn_nil U, h.records, h.large⟩
    rw [append_nil]
    exact hcut.pack
  have hserves : Serves U { setPack name (encode records) d with
      index := indexLarge d.large (rows 0 records .empty) } name (contentsOf d records) := by
    refine ⟨records, ⟨h.current, h.named, hstored.pack, torn_nil U, h.records, h.large⟩, ?_, rfl⟩
    constructor
    · intro k f hf
      have hrow := get?_indexLarge h.large (rows 0 records .empty) k
      rw [show d.large.get? k = some f from hf] at hrow
      exact ⟨f.mtime, hrow⟩
    · intro k hf
      have hrow := get?_indexLarge h.large (rows 0 records .empty) k
      rw [show d.large.get? k = none from hf] at hrow
      exact hrow
  unfold recover
  apply Spec.read_bind
  rw [h.pack]
  dsimp only
  rw [hscan, lift_ok_bind, htake]
  apply Spec.effect_bind
  · exact .inr ⟨name, records, [], hstored, rfl⟩
  · apply Spec.effect_at
    · exact hserves.holds
    · exact ⟨(), rfl, hserves⟩

theorem validName_packName {hex : String} (h : '/' ∉ hex.toList) : validName (packName hex) = true := by
  have htext : (packName hex).toList = "pack-".toList ++ (hex.toList ++ ".bin".toList) := by
    simp [packName]
  unfold validName
  rw [htext]
  have hprefix : "pack-".toList <+: "pack-".toList ++ (hex.toList ++ ".bin".toList) := prefix_append _ _
  have hsuffix : ".bin".toList <:+ "pack-".toList ++ (hex.toList ++ ".bin".toList) := by
    rw [← append_assoc]
    exact suffix_append _ _
  have hslash : '/' ∉ "pack-".toList ++ (hex.toList ++ ".bin".toList) := by
    simp [h]
  rw [List.isPrefixOf_iff_prefix.mpr hprefix, isSuffixOf_iff_suffix.mpr hsuffix, decide_eq_false hslash]
  rfl

theorem Blank.touch {d : NodeDisk} (h : Blank d) (name : String) :
    Blank (touch name d) ∧ (touch name d).packs.get? name = some [] := by
  unfold DataNode.touch
  cases hget : d.packs.get? name with
  | some bytes =>
    dsimp only
    rw [hget, h.packs name bytes hget]
    exact ⟨h, rfl⟩
  | none =>
    refine ⟨⟨h.current, fun n bytes hn => ?_, h.large⟩, get?_set_self _ _ _⟩
    obtain ⟨rfl, rfl⟩ | ⟨-, hn⟩ := get?_set_cases hn
    · rfl
    · exact h.packs n bytes hn

/-- A node comes up over whatever a crash left, and with it all that was stored. -/
theorem openNode_spec {m : Contents} (h : Holds U d m) {hex : String} (hhex : '/' ∉ hex.toList) :
    Spec (fun s => s = d) (openNode hex) (fun s => Holds U s m)
      fun r s => ∃ name, r = .ok name ∧ Serves U s name m := by
  have hrecover : ∀ s name records torn, Stored U s name records torn → m = contentsOf s records →
      Spec (fun s' => s' = s) (if validName name = false
          then Durable.lift (.error (.error 409 "invalid pack generation"))
          else do
            recover name
            pure name) (fun s => Holds U s m) fun r s => ∃ name, r = .ok name ∧ Serves U s name m := by
    rintro s name records torn hstored rfl
    rw [if_neg (by rw [hstored.named]; simp)]
    apply Spec.call (recover_spec hstored)
    · exact fun _ hs => hs
    · intro _ s' hs'
      apply Spec.pure_at
      exact ⟨name, rfl, hs'⟩
  unfold openNode
  apply Spec.read_bind
  obtain ⟨hblank, rfl⟩ | ⟨name, records, torn, hstored, hm⟩ := h
  · rw [hblank.current]
    obtain ⟨hblank', hpack⟩ := hblank.touch (packName hex)
    have hnamed := validName_packName hhex
    have hstored : Stored U { touch (packName hex) d with current := some (packName hex) } (packName hex) [] [] := by
      refine ⟨rfl, hnamed, hpack, torn_nil U, fun _ hr => (nomatch hr), fun k f hf => ?_⟩
      have hnone := hblank'.large k
      rw [show (touch (packName hex) d).large.get? k = some f from hf] at hnone
      cases hnone
    have hm : (fun _ => none) = contentsOf { touch (packName hex) d with current := some (packName hex) } [] := by
      funext k
      unfold contentsOf
      rw [hblank'.large k]
      rfl
    apply Spec.call (R := fun name s => name = packName hex ∧
      s = { touch (packName hex) d with current := some (packName hex) })
      (D := fun s => Holds U s fun _ => none)
    · unfold firstPack switch
      dsimp only
      apply Spec.effect_bind
      · exact .inl ⟨hblank', rfl⟩
      · apply Spec.call (R := fun _ s =>
          s = { touch (packName hex) d with current := some (packName hex) })
          (D := fun s => Holds U s fun _ => none)
        · apply Spec.read_bind
          rw [if_neg]
          · apply Spec.effect_at
            · exact .inr ⟨_, _, _, hstored, hm⟩
            · exact ⟨(), rfl, rfl⟩
          · rw [hnamed, hpack]
            simp
        · exact fun _ hs => hs
        · intro _ s hs
          apply Spec.pure_at
          exact ⟨_, rfl, rfl, hs⟩
    · exact fun _ hs => hs
    · rintro name s ⟨rfl, rfl⟩
      exact hrecover _ _ _ _ hstored hm
  · rw [hstored.current]
    apply Spec.call (R := fun n s => n = name ∧ s = d) (D := fun s => Holds U s m)
    · unfold firstPack
      dsimp only
      apply Spec.pure_at
      exact ⟨name, rfl, rfl, rfl⟩
    · exact fun _ hs => hs
    · rintro n s ⟨rfl, rfl⟩
      exact hrecover _ _ _ _ hstored hm

end SystemDesign.DataNode
