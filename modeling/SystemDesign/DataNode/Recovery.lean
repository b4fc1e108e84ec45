import SystemDesign.Lib.Transitions
import SystemDesign.DataNode.Calls

/-!
A data node over its whole life: calls, crashes inside them, and starts.

`fate` is what the calls so far promise of a chunk; it is read off the calls and their answers
alone. Digests are taken to tell the chunks of a run apart (`U` are the chunks that are put).
-/

namespace SystemDesign.DataNode

open Function (update update_of_ne update_self)
open Durable

/-! ### The system -/

/-- What was promised of a chunk. -/
inductive Fate where
  /-- A put was acknowledged, and no collection since has picked it. -/
  | kept (data : Chunk)
  /-- Never put, or its removal was acknowledged and it was not put again. -/
  | gone
  | unknown

/-- A put that was cut off takes back no promise to keep. -/
def Fate.attempted : Fate → Fate
  | .kept data => .kept data
  | _ => .unknown

/-- Nor does a collection that was cut off bring anything back. -/
def Fate.doubted : Fate → Fate
  | .gone => .gone
  | _ => .unknown

abbrev Fates := ChunkKey → Fate

def Fates.put (fates : Fates) (key : ChunkKey) (data : Chunk) : Fates := update fates key (.kept data)

def Fates.putCut (fates : Fates) (key : ChunkKey) (data : Chunk) : Fates :=
  if Sha256.digest data = key then update fates key (fates key).attempted else fates

def Fates.collected (fates : Fates) (picked : List (ChunkKey × ChunkRow)) : Fates := fun key =>
  if key ∈ picked.map Prod.fst then .gone else fates key

def Fates.collectCut (fates : Fates) (picked : List (ChunkKey × ChunkRow)) : Fates := fun key =>
  if key ∈ picked.map Prod.fst then (fates key).doubted else fates key

/-- What a running node keeps in memory. -/
structure Process where
  pack : String
  generation : String

structure NodeState where
  disk : NodeDisk
  up : Option Process
  fates : Fates

/-- Calls are serialized by the node's lock. A crash leaves any state a call passes through. -/
inductive NodeStep (U : Set Chunk) : NodeState → NodeState → Prop
  | reopened {s : NodeState} {hex name : String} (generation : String) (hup : s.up = none)
      (hhex : '/' ∉ hex.toList) (h : (openNode hex s.disk).result = .ok name) :
      NodeStep U s { s with disk := (openNode hex s.disk).final, up := some ⟨name, generation⟩ }
  | reopenCut {s : NodeState} {hex : String} {d : NodeDisk} (hup : s.up = none)
      (hhex : '/' ∉ hex.toList) (h : (openNode hex).Leaves s.disk d) :
      NodeStep U s { s with disk := d }
  | recovered {s : NodeState} {p : Process} (generation : String) (hup : s.up = some p)
      (h : (recover p.pack s.disk).result = .ok ()) :
      NodeStep U s { s with
        disk := (recover p.pack s.disk).final
        up := some ⟨p.pack, generation⟩ }
  | recoverCut {s : NodeState} {p : Process} {d : NodeDisk} (hup : s.up = some p)
      (h : (recover p.pack).Leaves s.disk d) : NodeStep U s { s with disk := d, up := none }
  | put {s : NodeState} {p : Process} {key : ChunkKey} {data : Chunk} {now mtime : UInt64}
      {duplicate : Bool} (generation : String) (hup : s.up = some p) (hdata : data ∈ U)
      (h : (put p.pack key data now mtime s.disk).result = .ok duplicate) :
      NodeStep U s ⟨(put p.pack key data now mtime s.disk).final, some ⟨p.pack, generation⟩, s.fates.put key data⟩
  | putFailed {s : NodeState} {p : Process} {key : ChunkKey} {data : Chunk} {now mtime : UInt64}
      {e : NodeError} (generation : String) (hup : s.up = some p) (hdata : data ∈ U)
      (h : (put p.pack key data now mtime s.disk).result = .error e) :
      NodeStep U s { s with
        disk := (put p.pack key data now mtime s.disk).final
        up := some ⟨p.pack, generation⟩ }
  | putCut {s : NodeState} {p : Process} {key : ChunkKey} {data : Chunk} {now mtime : UInt64}
      {d : NodeDisk} (hup : s.up = some p) (hdata : data ∈ U)
      (h : (put p.pack key data now mtime).Leaves s.disk d) :
      NodeStep U s ⟨d, none, s.fates.putCut key data⟩
  | collected {s : NodeState} {p : Process} {live : List ChunkKey} {aged : UInt64 → Bool} {grace : ℤ}
      {captured : Option String} {now : UInt64} {removed : ℕ} (generation : String)
      (hup : s.up = some p)
      (h : (collect p.pack p.generation live aged grace captured now s.disk).result = .ok removed) :
      NodeStep U s ⟨(collect p.pack p.generation live aged grace captured now s.disk).final,
        some ⟨p.pack, generation⟩, s.fates.collected (candidates s.disk live aged)⟩
  | collectFailed {s : NodeState} {p : Process} {live : List ChunkKey} {aged : UInt64 → Bool}
      {grace : ℤ} {captured : Option String} {now : UInt64} {e : NodeError} (generation : String)
      (hup : s.up = some p)
      (h : (collect p.pack p.generation live aged grace captured now s.disk).result = .error e) :
      NodeStep U s { s with
        disk := (collect p.pack p.generation live aged grace captured now s.disk).final
        up := some ⟨p.pack, generation⟩ }
  | collectCut {s : NodeState} {p : Process} {live : List ChunkKey} {aged : UInt64 → Bool} {grace : ℤ}
      {captured : Option String} {now : UInt64} {d : NodeDisk} (hup : s.up = some p)
      (h : (collect p.pack p.generation live aged grace captured now).Leaves s.disk d) :
      NodeStep U s ⟨d, none, s.fates.collectCut (candidates s.disk live aged)⟩
  | compacted {s : NodeState} {p : Process} {hex : String} (generation : String) (hup : s.up = some p)
      (hhex : '/' ∉ hex.toList) (h : (compact p.pack hex s.disk).result = .ok ()) :
      NodeStep U s { s with
        disk := (compact p.pack hex s.disk).final
        up := some ⟨packName hex, generation⟩ }
  | compactFailed {s : NodeState} {p : Process} {hex : String} {e : NodeError} (generation : String)
      (hup : s.up = some p) (hhex : '/' ∉ hex.toList)
      (h : (compact p.pack hex s.disk).result = .error e) :
      NodeStep U s { s with
        disk := (compact p.pack hex s.disk).final
        up := some ⟨p.pack, generation⟩ }
  | compactCut {s : NodeState} {p : Process} {hex : String} {d : NodeDisk} (hup : s.up = some p)
      (hhex : '/' ∉ hex.toList) (h : (compact p.pack hex).Leaves s.disk d) :
      NodeStep U s { s with disk := d, up := none }
  | crashed {s : NodeState} : NodeStep U s { s with up := none }

/-- A node from an empty directory on. -/
def node (U : Set Chunk) : Transitions NodeState where
  start s := s = ⟨⟨none, .empty, .empty, .empty⟩, none, fun _ => .gone⟩
  step := NodeStep U

/-! ### The invariant -/

variable {U : Set Chunk}

structure Agrees (fates : Fates) (m : Contents) : Prop where
  kept : ∀ key data, fates key = .kept data → m key = some data
  gone : ∀ key, fates key = .gone → m key = none

def Stands (U : Set Chunk) (d : NodeDisk) (up : Option Process) (m : Contents) : Prop :=
  match up with
  | none => Holds U d m
  | some p => Serves U d p.pack m

variable {m : Contents}

theorem Stands.holds {d : NodeDisk} {up : Option Process} (h : Stands U d up m) : Holds U d m := by
  cases up with
  | none => exact h
  | some p => exact Serves.holds h

def NodeInvariant (U : Set Chunk) (s : NodeState) : Prop := ∃ m, Agrees s.fates m ∧ Stands U s.disk s.up m

variable {fates : Fates}

theorem Agrees.put (h : Agrees fates m) (key : ChunkKey) (data : Chunk) :
    Agrees (fates.put key data) (update m key (some data)) := by
  constructor
  · intro k data' hk
    unfold Fates.put at hk
    by_cases heq : k = key
    · subst heq
      rw [update_self] at hk ⊢
      cases hk
      rfl
    · rw [update_of_ne heq] at hk ⊢
      exact h.kept k data' hk
  · intro k hk
    unfold Fates.put at hk
    by_cases heq : k = key
    · subst heq
      rw [update_self] at hk
      cases hk
    · rw [update_of_ne heq] at hk ⊢
      exact h.gone k hk

/-- A put that was cut off before it took effect. -/
theorem Agrees.putCut (h : Agrees fates m) (key : ChunkKey) (data : Chunk) : Agrees (fates.putCut key data) m := by
  unfold Fates.putCut
  split
  · constructor
    · intro k data' hk
      by_cases heq : k = key
      · subst heq
        rw [update_self] at hk
        cases hfate : fates k with
        | kept old =>
          rw [hfate] at hk
          cases hk
          exact h.kept k _ hfate
        | gone =>
          rw [hfate] at hk
          cases hk
        | unknown =>
          rw [hfate] at hk
          cases hk
      · rw [update_of_ne heq] at hk
        exact h.kept k data' hk
    · intro k hk
      by_cases heq : k = key
      · subst heq
        rw [update_self] at hk
        cases hfate : fates k with
        | kept old =>
          rw [hfate] at hk
          cases hk
        | gone => exact h.gone k hfate
        | unknown =>
          rw [hfate] at hk
          cases hk
      · rw [update_of_ne heq] at hk
        exact h.gone k hk
  · exact h

/-- A put that was cut off after it took effect: what was kept is the same chunk. -/
theorem Agrees.putDone (h : Agrees fates m) {key : ChunkKey} {data : Chunk} (hdigest : Sha256.digest data = key)
    (hsame : ∀ old, m key = some old → old = data) : Agrees (fates.putCut key data) (update m key (some data)) := by
  unfold Fates.putCut
  rw [if_pos hdigest]
  constructor
  · intro k data' hk
    by_cases heq : k = key
    · subst heq
      rw [update_self] at hk ⊢
      cases hfate : fates k with
      | kept old =>
        rw [hfate] at hk
        cases hk
        rw [hsame _ (h.kept k _ hfate)]
      | gone =>
        rw [hfate] at hk
        cases hk
      | unknown =>
        rw [hfate] at hk
        cases hk
    · rw [update_of_ne heq] at hk ⊢
      exact h.kept k data' hk
  · intro k hk
    by_cases heq : k = key
    · subst heq
      rw [update_self] at hk
      cases hfate : fates k with
      | kept old =>
        rw [hfate] at hk
        cases hk
      | gone =>
        rw [hfate] at hk
        cases hk
      | unknown =>
        rw [hfate] at hk
        cases hk
    · rw [update_of_ne heq] at hk ⊢
      exact h.gone k hk

theorem Agrees.collected {m' : Contents} (h : Agrees fates m) {picked : List (ChunkKey × ChunkRow)}
    (ht : Thinned m m' picked) (hgone : ∀ e ∈ picked, m' e.1 = none) : Agrees (fates.collected picked) m' := by
  constructor
  · intro k data hk
    unfold Fates.collected at hk
    split at hk
    · cases hk
    · rename_i hmem
      rw [ht.others k hmem]
      exact h.kept k data hk
  · intro k hk
    unfold Fates.collected at hk
    split at hk
    · rename_i hmem
      obtain ⟨e, he, rfl⟩ := List.mem_map.mp hmem
      exact hgone e he
    · rename_i hmem
      rw [ht.others k hmem]
      exact h.gone k hk

theorem Agrees.collectCut {m' : Contents} (h : Agrees fates m) {picked : List (ChunkKey × ChunkRow)}
    (ht : Thinned m m' picked) : Agrees (fates.collectCut picked) m' := by
  constructor
  · intro k data hk
    unfold Fates.collectCut at hk
    split at hk
    · cases hfate : fates k with
      | kept old =>
        rw [hfate] at hk
        cases hk
      | gone =>
        rw [hfate] at hk
        cases hk
      | unknown =>
        rw [hfate] at hk
        cases hk
    · rename_i hmem
      rw [ht.others k hmem]
      exact h.kept k data hk
  · intro k hk
    have hfate : fates k = .gone := by
      unfold Fates.collectCut at hk
      split at hk
      · cases hfate : fates k with
        | kept old =>
          rw [hfate] at hk
          cases hk
        | gone => rfl
        | unknown =>
          rw [hfate] at hk
          cases hk
      · exact hk
    obtain heq | hnone := ht.each k
    · rw [heq]
      exact h.gone k hfate
    · exact hnone

theorem Holds.contents {d : NodeDisk} (h : Holds U d m) {key : ChunkKey} {data : Chunk} (hm : m key = some data) :
    data ∈ U ∧ Sha256.digest data = key := by
  obtain ⟨-, rfl⟩ | ⟨name, records, torn, hstored, rfl⟩ := h
  · cases hm
  · exact hstored.contents hm

theorem NodeInvariant.step (hU : Set.InjOn Sha256.digest U) {s s' : NodeState}
    (inv : NodeInvariant U s) (h : NodeStep U s s') : NodeInvariant U s' := by
  obtain ⟨m, hfates, hstands⟩ := inv
  have hholds := hstands.holds
  -- while the node is up it serves what the disk holds
  have hserves : ∀ p, s.up = some p → Serves U s.disk p.pack m := by
    intro p hp
    rw [hp] at hstands
    exact hstands
  cases h with
  | reopened _ _ hhex h =>
    obtain ⟨name', hname, hs⟩ := (openNode_spec hholds hhex).done _ rfl
    rw [h] at hname
    cases hname
    exact ⟨m, hfates, hs⟩
  | reopenCut hup hhex h =>
    have := (openNode_spec hholds hhex).leaves rfl hholds h
    refine ⟨m, hfates, ?_⟩
    rw [hup]
    exact this
  | recovered _ hup h =>
    obtain ⟨records, hstored, -, rfl⟩ := hserves _ hup
    obtain ⟨-, -, hs⟩ := (recover_spec hstored).done _ rfl
    exact ⟨_, hfates, hs⟩
  | recoverCut hup h =>
    obtain ⟨records, hstored, -, rfl⟩ := hserves _ hup
    exact ⟨_, hfates, (recover_spec hstored).leaves rfl hholds h⟩
  | put _ hup hdata h =>
    obtain ⟨_, -, -, hs⟩ | ⟨e, he, -, -⟩ := (put_spec hU (hserves _ hup) _ hdata _ _).done _ rfl
    · exact ⟨_, hfates.put _ _, hs⟩
    · rw [h] at he
      cases he
  | putFailed _ hup hdata h =>
    obtain ⟨_, hok, -, -⟩ | ⟨-, -, -, hs⟩ := (put_spec hU (hserves _ hup) _ hdata _ _).done _ rfl
    · rw [h] at hok
      cases hok
    · exact ⟨m, hfates, hs⟩
  | putCut hup hdata h =>
    obtain hs | ⟨hdigest, hs⟩ := (put_spec hU (hserves _ hup) _ hdata _ _).leaves rfl (.inl hholds) h
    · exact ⟨m, hfates.putCut _ _, hs⟩
    · refine ⟨_, hfates.putDone hdigest fun old hold => ?_, hs⟩
      obtain ⟨hchunk, hkey⟩ := hholds.contents hold
      exact hU hchunk hdata (hkey.trans hdigest.symm)
  | collected _ hup h =>
    obtain ⟨_, -, m', hs, ht, hgone⟩ | ⟨e, he, -⟩ := (collect_spec hU (hserves _ hup) _ _ _ _ _ _).done _ rfl
    · exact ⟨m', hfates.collected ht hgone, hs⟩
    · rw [h] at he
      cases he
  | collectFailed _ hup h =>
    obtain ⟨_, hok, -⟩ | ⟨-, -, hs⟩ := (collect_spec hU (hserves _ hup) _ _ _ _ _ _).done _ rfl
    · rw [h] at hok
      cases hok
    · exact ⟨m, hfates, hs⟩
  | collectCut hup h =>
    obtain ⟨m', hs, ht⟩ := (collect_spec hU (hserves _ hup) _ _ _ _ _ _).leaves rfl
      ⟨m, hholds, ⟨fun _ _ => rfl, fun _ => .inl rfl⟩⟩ h
    exact ⟨m', hfates.collectCut ht, hs⟩
  | compacted _ hup hhex h =>
    obtain ⟨-, hs⟩ | ⟨he, -⟩ := (compact_spec (hserves _ hup) hhex).done _ rfl
    · exact ⟨m, hfates, hs⟩
    · rw [h] at he
      cases he
  | compactFailed _ hup hhex h =>
    obtain ⟨hok, -⟩ | ⟨-, hs⟩ := (compact_spec (hserves _ hup) hhex).done _ rfl
    · rw [h] at hok
      cases hok
    · exact ⟨m, hfates, hs⟩
  | compactCut hup hhex h =>
    exact ⟨m, hfates, (compact_spec (hserves _ hup) hhex).leaves rfl hholds h⟩
  | crashed => exact ⟨m, hfates, hholds⟩

theorem nodeInvariant_of_reachable (hU : Set.InjOn Sha256.digest U) {s : NodeState}
    (h : (node U).Reachable s) : NodeInvariant U s := by
  apply h.invariant
  · rintro s rfl
    refine ⟨fun _ => none, ⟨fun _ _ hk => (nomatch hk), fun _ _ => rfl⟩, .inl ⟨?_, rfl⟩⟩
    exact ⟨rfl, fun _ _ hget => (nomatch hget), fun _ => rfl⟩
  · exact fun s s' _ inv hstep => inv.step hU hstep

/-! ### What it is for -/

/-- Two disks of which a caller cannot tell the contents apart. -/
def SameAnswers (d : NodeDisk) (name : String) (d' : NodeDisk) (name' : String) : Prop :=
  ∀ key : ChunkKey, key.length = 32 → get d' name' key = get d name key

theorem Serves.sameAnswers {d d' : NodeDisk} {name name' : String} (h : Serves U d name m)
    (h' : Serves U d' name' m) : SameAnswers d name d' name' := by
  intro key hkey
  rw [h.get hkey, h'.get hkey]

/-- In every state of every run, crashes at any point included: a node that is down comes
up, one that is up recovers when it is asked to, answers every chunk that is kept with its
bytes and every chunk that is gone with 404, and a compaction, also one that was cut off
and followed by a start, changes no answer. -/
theorem node_recovers (hU : Set.InjOn Sha256.digest U) {s : NodeState} (h : (node U).Reachable s) :
    (s.up = none → ∀ hex, '/' ∉ hex.toList → ∃ name, (openNode hex s.disk).result = .ok name) ∧
    ∀ p, s.up = some p →
      (recover p.pack s.disk).result = .ok () ∧
      (∀ key data, s.fates key = .kept data → get s.disk p.pack key = .ok data) ∧
      (∀ key, key.length = 32 → s.fates key = .gone → get s.disk p.pack key = .error (.error 404 "chunk missing")) ∧
      ∀ hex, '/' ∉ hex.toList →
        ((compact p.pack hex s.disk).result = .ok () → SameAnswers s.disk p.pack
          (compact p.pack hex s.disk).final (packName hex)) ∧
        ∀ d, (compact p.pack hex).Leaves s.disk d → ∀ hex', '/' ∉ hex'.toList →
          ∃ name, (openNode hex' d).result = .ok name ∧ SameAnswers s.disk p.pack (openNode hex' d).final name := by
  obtain ⟨m, hfates, hstands⟩ := nodeInvariant_of_reachable hU h
  have hholds := hstands.holds
  constructor
  · intro _ hex hhex
    obtain ⟨name, hname, -⟩ := (openNode_spec hholds hhex).done _ rfl
    exact ⟨name, hname⟩
  · intro p hp
    rw [hp] at hstands
    have hserves : Serves U s.disk p.pack m := hstands
    refine ⟨?_, ?_, ?_, ?_⟩
    · obtain ⟨records, hstored, -, -⟩ := id hserves
      obtain ⟨u, hok, -⟩ := (recover_spec hstored).done _ rfl
      exact hok
    · intro key data hkept
      have hm := hfates.kept key data hkept
      have hkey : key.length = 32 := by
        rw [← (hholds.contents hm).2]
        exact Sha256.digest_length data
      rw [hserves.get hkey, hm]
    · intro key hkey hgone
      rw [hserves.get hkey, hfates.gone key hgone]
    · intro hex hhex
      constructor
      · intro hok
        obtain ⟨-, hs⟩ | ⟨he, -⟩ := (compact_spec hserves hhex).done _ rfl
        · exact hserves.sameAnswers hs
        · rw [hok] at he
          cases he
      · intro d hd hex' hhex'
        have hleft := (compact_spec hserves hhex).leaves rfl hholds hd
        obtain ⟨name, hname, hs⟩ := (openNode_spec hleft hhex').done _ rfl
        exact ⟨name, hname, hserves.sameAnswers hs⟩

/-- One chunk, put and acknowledged before the node crashes in a compaction. -/
theorem node_recovers_letter : ∃ s p, (node {[0x61]}).Reachable s ∧ s.up = some p ∧
    get s.disk p.pack (Sha256.digest [0x61]) = .ok [0x61] := by
  have hinj : Set.InjOn Sha256.digest ({[0x61]} : Set Chunk) := Set.injOn_singleton _ _
  generalize hkey : Sha256.digest [0x61] = key
  have hstart : (node {[0x61]}).Reachable ⟨⟨none, .empty, .empty, .empty⟩, none, fun _ => .gone⟩ := .start rfl
  obtain ⟨name, hname⟩ := (node_recovers hinj hstart).1 rfl "a" (by simp)
  have hup := hstart.step (NodeStep.reopened "g1" rfl (by simp) hname)
  obtain ⟨m, -, hserves⟩ := nodeInvariant_of_reachable hinj hup
  obtain ⟨duplicate, hput, -, -⟩ | ⟨-, -, hbad, -⟩ := (put_spec hinj hserves key (Set.mem_singleton _) 0 0).done _ rfl
  · have hkept := hup.step (NodeStep.put "g2" rfl (Set.mem_singleton _) hput)
    have hcut := hkept.step (NodeStep.compactCut rfl (by simp : '/' ∉ "b".toList) (.inl rfl))
    obtain ⟨name', hname'⟩ := (node_recovers hinj hcut).1 rfl "c" (by simp)
    have hagain := hcut.step (NodeStep.reopened "g3" rfl (by simp) hname')
    refine ⟨_, _, hagain, rfl, ?_⟩
    apply ((node_recovers hinj hagain).2 _ rfl).2.1
    exact update_self _ _ _
  · exact absurd ⟨hkey, by simp [chunkLimit], rfl⟩ hbad

end SystemDesign.DataNode
