import SystemDesign.Lib.Json
import SystemDesign.Lib.SortedMap

/-!
Codecs between values and JSON.

A codec carries its own law: what it writes has no repeated keys, and reading
what came back from a writer that sorts keys gives the value. Records are
written as objects with fixed keys and read field by field; `Json.field_obj`
is the one fact their laws need, and `Codec.record` packs it.
-/

namespace SystemDesign

open List

variable {fs : List (String × Json)}

namespace Json

/-- Sorting keys does not change what an object answers, but for the values inside. -/
theorem get?_sortKeys (h : (fs.map Prod.fst).Nodup) (k : String) :
    (Json.obj fs).sortKeys.get? k = (fs.lookup k).map sortKeys := by
  have hkeys : ((sortFields fs).map Prod.fst).Nodup := by
    rw [sortFields_eq_map, map_map]
    exact h
  have hlookup : (sortByKey (sortFields fs)).lookup k = (sortFields fs).lookup k :=
    (Assoc.lookup_perm hkeys (sortByKey_perm _).symm k).symm
  simp only [sortKeys, get?]
  rw [hlookup, sortFields_eq_map]
  clear hkeys hlookup h
  induction fs with
  | nil => rfl
  | cons e fs ih =>
    obtain ⟨a, v⟩ := e
    rw [map_cons, Assoc.lookup_cons, Assoc.lookup_cons, ih]
    split <;> rfl

theorem itemsWF_iff {xs : List Json} : ItemsWF xs ↔ ∀ x ∈ xs, x.WF := by
  induction xs with
  | nil => simp [ItemsWF]
  | cons x xs ih => simp [ItemsWF, ih]

theorem sortItems_eq_map (xs : List Json) : sortItems xs = xs.map sortKeys := by
  induction xs with
  | nil => rfl
  | cons x xs ih => simp [sortItems, ih]

end Json

structure Codec (α : Type) where
  write : α → Json
  read : Json → Option α
  wf : ∀ a, (write a).WF
  read_write : ∀ a, read (write a).sortKeys = some a

namespace Codec

def int : Codec ℤ where
  write := .int
  read
    | .int n => some n
    | _ => none
  wf _ := trivial
  read_write _ := rfl

def bool : Codec Bool where
  write := .bool
  read
    | .bool b => some b
    | _ => none
  wf _ := trivial
  read_write _ := rfl

def str : Codec String where
  write := .str
  read
    | .str s => some s
    | _ => none
  wf _ := trivial
  read_write _ := rfl

/-- A string or `null`. -/
def optionalStr : Codec (Option String) where
  write
    | some s => .str s
    | none => .null
  read
    | .str s => some (some s)
    | .null => some none
    | _ => none
  wf a := by cases a <;> trivial
  read_write a := by cases a <;> rfl

/-- An integer written as its decimal text. -/
def intText : Codec ℤ where
  write n := .str (toString n)
  read
    | .str s => s.toInt?
    | _ => none
  wf _ := trivial
  read_write n := Int.toInt?_repr n

section
variable {α : Type} (c : Codec α)

def list : Codec (List α) where
  write l := .arr (l.map c.write)
  read
    | .arr xs => xs.mapM c.read
    | _ => none
  wf l := Json.itemsWF_iff.mpr fun x hx => by
    obtain ⟨a, -, rfl⟩ := mem_map.mp hx
    exact c.wf a
  read_write l := by
    simp only [Json.sortKeys, Json.sortItems_eq_map, map_map]
    induction l with
    | nil => rfl
    | cons a l ih => simp [c.read_write, ih]

/-- The fields of an object, in their order. -/
def readFields (fs : List (String × Json)) : Option (List (String × α)) :=
  fs.mapM fun p => (c.read p.2).map fun a => (p.1, a)

def writeFields (fs : List (String × α)) : List (String × Json) := fs.map fun p => (p.1, c.write p.2)

theorem writeFields_keys (fs : List (String × α)) : (c.writeFields fs).map Prod.fst = fs.map Prod.fst := by
  simp [writeFields, Function.comp_def]

theorem writeFields_wf {fs : List (String × α)} (h : (fs.map Prod.fst).Nodup) : (Json.obj (c.writeFields fs)).WF := by
  refine ⟨by rwa [writeFields_keys], Json.fieldsWF_iff.mpr fun p hp => ?_⟩
  obtain ⟨q, -, rfl⟩ := mem_map.mp hp
  exact c.wf q.2

theorem readFields_sortFields (fs : List (String × α)) :
    c.readFields (Json.sortFields (c.writeFields fs)) = some fs := by
  rw [Json.sortFields_eq_map]
  unfold readFields writeFields
  induction fs with
  | nil => rfl
  | cons p fs ih =>
    simp only [map_cons, mapM_cons, c.read_write, Option.map_some, Option.bind_eq_bind,
      Option.bind_some, ih, Option.pure_def]

/-- Fields written in some order and sorted are read in key order. -/
theorem readFields_sortKeys (fs : List (String × α)) :
    c.readFields (Json.sortByKey (Json.sortFields (c.writeFields fs)))
      = some (fs.insertionSort fun a b => a.1 ≤ b.1) := by
  have hsort : Json.sortByKey (Json.sortFields (c.writeFields fs))
      = Json.sortFields (c.writeFields (fs.insertionSort fun a b => a.1 ≤ b.1)) := by
    simp only [Json.sortFields_eq_map, writeFields, map_map]
    symm
    exact map_insertionSort _ _ _ _ fun _ _ _ _ => Iff.rfl
  rw [hsort, readFields_sortFields]

/-- A map with string keys. -/
def map : Codec (SortedMap String α) where
  write m := .obj (c.writeFields m.entries)
  read
    | .obj fs => (c.readFields fs).map SortedMap.ofList
    | _ => none
  wf m := c.writeFields_wf m.nodup
  read_write m := by
    have hsorted : m.entries.Pairwise fun a b => a.1 ≤ b.1 := (pairwise_map.mp m.sorted).imp fun h => h.le
    simp only [Json.sortKeys]
    rw [readFields_sortKeys, hsorted.insertionSort_eq]
    exact congrArg some (SortedMap.ext_get? fun k => SortedMap.get?_ofList m.nodup k)

/-- A map is written in key order already. -/
theorem map_sortKeys (m : SortedMap String α) :
    (c.map.write m).sortKeys = .obj (m.entries.map fun p => (p.1, (c.write p.2).sortKeys)) := by
  have hsorted : (Json.sortFields (c.writeFields m.entries)).Pairwise fun a b => a.1 ≤ b.1 := by
    rw [Json.sortFields_eq_map, writeFields, map_map, pairwise_map]
    exact (pairwise_map.mp m.sorted).imp fun h => h.le
  simp only [map, Json.sortKeys, Json.sortByKey]
  rw [hsorted.insertionSort_eq, Json.sortFields_eq_map, writeFields, map_map]
  rfl

/-- Integer keys as their decimal texts. -/
def textKeys (fs : List (ℤ × α)) : List (String × α) := fs.map fun p => (toString p.1, p.2)

def readKeys (fs : List (String × α)) : Option (List (ℤ × α)) := fs.mapM fun p => p.1.toInt?.map fun n => (n, p.2)

theorem readKeys_textKeys (fs : List (ℤ × α)) : readKeys (textKeys fs) = some fs := by
  unfold readKeys textKeys
  induction fs with
  | nil => rfl
  | cons p fs ih =>
    have : (toString p.1).toInt? = some p.1 := Int.toInt?_repr p.1
    simp only [map_cons, mapM_cons, this, Option.map_some, Option.bind_eq_bind, Option.bind_some, ih, Option.pure_def]

theorem textKeys_nodup {fs : List (ℤ × α)} (h : (fs.map Prod.fst).Nodup) : ((textKeys fs).map Prod.fst).Nodup := by
  have : (textKeys fs).map Prod.fst = (fs.map Prod.fst).map (fun n : ℤ => toString n) := by
    simp [textKeys, Function.comp_def]
  rw [this]
  refine h.map fun a b hab => ?_
  have ha : (toString a).toInt? = some a := Int.toInt?_repr a
  have hb : (toString b).toInt? = some b := Int.toInt?_repr b
  have hab' : toString a = toString b := hab
  rw [hab', hb] at ha
  exact (Option.some.inj ha).symm

/-- A map with integer keys, written by their texts. -/
def intMap : Codec (SortedMap ℤ α) where
  write m := .obj (c.writeFields (textKeys m.entries))
  read
    | .obj fs => ((c.readFields fs).bind readKeys).map SortedMap.ofList
    | _ => none
  wf m := c.writeFields_wf (textKeys_nodup m.nodup)
  read_write m := by
    -- the texts are sorted as texts, so the entries come back in another order
    have hsort : ∃ es : List (ℤ × α), es.Perm m.entries ∧
        (textKeys m.entries).insertionSort (fun a b => a.1 ≤ b.1) = textKeys es := by
      refine ⟨m.entries.insertionSort fun a b => toString a.1 ≤ toString b.1, perm_insertionSort _ _, ?_⟩
      symm
      exact map_insertionSort _ _ _ _ fun _ _ _ _ => Iff.rfl
    obtain ⟨es, hperm, hes⟩ := hsort
    have hn : (es.map Prod.fst).Nodup := (hperm.map Prod.fst).nodup_iff.mpr m.nodup
    simp only [Json.sortKeys]
    rw [readFields_sortKeys, hes, Option.bind_some, readKeys_textKeys, Option.map_some]
    refine congrArg some (SortedMap.ext_get? fun k => ?_)
    rw [SortedMap.get?_ofList hn, Assoc.lookup_perm hn hperm]
    rfl

end

end Codec

/-- Read one field of a record. -/
def Json.field {α : Type} (j : Json) (k : String) (c : Codec α) : Option α := (j.get? k).bind c.read

theorem Json.field_obj {α : Type} {k : String} {c : Codec α} {a : α} (hn : (fs.map Prod.fst).Nodup)
    (h : fs.lookup k = some (c.write a)) : (Json.obj fs).sortKeys.field k c = some a := by
  rw [field, get?_sortKeys hn, h, Option.map_some, Option.bind_some, c.read_write]

/-- Read a field that may be missing. -/
def Json.optionalField {α : Type} (j : Json) (k : String) (c : Codec α) : Option (Option α) :=
  match j.get? k with
  | none => some none
  | some v => (c.read v).map some

theorem Json.optionalField_obj {α : Type} {k : String} {c : Codec α} {a : Option α} (hn : (fs.map Prod.fst).Nodup)
    (h : fs.lookup k = a.map c.write) : (Json.obj fs).sortKeys.optionalField k c = some a := by
  rw [optionalField, get?_sortKeys hn, h]
  cases a with
  | none => rfl
  | some a => simp [c.read_write]

/-- A record: its fields, and a reader that gets every one of them back by its key. -/
def Codec.record {α : Type} (fs : α → List (String × Json)) (read : Json → Option α)
    (keys : ∀ a, ((fs a).map Prod.fst).Nodup) (values : ∀ a, Json.FieldsWF (fs a))
    (law : ∀ a (j : Json), (∀ {β : Type} (c : Codec β) (k : String) (b : β),
      (fs a).lookup k = some (c.write b) → j.field k c = some b) → read j = some a) :
    Codec α where
  write a := .obj (fs a)
  read := read
  wf a := ⟨keys a, values a⟩
  read_write a := law a _ fun _ _ _ h => Json.field_obj (keys a) h

end SystemDesign
