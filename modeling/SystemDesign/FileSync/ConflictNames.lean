import SystemDesign.Lib.Py
import SystemDesign.Lib.Transaction

/-!
Portable relative paths (`paths.py`) and the names of conflict copies (`service.py`, `client.py`).

Unicode normalization is a parameter with the laws that its standard states. Of case folding and upper case only the
comparisons with ASCII names are represented: besides the ASCII letters, `ſ` folds to a letter of `.sync`, and no other
character has an upper case that is a letter of a reserved name.

The name of a conflict copy is cut in its stem and in its suffix. It is safe again unless the suffix is cut behind a
space, and the local name unless the whole path gets too long besides (`conflict_names`).
-/

namespace SystemDesign.FileSync

abbrev Text := List Char

/-- `unicodedata.normalize("NFC", text)` -/
structure Unicode where
  normalize : Text → Text
  /-- ASCII text is left as it is. -/
  ascii : ∀ text : Text, (∀ c ∈ text, c.toNat < 128) → normalize text = text
  /-- Normal forms are closed under substrings. -/
  substring : ∀ front text back : Text, normalize (front ++ (text ++ back)) = front ++ (text ++ back) →
    normalize text = text
  /-- An ASCII character does not combine with what is before it. -/
  boundary : ∀ (front : Text) (c : Char) (back : Text), c.toNat < 128 → normalize front = front →
    normalize (c :: back) = c :: back → normalize (front ++ c :: back) = front ++ c :: back

/-! ### Safe paths -/

/-- `p.casefold() == ".sync"` -/
def foldsToSync : Text → Bool
  | [a, b, c, d, e] => a = '.' && (b = 's' || b = 'S' || b = 'ſ') && (c = 'y' || c = 'Y') && (d = 'n' || d = 'N') &&
      (e = 'c' || e = 'C')
  | _ => false

def reserved : List Text :=
  ["CON", "PRN", "AUX", "NUL", "COM1", "COM2", "COM3", "COM4", "COM5", "COM6", "COM7", "COM8", "COM9", "LPT1", "LPT2",
    "LPT3", "LPT4", "LPT5", "LPT6", "LPT7", "LPT8", "LPT9"].map String.toList

/-- `[<>:"\\|?*\x00-\x1f]` -/
def isForbidden (c : Char) : Bool := c ∈ ['<', '>', ':', '"', '\\', '|', '?', '*'] || c.toNat ≤ 31

/-- What one part of a path must not be. -/
def unsafePart (p : Text) : Bool :=
  (p == [] || p == ['.'] || p == ['.', '.'] || foldsToSync p) || (p.getLast? == some '.' || p.getLast? == some ' ') ||
    p.any isForbidden || reserved.contains ((p.takeWhile (· ≠ '.')).map Char.toUpper)

variable (u : Unicode)

/-- `safe_path` -/
def safePath (value : Text) : Py Text := do
  require (value ≠ [] ∧ value.length ≤ 240 ∧ value = u.normalize value) (.valueError "invalid relative path")
  require ((value.splitOn '/').any unsafePart = false) (.valueError "unsafe relative path")
  return value

/-! ### Names -/

/-- `PurePosixPath(path).name` -/
def nameOf (path : Text) : Text := path.rtakeWhile (· ≠ '/')

/-- What is before the name, with the slash. -/
def parentOf (path : Text) : Text := path.rdropWhile (· ≠ '/')

/-- The name up to its last dot, and what is behind it. -/
def dotSplit (name : Text) : Text × Text := (name.rdropWhile (· ≠ '.'), name.rtakeWhile (· ≠ '.'))

/-- `suffix`: from the last dot on, unless the name begins or ends with it. -/
def suffixOf (name : Text) : Text :=
  if 2 ≤ (dotSplit name).1.length ∧ (dotSplit name).2 ≠ [] then '.' :: (dotSplit name).2 else []

/-- `stem` -/
def stemOf (name : Text) : Text :=
  if 2 ≤ (dotSplit name).1.length ∧ (dotSplit name).2 ≠ [] then (dotSplit name).1.dropLast else name

/-- `stem[:40] + mark + tag + suffix[:15]` -/
def conflictName (mark tag name : Text) : Text := (stemOf name).take 40 ++ (mark ++ (tag ++ (suffixOf name).take 15))

def conflictMark : Text := ".conflict-".toList

def localMark : Text := ".local-conflict-".toList

/-- The conflict path of `Drive.commit`. -/
def commitPath (path tag : Text) : Text :=
  let renamed := parentOf path ++ conflictName conflictMark tag (nameOf path)
  -- a near-limit parent path may leave no room for the suffix
  if 240 < renamed.length then nameOf renamed else renamed

/-- The conflict path of `DeviceClient.preserve`. -/
def preservePath (path tag : Text) : Text := parentOf path ++ conflictName localMark tag (nameOf path)

end SystemDesign.FileSync

namespace SystemDesign.FileSync

open List

/-! ### Cutting at the last separator -/

/-- A text up to its last separator, and what is behind it. -/
theorem last_split (sep : Char) (text : Text) :
    text.rdropWhile (· ≠ sep) ++ text.rtakeWhile (· ≠ sep) = text ∧ sep ∉ text.rtakeWhile (· ≠ sep) ∧
      (text.rdropWhile (· ≠ sep) = [] ∨ ∃ init, text.rdropWhile (· ≠ sep) = init ++ [sep]) := by
  refine ⟨rdropWhile_append_rtakeWhile .., fun hmem => ?_, ?_⟩
  · have := mem_rtakeWhile_imp hmem
    simp at this
  · rcases eq_nil_or_concat' (text.rdropWhile (· ≠ sep)) with hnil | ⟨init, c, hconcat⟩
    · exact .inl hnil
    · refine .inr ⟨init, ?_⟩
      have hne : text.rdropWhile (· ≠ sep) ≠ [] := hconcat ▸ concat_ne_nil _ _
      have hlast := rdropWhile_last_not (· ≠ sep) text hne
      have hc : (text.rdropWhile (· ≠ sep)).getLast hne = c := by
        rw [getLast_congr hne (concat_ne_nil _ _) hconcat, getLast_concat]
      rw [hc] at hlast
      have heq : c = sep := by simpa using hlast
      rw [hconcat, heq]

theorem parentOf_append_nameOf (path : Text) : parentOf path ++ nameOf path = path := (last_split '/' path).1

theorem not_slash_mem_nameOf (path : Text) : '/' ∉ nameOf path := (last_split '/' path).2.1

/-- A parent and a name: the parts of the parent, and the name. -/
theorem splitOn_parent (path : Text) : ∃ dirs : List Text, ∀ name : Text, '/' ∉ name →
    (parentOf path ++ name).splitOn '/' = dirs ++ [name] := by
  rcases (last_split '/' path).2.2 with hnil | ⟨init, hinit⟩
  · refine ⟨[], fun name hname => ?_⟩
    rw [parentOf, hnil]
    exact splitOn_eq_singleton hname
  · refine ⟨init.splitOn '/', fun name hname => ?_⟩
    rw [parentOf, hinit, append_assoc, singleton_append, splitOn_append_cons_self, splitOn_eq_singleton hname]

variable {name : Text}

theorem nameOf_append (path : Text) (hname : '/' ∉ name) : nameOf (parentOf path ++ name) = name := by
  have hall : ∀ c ∈ name.reverse, decide (c ≠ '/') = true := fun c hc =>
    decide_eq_true fun heq => hname (heq ▸ mem_reverse.mp hc)
  rw [nameOf, List.rtakeWhile, reverse_append, takeWhile_append_of_pos hall]
  have hparent : (parentOf path).reverse.takeWhile (· ≠ '/') = [] := by
    rcases (last_split '/' path).2.2 with hnil | ⟨init, hinit⟩
    · rw [parentOf, hnil]
      rfl
    · rw [parentOf, hinit, reverse_append, reverse_singleton, singleton_append, takeWhile_cons_of_neg (by simp)]
  rw [hparent, append_nil, reverse_reverse]

/-- The stem and the suffix are the name; a suffix is a dot and something without one. -/
theorem stem_append_suffix (name : Text) : stemOf name ++ suffixOf name = name ∧
    (suffixOf name = [] ∨ ∃ ext, suffixOf name = '.' :: ext ∧ ext ≠ [] ∧ '.' ∉ ext) := by
  obtain ⟨happend, hdot, hfront⟩ := last_split '.' name
  unfold stemOf suffixOf dotSplit
  split
  · rename_i h
    obtain ⟨hlength, hext⟩ := h
    rcases hfront with hnil | ⟨init, hinit⟩
    · have hshort : (name.rdropWhile (· ≠ '.')).length = 0 := by rw [hnil]; rfl
      have hlong : 2 ≤ (name.rdropWhile (· ≠ '.')).length := hlength
      omega
    · refine ⟨?_, .inr ⟨_, rfl, hext, hdot⟩⟩
      show (name.rdropWhile (· ≠ '.')).dropLast ++ '.' :: name.rtakeWhile (· ≠ '.') = name
      rw [hinit] at happend ⊢
      rw [dropLast_concat]
      simpa using happend
  · exact ⟨append_nil _, .inl rfl⟩

/-! ### Parts of a name -/

theorem unsafePart_eq_false {p : Text} : unsafePart p = false ↔
    (p ≠ [] ∧ p ≠ ['.'] ∧ p ≠ ['.', '.'] ∧ foldsToSync p = false) ∧ (p.getLast? ≠ some '.' ∧ p.getLast? ≠ some ' ') ∧
      (∀ c ∈ p, isForbidden c = false) ∧ (p.takeWhile (· ≠ '.')).map Char.toUpper ∉ reserved := by
  simp only [unsafePart, Bool.or_eq_false_iff, beq_eq_false_iff_ne, contains_eq_mem, decide_eq_false_iff_not, any_eq_false,
    Bool.not_eq_true, ne_eq]
  tauto

/-- Twelve hexadecimal digits. -/
def IsTag (tag : Text) : Prop := tag.length = 12 ∧ ∀ c ∈ tag, c ∈ "0123456789abcdefABCDEF".toList

/-- What the two marks are. -/
structure IsMark (mark : Text) : Prop where
  dot : ∃ rest, mark = '.' :: rest
  long : 10 ≤ mark.length
  short : mark.length ≤ 16
  plain : ∀ c ∈ mark, isForbidden c = false ∧ c ≠ '/' ∧ c.toNat < 128

theorem forall_plain {text : Text} (h : text.all (fun c => !isForbidden c && c ≠ '/' && c.toNat < 128) = true) {c : Char}
    (hc : c ∈ text) : isForbidden c = false ∧ c ≠ '/' ∧ c.toNat < 128 := by
  have := all_eq_true.mp h c hc
  simp only [Bool.and_eq_true, Bool.not_eq_true', decide_eq_true_eq] at this
  exact ⟨this.1.1, this.1.2, this.2⟩

theorem conflictMark_isMark : IsMark conflictMark := ⟨⟨_, rfl⟩, by decide, by decide, fun _ hc => forall_plain rfl hc⟩

theorem localMark_isMark : IsMark localMark := ⟨⟨_, rfl⟩, by decide, by decide, fun _ hc => forall_plain rfl hc⟩

variable {tag : Text}

theorem tag_plain (h : IsTag tag) {c : Char} (hc : c ∈ tag) :
    isForbidden c = false ∧ c ≠ '/' ∧ c.toNat < 128 ∧ c ≠ '.' ∧ c ≠ ' ' := by
  have hdigit := h.2 c hc
  have hall : "0123456789abcdefABCDEF".toList.all (fun c => !isForbidden c && c ≠ '/' && c.toNat < 128) = true := rfl
  obtain ⟨hforbidden, hslash, hascii⟩ := forall_plain hall hdigit
  refine ⟨hforbidden, hslash, hascii, ?_, ?_⟩
  · rintro rfl
    exact absurd hdigit (by decide)
  · rintro rfl
    exact absurd hdigit (by decide)

variable {mark : Text}

theorem mem_conflictName {c : Char} (h : c ∈ conflictName mark tag name) : c ∈ name ∨ c ∈ mark ∨ c ∈ tag := by
  have hname := (stem_append_suffix name).1
  simp only [conflictName, mem_append] at h
  rcases h with h | h | h | h
  · exact .inl (hname ▸ mem_append_left _ (mem_of_mem_take h))
  · exact .inr (.inl h)
  · exact .inr (.inr h)
  · exact .inl (hname ▸ mem_append_right _ (mem_of_mem_take h))

theorem foldsToSync_length {p : Text} (h : foldsToSync p = true) : p.length = 5 := by
  unfold foldsToSync at h
  split at h
  · rfl
  · cases h

theorem reserved_length : ∀ name ∈ reserved, name.length ≤ 4 := by decide

theorem takeWhile_stem (name : Text) : (stemOf name).takeWhile (· ≠ '.') = name.takeWhile (· ≠ '.') := by
  obtain ⟨happend, hsuffix⟩ := stem_append_suffix name
  rcases hsuffix with hnil | ⟨ext, hext, -, -⟩
  · rw [hnil, append_nil] at happend
    rw [happend]
  · rw [hext] at happend
    conv_rhs => rw [← happend]
    rw [List.takeWhile_append]
    split
    · rename_i hall
      rw [takeWhile_cons_of_neg (by simp), append_nil]
      exact IsPrefix.eq_of_length (List.takeWhile_prefix _) hall
    · rfl

theorem takeWhile_take {p : Char → Bool} (text : Text) (n : ℕ) : (text.take n).takeWhile p = (text.takeWhile p).take n := by
  induction text generalizing n with
  | nil => simp
  | cons c text ih =>
    cases n with
    | zero => simp
    | succ n =>
      rw [take_succ_cons, takeWhile_cons, takeWhile_cons]
      split
      · rw [ih, take_succ_cons]
      · rw [take_nil]

/-- The part before the first dot is that of the name, or forty characters of it. -/
theorem first_part (hmark : IsMark mark) :
    (conflictName mark tag name).takeWhile (· ≠ '.') = (name.takeWhile (· ≠ '.')).take 40 := by
  obtain ⟨rest, rfl⟩ := hmark.dot
  rw [← takeWhile_stem name, ← takeWhile_take (stemOf name), conflictName, List.takeWhile_append]
  split
  · rename_i hall
    rw [cons_append, takeWhile_cons_of_neg (by simp), append_nil]
    exact (IsPrefix.eq_of_length (List.takeWhile_prefix _) hall).symm
  · rfl

/-- The suffix is cut behind a space. -/
def CutsAtSpace (name : Text) : Prop := (suffixOf name)[14]? = some ' '

/-- The name of a copy ends as the cut suffix does. -/
theorem last_conflictName (mark : Text) (htag : IsTag tag)
    (hname : name.getLast? ≠ some '.' ∧ name.getLast? ≠ some ' ') :
    (conflictName mark tag name).getLast? ≠ some '.' ∧
      ((conflictName mark tag name).getLast? = some ' ' ↔ CutsAtSpace name) := by
  obtain ⟨happend, hsuffix⟩ := stem_append_suffix name
  unfold CutsAtSpace conflictName
  rcases hsuffix with hnil | ⟨ext, hext, hne, hdot⟩
  · rw [hnil, take_nil, append_nil]
    obtain ⟨init, c, rfl⟩ : ∃ init c, tag = init ++ [c] := by
      rcases eq_nil_or_concat' tag with rfl | h
      · exact absurd htag.1 (by decide)
      · exact h
    obtain ⟨-, -, -, hdot, hspace⟩ := tag_plain htag (mem_append_right _ mem_cons_self)
    rw [← append_assoc, ← append_assoc, getLast?_concat]
    exact ⟨fun h => hdot (Option.some.inj h), fun h => absurd (Option.some.inj h) hspace, fun h => by simp at h⟩
  · rw [hext]
    have htake : ('.' :: ext).take 15 = '.' :: ext.take 14 := rfl
    have hlast : ((stemOf name).take 40 ++ (mark ++ (tag ++ ('.' :: ext.take 14)))).getLast? = (ext.take 14).getLast? := by
      have hne' : ext.take 14 ≠ [] := by simpa using hne
      rw [← append_assoc, ← append_assoc, getLast?_append_cons, getLast?_cons]
      cases hget : (ext.take 14).getLast? with
      | none => exact absurd (getLast?_eq_none_iff.mp hget) hne'
      | some c => rfl
    have hindex : ('.' :: ext)[14]? = ext[13]? := rfl
    rw [htake, hlast, hindex]
    by_cases hlong : 14 ≤ ext.length
    · have hget : (ext.take 14).getLast? = ext[13]? := by
        rw [getLast?_eq_getElem?, length_take, min_eq_left hlong, getElem?_take]
        rfl
      rw [hget]
      exact ⟨fun h => hdot (mem_of_getElem? h), Iff.rfl⟩
    · have htakeAll : ext.take 14 = ext := take_of_length_le (by omega)
      have hlastName : name.getLast? = ext.getLast? := by
        conv_lhs => rw [← happend, hext]
        rw [getLast?_append_cons, getLast?_cons]
        cases hget : ext.getLast? with
        | none => exact absurd (getLast?_eq_none_iff.mp hget) hne
        | some c => rfl
      rw [htakeAll, ← hlastName, getElem?_eq_none (by omega)]
      exact ⟨hname.1, fun h => absurd h hname.2, fun h => by cases h⟩

/-- Of a safe name the name of a copy is safe, unless it is cut behind a space. -/
theorem unsafePart_conflictName (hmark : IsMark mark) (htag : IsTag tag) (hname : unsafePart name = false) :
    unsafePart (conflictName mark tag name) = false ↔ ¬ CutsAtSpace name := by
  obtain ⟨-, hends, hplain, hreserved⟩ := unsafePart_eq_false.mp hname
  obtain ⟨hdot, hspace⟩ := last_conflictName mark htag hends
  have hlong : 22 ≤ (conflictName mark tag name).length := by
    have := hmark.long
    have := htag.1
    simp only [conflictName, length_append]
    omega
  have hne {short : Text} (hshort : short.length < 22) : conflictName mark tag name ≠ short := by
    rintro rfl
    omega
  rw [unsafePart_eq_false, hspace.symm.not]
  refine ⟨fun h => h.2.1.2, fun h => ⟨⟨hne (by decide), hne (by decide), hne (by decide), ?_⟩, ⟨hdot, h⟩, fun c hc => ?_, ?_⟩⟩
  · by_contra hsync
    have := foldsToSync_length (by simpa using hsync)
    omega
  · rcases mem_conflictName hc with hc | hc | hc
    · exact hplain c hc
    · exact (hmark.plain c hc).1
    · exact (tag_plain htag hc).1
  · rw [first_part hmark]
    by_cases hshort : (name.takeWhile (· ≠ '.')).length ≤ 40
    · rw [take_of_length_le hshort]
      exact hreserved
    · intro hmem
      have := reserved_length _ hmem
      rw [length_map, length_take] at this
      omega

/-! ### Whole paths -/

variable (u : Unicode)

theorem safePath_eq_ok {value : Text} : safePath u value = .ok value ↔
    (value ≠ [] ∧ value.length ≤ 240 ∧ value = u.normalize value) ∧ (value.splitOn '/').any unsafePart = false := by
  simp only [safePath, bind_eq_ok, require_eq_ok]
  constructor
  · rintro ⟨-, htext, -, hparts, -⟩
    exact ⟨htext, hparts⟩
  · rintro ⟨htext, hparts⟩
    exact ⟨(), htext, (), hparts, rfl⟩

theorem not_slash_mem_conflictName (hmark : IsMark mark) (htag : IsTag tag) (path : Text) :
    '/' ∉ conflictName mark tag (nameOf path) := by
  intro h
  rcases mem_conflictName h with h | h | h
  · exact not_slash_mem_nameOf path h
  · exact (hmark.plain _ h).2.1 rfl
  · exact (tag_plain htag h).2.1 rfl

theorem length_conflictName (mark : Text) (htag : IsTag tag) (name : Text) : (conflictName mark tag name).length =
    min 40 (stemOf name).length + (mark.length + (12 + min 15 (suffixOf name).length)) := by
  simp only [conflictName, length_append, length_take, htag.1]

/-- The path of a copy is in normal form: both cuts are made in front of a dot. -/
theorem normalize_copy {path : Text} (hmark : IsMark mark) (htag : IsTag tag) (h : u.normalize path = path) :
    u.normalize (parentOf path ++ conflictName mark tag (nameOf path)) =
      parentOf path ++ conflictName mark tag (nameOf path) := by
  obtain ⟨hname, hsuffix⟩ := stem_append_suffix (nameOf path)
  have hwhole := parentOf_append_nameOf path
  have hfront : u.normalize (parentOf path ++ (stemOf (nameOf path)).take 40) =
      parentOf path ++ (stemOf (nameOf path)).take 40 := by
    refine u.substring [] _ ((stemOf (nameOf path)).drop 40 ++ suffixOf (nameOf path)) ?_
    rw [nil_append, append_assoc, ← append_assoc (List.take ..), take_append_drop, hname, hwhole, h]
  have hback : u.normalize ((suffixOf (nameOf path)).take 15) = (suffixOf (nameOf path)).take 15 := by
    refine u.substring (parentOf path ++ stemOf (nameOf path)) _ ((suffixOf (nameOf path)).drop 15) ?_
    rw [take_append_drop, append_assoc, hname, hwhole, h]
  have hascii : ∀ c ∈ mark ++ tag, c.toNat < 128 := fun c hc =>
    (mem_append.mp hc).elim (fun hc => (hmark.plain c hc).2.2) (fun hc => (tag_plain htag hc).2.2.1)
  have hmiddle : u.normalize (mark ++ tag ++ (suffixOf (nameOf path)).take 15) =
      mark ++ tag ++ (suffixOf (nameOf path)).take 15 := by
    rcases hsuffix with hnil | ⟨ext, hext, -, -⟩
    · rw [hnil, take_nil, append_nil]
      exact u.ascii _ hascii
    · rw [hext, take_succ_cons] at hback ⊢
      exact u.boundary _ '.' _ (by decide) (u.ascii _ hascii) hback
  obtain ⟨rest, rfl⟩ := hmark.dot
  rw [append_assoc, cons_append] at hmiddle
  have := u.boundary _ '.' _ (by decide) hfront hmiddle
  simpa only [conflictName, append_assoc, cons_append] using this

/-- A copy next to its file is accepted if it is not cut behind a space and not too long. -/
theorem safePath_copy {path : Text} (hmark : IsMark mark) (htag : IsTag tag) (h : safePath u path = .ok path) :
    safePath u (parentOf path ++ conflictName mark tag (nameOf path)) =
        .ok (parentOf path ++ conflictName mark tag (nameOf path)) ↔
      ¬ CutsAtSpace (nameOf path) ∧ (parentOf path ++ conflictName mark tag (nameOf path)).length ≤ 240 := by
  obtain ⟨⟨-, -, hnormal⟩, hparts⟩ := (safePath_eq_ok u).mp h
  obtain ⟨dirs, hdirs⟩ := splitOn_parent path
  rw [← parentOf_append_nameOf path, hdirs _ (not_slash_mem_nameOf path), any_append, Bool.or_eq_false_iff] at hparts
  have hname : unsafePart (nameOf path) = false := by simpa using hparts.2
  rw [safePath_eq_ok, hdirs _ (not_slash_mem_conflictName hmark htag path), any_append, hparts.1, Bool.false_or,
    any_cons, any_nil, Bool.or_false, unsafePart_conflictName hmark htag hname]
  have hne : parentOf path ++ conflictName mark tag (nameOf path) ≠ [] := by
    intro hnil
    have := congrArg List.length hnil
    rw [length_append, length_conflictName mark htag, length_nil] at this
    omega
  exact ⟨fun hall => ⟨hall.2, hall.1.2.1⟩, fun hall =>
    ⟨⟨hne, hall.2, (normalize_copy u hmark htag hnormal.symm).symm⟩, hall.1⟩⟩

/-- The fallback of a commit: the name alone. -/
theorem safePath_name {path : Text} (hmark : IsMark mark) (htag : IsTag tag) (h : safePath u path = .ok path) :
    safePath u (conflictName mark tag (nameOf path)) = .ok (conflictName mark tag (nameOf path)) ↔
      ¬ CutsAtSpace (nameOf path) := by
  obtain ⟨⟨-, -, hnormal⟩, hparts⟩ := (safePath_eq_ok u).mp h
  obtain ⟨dirs, hdirs⟩ := splitOn_parent path
  rw [← parentOf_append_nameOf path, hdirs _ (not_slash_mem_nameOf path), any_append, Bool.or_eq_false_iff] at hparts
  have hname : unsafePart (nameOf path) = false := by simpa using hparts.2
  rw [safePath_eq_ok, splitOn_eq_singleton (not_slash_mem_conflictName hmark htag path), any_cons, any_nil,
    Bool.or_false, unsafePart_conflictName hmark htag hname]
  have hlength := length_conflictName mark htag (nameOf path)
  have hshort := hmark.short
  have hcopy : u.normalize (conflictName mark tag (nameOf path)) = conflictName mark tag (nameOf path) := by
    refine u.substring (parentOf path) _ [] ?_
    rw [append_nil]
    exact normalize_copy u hmark htag hnormal.symm
  refine ⟨fun hall => hall.2, fun hall => ⟨⟨fun hnil => ?_, by omega, hcopy.symm⟩, hall⟩⟩
  rw [hnil, length_nil] at hlength
  omega

/-- There is room for the longer mark behind the parent. -/
def LeavesRoom (path : Text) : Prop :=
  (parentOf path).length + min 40 (stemOf (nameOf path)).length + 28 + min 15 (suffixOf (nameOf path)).length ≤ 240

instance (name : Text) : Decidable (CutsAtSpace name) := inferInstanceAs (Decidable (_ = _))

instance (path : Text) : Decidable (LeavesRoom path) := inferInstanceAs (Decidable (_ ≤ _))

/-- Of an accepted path a commit's conflict path is accepted exactly if the suffix is not cut behind a space; the path of a
preserved file exactly if besides there is room for it. -/
theorem conflict_names (path tag : Text) (hpath : safePath u path = .ok path) (htag : IsTag tag) :
    (safePath u (commitPath path tag) = .ok (commitPath path tag) ↔ ¬ CutsAtSpace (nameOf path)) ∧
      (safePath u (preservePath path tag) = .ok (preservePath path tag) ↔
        ¬ CutsAtSpace (nameOf path) ∧ LeavesRoom path) := by
  constructor
  · have hslash := not_slash_mem_conflictName conflictMark_isMark htag path
    have hname := nameOf_append path hslash
    unfold commitPath
    simp only [hname]
    split
    · exact safePath_name u conflictMark_isMark htag hpath
    · rename_i hroom
      rw [safePath_copy u conflictMark_isMark htag hpath]
      exact and_iff_left (by omega)
  · have hlength : (parentOf path ++ conflictName localMark tag (nameOf path)).length ≤ 240 ↔ LeavesRoom path := by
      rw [length_append, length_conflictName localMark htag, LeavesRoom, show localMark.length = 16 from rfl]
      omega
    rw [preservePath, safePath_copy u localMark_isMark htag hpath, hlength]

/-- Text without combining characters. -/
def plainText : Unicode := ⟨id, fun _ _ => rfl, fun _ _ _ _ => rfl, fun _ _ _ _ _ _ => rfl⟩

theorem conflict_names_plain :
    (safePath plainText (commitPath "docs/plan.txt".toList "0123456789ab".toList) =
        .ok (commitPath "docs/plan.txt".toList "0123456789ab".toList) ↔ ¬ CutsAtSpace "plan.txt".toList) ∧
      (safePath plainText (preservePath "docs/plan.txt".toList "0123456789ab".toList) =
        .ok (preservePath "docs/plan.txt".toList "0123456789ab".toList) ↔
          ¬ CutsAtSpace "plan.txt".toList ∧ LeavesRoom "docs/plan.txt".toList) :=
  conflict_names plainText "docs/plan.txt".toList "0123456789ab".toList rfl
    ⟨rfl, fun c hc => of_decide_eq_true (all_eq_true.mp
      (rfl : "0123456789ab".toList.all (· ∈ "0123456789abcdefABCDEF".toList) = true) c hc)⟩

set_option maxRecDepth 8000 in
/-- Behind a suffix with a space in its fifteenth place neither path is accepted; in a directory whose name leaves too little
room a commit's is and the preserved file's is not. -/
theorem conflict_names_rejected :
    (safePath plainText "x.aaaaaaaaaaaaa b".toList = .ok "x.aaaaaaaaaaaaa b".toList ∧
      safePath plainText (commitPath "x.aaaaaaaaaaaaa b".toList "0123456789ab".toList) =
        .error (.valueError "unsafe relative path") ∧
      safePath plainText (preservePath "x.aaaaaaaaaaaaa b".toList "0123456789ab".toList) =
        .error (.valueError "unsafe relative path")) ∧
    (safePath plainText (List.replicate 220 'd' ++ "/a".toList) = .ok (List.replicate 220 'd' ++ "/a".toList) ∧
      safePath plainText (preservePath (List.replicate 220 'd' ++ "/a".toList) "0123456789ab".toList) =
        .error (.valueError "invalid relative path")) :=
  ⟨⟨rfl, rfl, rfl⟩, rfl, rfl⟩

end SystemDesign.FileSync
