import Mathlib
import SystemDesign.Lib.Wildcard

/-!
Rules of `robots.txt` (`robots.py`).

A rule fits a path exactly when the path can be written as its pattern with each `*` replaced (`matchesRule_iff`), and
the longest rule that fits decides, an allowing one among equals (`robots_rules`). What the standard library does with a
URL and with the groups of the file is a parameter.
-/

namespace SystemDesign.WebCrawler

open List hiding not_lt
open Wildcard

abbrev Text := List Char

/-! ### The matcher -/

/-- `_matches_rule` -/
def matchesRule (pattern path : Text) (anchored : Bool) : Bool :=
  match pattern.splitOn '*' with
  | [] => true
  | first :: rest =>
    if ¬ first.isPrefixOf path then false
    else
      match rest.getLast? with
      | none => !anchored || path.length == pattern.length
      | some last =>
        match findAll path rest.dropLast first.length with
        | none => false
        | some position =>
          if anchored then last.isSuffixOf path && decide (position + last.length ≤ path.length)
          else (find path last position).isSome

/-! ### The rules of a file -/

/-- `RuleLine` -/
structure Rule where
  path : Text
  allowance : Bool

/-- `Entry` -/
structure Entry where
  useragents : List String
  rulelines : List Rule

/-- `RobotFileParser` after `parse` -/
structure Parser where
  entries : List Entry
  defaultEntry : Option Entry

/-- What is taken from `urllib`. -/
structure Urllib where
  unquote : Text → Text
  /-- `quote(path, safe="/%?=:;@!&'()+,-._~")` -/
  quote : Text → Text
  /-- `urlunparse(("", "", parsed.path or "/", parsed.params, parsed.query, ""))` of the parsed URL -/
  pathOf : String → Text
  appliesTo : Entry → String → Bool

def isHex (c : Char) : Bool := c ∈ "0123456789abcdefABCDEF".toList

/-- The character that two hexadecimal digits write. -/
def hexChar (high low : Char) : Char :=
  let value (c : Char) : ℕ := if c.isDigit then c.toNat - '0'.toNat else c.toUpper.toNat - 'A'.toNat + 10
  Char.ofNat (16 * value high + value low)

/-- `normalize_escape` -/
def normalizeEscape (high low : Char) : Text :=
  let character := hexChar high low
  if character.isAlphanum || character ∈ "-._~".toList then [character] else ['%', high.toUpper, low.toUpper]

/-- `re.sub(r"%([0-9a-fA-F]{2})", normalize_escape, encoded)` -/
def normalizeEscapes : Text → Text
  | '%' :: high :: low :: rest =>
    if isHex high && isHex low then normalizeEscape high low ++ normalizeEscapes rest
    else '%' :: normalizeEscapes (high :: low :: rest)
  | c :: rest => c :: normalizeEscapes rest
  | [] => []
termination_by text => text.length

variable (urllib : Urllib)

/-- `_canonical_path` -/
def canonicalPath (path : Text) : Text := normalizeEscapes (urllib.quote path)

/-- The pattern of a rule, and whether it is anchored. -/
def Rule.pattern (rule : Rule) : Text × Bool :=
  let pattern := urllib.unquote rule.path
  let anchored := pattern.getLast? = some '$'
  let pattern := if anchored then pattern.dropLast else pattern
  ((['*'] : Text).intercalate ((pattern.splitOn '*').map (canonicalPath urllib)), anchored)

def Rule.matches (rule : Rule) (path : Text) : Bool :=
  matchesRule (rule.pattern urllib).1 path (rule.pattern urllib).2

/-- `len(pattern.replace("*", ""))` -/
def Rule.length (rule : Rule) : ℕ := ((rule.pattern urllib).1.filter (· ≠ '*')).length

/-- `max` of two pairs; the first among equals. -/
def maxPair (best candidate : ℤ × Bool) : ℤ × Bool :=
  if best.1 < candidate.1 ∨ best.1 = candidate.1 ∧ best.2 < candidate.2 then candidate else best

/-- One rule of the loop of `_allows`. -/
def Rule.improve (path : Text) (best : ℤ × Bool) (rule : Rule) : ℤ × Bool :=
  if rule.matches urllib path then maxPair best (rule.length urllib, rule.allowance) else best

/-- The decision of `_allows` over a list of rules. -/
def decides (rules : List Rule) (path : Text) : Bool := (rules.foldl (Rule.improve urllib path) (-1, true)).2

/-- `_allows` -/
def allows (userAgent : String) (parser : Parser) (url : String) : Bool :=
  match (parser.entries.find? (urllib.appliesTo · userAgent)).or parser.defaultEntry with
  | none => true
  | some entry =>
    let path := canonicalPath urllib (urllib.pathOf url)
    decides urllib entry.rulelines (if path.isEmpty then ['/'] else path)

/-! ### What the matcher finds -/

/-- The matcher misses no way to replace the wildcards. -/
theorem matchesRule_iff (pattern path : Text) (anchored : Bool) :
    matchesRule pattern path anchored = true ↔ Fits '*' pattern path anchored := by
  obtain ⟨first, rest, hsplit⟩ := exists_cons_of_ne_nil (splitOn_ne_nil '*' pattern)
  rw [fits_iff_gapped '*' pattern path anchored hsplit, matchesRule, hsplit]
  dsimp only
  by_cases hfirst : first.isPrefixOf path
  · rw [if_neg (not_not.mpr hfirst)]
    obtain ⟨tail, rfl⟩ := isPrefixOf_iff_prefix.mp hfirst
    have htail : (∃ tail', first ++ tail = first ++ tail' ∧ Gapped anchored rest tail') ↔ Gapped anchored rest tail :=
      ⟨fun ⟨_, heq, h⟩ => (append_cancel_left heq).symm ▸ h, fun h => ⟨tail, rfl, h⟩⟩
    have hdrop : (first ++ tail).drop first.length = tail := drop_left
    have hle : first.length ≤ (first ++ tail).length := by simp
    rw [htail]
    rcases eq_nil_or_concat' rest with rfl | ⟨parts, last, rfl⟩
    · -- no wildcard: the first part is the pattern
      have hpattern : pattern = first := by
        have hjoin : (['*'] : Text).intercalate (pattern.splitOn '*') = pattern := intercalate_splitOn _
        rw [hsplit] at hjoin
        simpa using hjoin.symm
      subst hpattern
      cases anchored <;> simp [Gapped]
    · rw [getLast?_concat, dropLast_concat]
      dsimp only
      cases anchored with
      | false =>
        have hall : (findAll (first ++ tail) (parts ++ [last]) first.length).isSome ↔
            Gapped false (parts ++ [last]) ((first ++ tail).drop first.length) := findAll_isSome_iff hle
        rw [hdrop] at hall
        rw [← hall]
        have hconcat (parts : List Text) (position : ℕ) : findAll (first ++ tail) (parts ++ [last]) position
            = (findAll (first ++ tail) parts position).bind fun e =>
              (find (first ++ tail) last e).map (· + last.length) := by
          induction parts generalizing position with
          | nil => rw [nil_append, findAll, findAll, Option.bind_some]; cases find (first ++ tail) last position <;> rfl
          | cons part parts ih => simp only [cons_append, findAll, Option.bind_assoc, ih]
        rw [hconcat]
        cases findAll (first ++ tail) parts first.length <;> simp
      | true =>
        have hall : (∃ e, findAll (first ++ tail) parts first.length = some e ∧ last <:+ first ++ tail ∧
              e + last.length ≤ (first ++ tail).length) ↔
            Gapped true (parts ++ [last]) ((first ++ tail).drop first.length) := findAll_last_iff hle
        rw [hdrop] at hall
        rw [← hall]
        cases findAll (first ++ tail) parts first.length with
        | none => simp
        | some e => simp
  · rw [if_pos hfirst]
    refine ⟨fun h => (by cases h), ?_⟩
    rintro ⟨tail, heq, -⟩
    exact absurd (List.isPrefixOf_iff_prefix.mpr ⟨tail, heq.symm⟩) hfirst

/-! ### What the loop decides -/

/-- The best of the rules so far: nothing fits, or it is the longest that fits, an allowing one among equals. -/
structure Best (path : Text) (seen : List Rule) (best : ℤ × Bool) : Prop where
  none : (∀ rule ∈ seen, rule.matches urllib path = false) → best = (-1, true)
  some : ∀ rule ∈ seen, rule.matches urllib path = true →
    (rule.length urllib < best.1 ∨ rule.length urllib = best.1 ∧ rule.allowance ≤ best.2) ∧
      ∃ winner ∈ seen, winner.matches urllib path = true ∧ best = ((winner.length urllib : ℤ), winner.allowance)

variable {urllib}

theorem Best.improve {path : Text} {seen : List Rule} {best : ℤ × Bool} (h : Best urllib path seen best) (rule : Rule) :
    Best urllib path (seen ++ [rule]) (rule.improve urllib path best) := by
  unfold Rule.improve
  by_cases hrule : rule.matches urllib path = true
  · rw [if_pos hrule, maxPair]
    refine ⟨fun hnone => ?_, fun other hother hmatches => ?_⟩
    · have := hnone rule (mem_append_right _ mem_cons_self)
      rw [hrule] at this
      cases this
    · split
      · -- the new rule is better than all before
        rename_i hbetter
        refine ⟨?_, rule, mem_append_right _ mem_cons_self, hrule, rfl⟩
        rcases mem_append.mp hother with hseen | hnew
        · have hle := (h.some other hseen hmatches).1
          rcases hle with hlt | ⟨heq, hallow⟩
          · rcases hbetter with hbetter | ⟨hbetter, -⟩ <;> left <;> simp only at * <;> omega
          · rcases hbetter with hbetter | ⟨hbetter, hmore⟩
            · left
              simp only at *
              omega
            · exact .inr ⟨heq.trans hbetter, hallow.trans hmore.le⟩
        · rw [mem_singleton.mp hnew]
          exact .inr ⟨rfl, le_rfl⟩
      · -- the best stays, unless there was none: no length is below -1
        rename_i hworse
        push Not at hworse
        have hseen : ∃ old ∈ seen, old.matches urllib path = true := by
          by_contra hno
          push Not at hno
          have hbest := h.none fun old hold => by simpa using hno old hold
          rw [hbest] at hworse
          have := hworse.1
          simp only at this
          omega
        obtain ⟨old, hold, holdmatches⟩ := hseen
        obtain ⟨-, winner, hwinner, hfits, heq⟩ := h.some old hold holdmatches
        refine ⟨?_, winner, mem_append_left _ hwinner, hfits, heq⟩
        rcases mem_append.mp hother with hseen | hnew
        · exact (h.some other hseen hmatches).1
        · rw [mem_singleton.mp hnew]
          rcases lt_or_eq_of_le hworse.1 with hlt | heq
          · exact .inl hlt
          · exact .inr ⟨heq, not_lt.mp (by simpa using hworse.2 heq.symm)⟩
  · rw [if_neg hrule]
    refine ⟨fun hnone => h.none fun old hold => hnone old (mem_append_left _ hold), fun other hother hmatches => ?_⟩
    rcases mem_append.mp hother with hseen | hnew
    · obtain ⟨hle, winner, hwinner, hfits⟩ := h.some other hseen hmatches
      exact ⟨hle, winner, mem_append_left _ hwinner, hfits⟩
    · rw [mem_singleton.mp hnew] at hmatches
      exact absurd hmatches hrule

theorem best_foldl (urllib : Urllib) (path : Text) (rules : List Rule) :
    Best urllib path rules (rules.foldl (Rule.improve urllib path) (-1, true)) := by
  induction rules using List.reverseRecOn with
  | nil => exact ⟨fun _ => rfl, fun _ h => absurd h not_mem_nil⟩
  | append_singleton rules rule ih =>
    rw [foldl_append]
    exact ih.improve rule

theorem decides_iff (rules : List Rule) (path : Text) : decides urllib rules path = true ↔
    (∀ rule ∈ rules, rule.matches urllib path = false) ∨ ∃ rule ∈ rules, rule.matches urllib path = true ∧
      rule.allowance = true ∧ ∀ other ∈ rules, other.matches urllib path = true →
        other.length urllib ≤ rule.length urllib := by
  have hbest := best_foldl urllib path rules
  unfold decides
  constructor
  · intro hdecides
    by_cases hnone : ∀ rule ∈ rules, rule.matches urllib path = false
    · exact .inl hnone
    · push Not at hnone
      obtain ⟨rule, hrule, hmatches⟩ := hnone
      obtain ⟨-, winner, hwinner, hfits, heq⟩ := hbest.some rule hrule (by simpa using hmatches)
      rw [heq] at hdecides
      refine .inr ⟨winner, hwinner, hfits, hdecides, fun other hother hothermatches => ?_⟩
      have hle := (hbest.some other hother hothermatches).1
      rw [heq] at hle
      simp only at hle
      omega
  · rintro (hnone | ⟨rule, hrule, hmatches, hallowance, hlongest⟩)
    · rw [hbest.none hnone]
    · obtain ⟨hle, winner, hwinner, hfits, heq⟩ := hbest.some rule hrule hmatches
      have hlong := hlongest winner hwinner hfits
      rw [heq] at hle ⊢
      rcases hle with hlt | ⟨-, hallow⟩
      · simp only at hlt
        omega
      · rw [hallowance] at hallow
        exact top_le_iff.mp hallow

/-- What fits, what is decided, and that the order of the rules does not matter. -/
theorem robots_rules : (∀ (pattern path : Text) (anchored : Bool),
      matchesRule pattern path anchored = true ↔ Fits '*' pattern path anchored) ∧
    ∀ (urllib : Urllib) (rules : List Rule) (path : Text), (decides urllib rules path = true ↔
      (∀ rule ∈ rules, rule.matches urllib path = false) ∨ ∃ rule ∈ rules, rule.matches urllib path = true ∧
        rule.allowance = true ∧ ∀ other ∈ rules, other.matches urllib path = true →
          other.length urllib ≤ rule.length urllib) ∧
      ∀ rules', rules.Perm rules' → decides urllib rules path = decides urllib rules' path := by
  refine ⟨matchesRule_iff, fun urllib rules path => ⟨decides_iff rules path, fun rules' hperm => ?_⟩⟩
  rw [Bool.eq_iff_iff, decides_iff, decides_iff]
  simp only [hperm.mem_iff]

end SystemDesign.WebCrawler
