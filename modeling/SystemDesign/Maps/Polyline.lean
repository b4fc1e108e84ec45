import SystemDesign.Lib.Varint
import SystemDesign.Maps.Telemetry

/-!
Encoded polylines (`navigation.py`).

The string of a geometry is cut into two numbers a point in one way, and their differences add up to the rounded
coordinates (`polyline_lossless`). Coordinates are exact.
-/

namespace SystemDesign.Maps

open Varint List

/-- A point on the grid of `1e-5` degrees: latitude and longitude. -/
abbrev Grid := ℤ × ℤ

/-- `math.floor(scaled + 0.5) if scaled >= 0 else math.ceil(scaled - 0.5)` -/
def roundScaled (value : ℚ) : ℤ :=
  let scaled := value * 100000
  if 0 ≤ scaled then ⌊scaled + 1 / 2⌋ else ⌈scaled - 1 / 2⌉

/-- The chunks of one value after the previous one. -/
def encodeValue (previous current : ℤ) : List ℕ := varint (zigzag (current - previous))

/-- The loop of `encode_polyline` from some previous point; a point of the geometry is a longitude and a latitude. -/
def encodeFrom : Grid → List (ℚ × ℚ) → Py (List ℕ)
  | _, [] => .ok []
  | previous, (longitude, latitude) :: rest => do
    let (latitude, longitude) ← coordinates (some latitude) (some longitude)
    let current := (roundScaled latitude, roundScaled longitude)
    let tail ← encodeFrom current rest
    return encodeValue previous.1 current.1 ++ (encodeValue previous.2 current.2 ++ tail)

/-- `chr(chunk + 63)` -/
def chunkChar (chunk : ℕ) : Char := Char.ofNat (chunk + 63)

def encodePolyline (geometry : List (ℚ × ℚ)) : Py String := do
  let chunks ← encodeFrom (0, 0) geometry
  return String.ofList (chunks.map chunkChar)

/-! ### Reading back -/

/-- The point of a geometry on the grid. -/
def gridOf (point : ℚ × ℚ) : Grid := (roundScaled point.2, roundScaled point.1)

/-- The differences of latitudes and longitudes in turn, added up. -/
def accumulate : Grid → List ℤ → List Grid
  | previous, latitude :: longitude :: rest =>
    let current := (previous.1 + latitude, previous.2 + longitude)
    current :: accumulate current rest
  | _, _ => []

/-- The chunk that a character writes. -/
def chunkOf (c : Char) : ℕ := c.toNat - 63

/-- The difference that the characters of one number write. -/
def deltaOf (piece : List Char) : ℤ := unzigzag (value (piece.map chunkOf))

/-- Characters that write one number. -/
def IsNumber (piece : List Char) : Prop := IsVarint (piece.map chunkOf)

theorem chunkOf_chunkChar {chunk : ℕ} (h : chunk < 64) : chunkOf (chunkChar chunk) = chunk := by
  have hvalid : (chunk + 63).isValidChar := .inl (by omega)
  unfold chunkOf chunkChar
  rw [Char.ofNat, dif_pos hvalid]
  show chunk + 63 - 63 = chunk
  omega

theorem map_chunkOf {chunks : List ℕ} (h : ∀ chunk ∈ chunks, chunk < 64) :
    (chunks.map chunkChar).map chunkOf = chunks := by
  rw [map_map]
  exact (map_congr_left fun chunk hchunk => chunkOf_chunkChar (h chunk hchunk)).trans (List.map_id _)

theorem chunkChar_range {chunk : ℕ} (h : chunk < 64) : '?' ≤ chunkChar chunk ∧ chunkChar chunk ≤ '~' := by
  have hvalid : (chunk + 63).isValidChar := .inl (by omega)
  have hval : (chunkChar chunk).val.toNat = chunk + 63 := by
    unfold chunkChar
    rw [Char.ofNat, dif_pos hvalid]
    rfl
  constructor
  · show (63 : ℕ) ≤ (chunkChar chunk).val.toNat
    omega
  · show (chunkChar chunk).val.toNat ≤ (126 : ℕ)
    omega

theorem coordinates_eq_ok {latitude longitude : ℚ} {point : ℚ × ℚ}
    (h : coordinates (some latitude) (some longitude) = .ok point) : point = (latitude, longitude) := by
  replace h := of_check h
  exact (Except.ok.inj h).symm

/-- What is written are two numbers a point, and their differences add up to the points. -/
theorem encodeFrom_spec {previous : Grid} {geometry : List (ℚ × ℚ)} {chunks : List ℕ}
    (h : encodeFrom previous geometry = .ok chunks) : ∃ numbers : List (List ℕ), numbers.flatten = chunks ∧
      numbers.length = 2 * geometry.length ∧ (∀ number ∈ numbers, IsVarint number ∧ ∀ chunk ∈ number, chunk < 64) ∧
      accumulate previous (numbers.map fun number => unzigzag (value number)) = geometry.map gridOf := by
  induction geometry generalizing previous chunks with
  | nil =>
    cases h
    exact ⟨[], rfl, rfl, fun _ h => absurd h not_mem_nil, rfl⟩
  | cons point geometry ih =>
    obtain ⟨longitude, latitude⟩ := point
    obtain ⟨point, hpoint, h⟩ := of_bind h
    obtain rfl := coordinates_eq_ok hpoint
    obtain ⟨tail, htail, h⟩ := of_bind h
    obtain ⟨numbers, rfl, hlength, hnumbers, haccumulate⟩ := ih htail
    obtain ⟨hvarint₁, hsmall₁, hvalue₁⟩ := varint_spec (zigzag (roundScaled latitude - previous.1))
    obtain ⟨hvarint₂, hsmall₂, hvalue₂⟩ := varint_spec (zigzag (roundScaled longitude - previous.2))
    refine ⟨encodeValue previous.1 (roundScaled latitude) :: encodeValue previous.2 (roundScaled longitude) :: numbers,
      Except.ok.inj h, by rw [length_cons, length_cons, hlength, length_cons]; omega, ?_, ?_⟩
    · intro number hnumber
      rcases mem_cons.mp hnumber with rfl | hnumber
      · exact ⟨hvarint₁, hsmall₁⟩
      · rcases mem_cons.mp hnumber with rfl | hnumber
        · exact ⟨hvarint₂, hsmall₂⟩
        · exact hnumbers number hnumber
    · rw [map_cons, map_cons, accumulate]
      unfold encodeValue
      rw [hvalue₁, hvalue₂, unzigzag_zigzag, unzigzag_zigzag, add_sub_cancel, add_sub_cancel, haccumulate]
      rfl

theorem encodePolyline_spec {geometry : List (ℚ × ℚ)} {points : String} (h : encodePolyline geometry = .ok points) :
    (∀ c ∈ points.toList, '?' ≤ c ∧ c ≤ '~') ∧ ∃ pieces : List (List Char), pieces.flatten = points.toList ∧
      (∀ piece ∈ pieces, IsNumber piece) ∧ pieces.length = 2 * geometry.length ∧
      accumulate (0, 0) (pieces.map deltaOf) = geometry.map gridOf := by
  obtain ⟨chunks, hchunks, h⟩ := of_bind h
  obtain ⟨numbers, rfl, hlength, hnumbers, haccumulate⟩ := encodeFrom_spec hchunks
  obtain rfl := Except.ok.inj h
  rw [String.toList_ofList]
  refine ⟨fun c hc => ?_, numbers.map fun number => number.map chunkChar, ?_, ?_, ?_, ?_⟩
  · obtain ⟨chunk, hchunk, rfl⟩ := mem_map.mp hc
    obtain ⟨number, hnumber, hmem⟩ := mem_flatten.mp hchunk
    exact chunkChar_range ((hnumbers number hnumber).2 chunk hmem)
  · rw [← map_flatten]
  · intro piece hpiece
    obtain ⟨number, hnumber, rfl⟩ := mem_map.mp hpiece
    obtain ⟨hvarint, hsmall⟩ := hnumbers number hnumber
    rw [IsNumber, map_chunkOf hsmall]
    exact hvarint
  · rw [length_map, hlength]
  · rw [map_map, ← haccumulate]
    congr 1
    refine map_congr_left fun number hnumber => ?_
    rw [Function.comp_apply, deltaOf, map_chunkOf (hnumbers number hnumber).2]

/-- A string is cut into numbers in one way. -/
theorem pieces_unique {points : List Char} {pieces pieces' : List (List Char)}
    (h : pieces.flatten = points) (h' : pieces'.flatten = points) (hnumbers : ∀ piece ∈ pieces, IsNumber piece)
    (hnumbers' : ∀ piece ∈ pieces', IsNumber piece) : pieces = pieces' := by
  have hchunks : pieces.map (List.map chunkOf) = pieces'.map (List.map chunkOf) := by
    refine flatten_injective (fun chunks hmem => ?_) (fun chunks hmem => ?_) ?_
    · obtain ⟨piece, hpiece, rfl⟩ := mem_map.mp hmem
      exact hnumbers piece hpiece
    · obtain ⟨piece, hpiece, rfl⟩ := mem_map.mp hmem
      exact hnumbers' piece hpiece
    · rw [← map_flatten, ← map_flatten, h, h']
  have hlengths : pieces.map List.length = pieces'.map List.length := by
    have := congrArg (List.map List.length) hchunks
    simpa [map_map, Function.comp_def] using this
  exact eq_iff_flatten_eq.mpr ⟨h.trans h'.symm, hlengths⟩

example : encodePolyline [(-1202 / 10, 385 / 10), (-12095 / 100, 407 / 10), (-126453 / 1000, 43252 / 1000)]
    = .ok "_p~iF~ps|U_ulLnnqC_mqNvxq`@" := by decide +kernel

end SystemDesign.Maps
