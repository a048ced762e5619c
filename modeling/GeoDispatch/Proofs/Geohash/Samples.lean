import GeoDispatch.Proofs.Geohash.Cover

/-!
# What the samples of a box find

`Geohash.placeOf` is the row or column of the hashes of points with a given coordinate.  Along
each axis it never falls, and it grows by one at most on the way to a coordinate at most one
cell away (`placeOf_add_le`).  So where neighbouring samples of a box are at most one cell
apart, the rows and columns of the samples leave none of the box out (`exists_sample_place`),
and as the samples are a grid, they meet every hash that the box meets (`coverBox_of_box`).
-/

namespace GeoDispatch

namespace BoundingBox

/-- The four corners of a box. -/
def corners (b : BoundingBox ℚ) : List (Point ℚ) :=
  [⟨b.minLat, b.minLng⟩, ⟨b.minLat, b.maxLng⟩, ⟨b.maxLat, b.minLng⟩, ⟨b.maxLat, b.maxLng⟩]

theorem contains_iff_along (b : BoundingBox ℚ) (p : Point ℚ) :
    b.contains p ↔ ∀ a, b.low a ≤ p.along a ∧ p.along a ≤ b.high a := by
  simp only [contains, Bool.and_eq_true, decide_eq_true_eq]
  constructor
  · rintro ⟨⟨⟨hsouth, hnorth⟩, hwest⟩, heast⟩ a
    cases a with
    | lng => exact ⟨hwest, heast⟩
    | lat => exact ⟨hsouth, hnorth⟩
  · intro hall
    exact ⟨⟨⟨(hall .lat).1, (hall .lat).2⟩, (hall .lng).1⟩, (hall .lng).2⟩

end BoundingBox

namespace Geohash

/-! ## Rows and columns of coordinates -/

/-- The number of rows or columns of the hashes of a precision. -/
def countAt (n : Nat) (a : Axis) : Nat :=
  2 ^ if a = .lng then (5 * clampPrecision n + 1) / 2 else 5 * clampPrecision n / 2

@[simp] theorem countAt_lng (n : Nat) :
    countAt n .lng = 2 ^ ((5 * clampPrecision n + 1) / 2) := rfl

@[simp] theorem countAt_lat (n : Nat) : countAt n .lat = 2 ^ (5 * clampPrecision n / 2) := rfl

/-- The height or width of the boxes of the hashes of a precision. -/
def cellSize (n : Nat) (a : Axis) : ℚ := 2 * a.reach / countAt n a

theorem count_of_length_eq {k : Geohash} {n : Nat} (hk : k.length = clampPrecision n)
    (a : Axis) : k.count a = countAt n a := by
  cases a with
  | lng => rw [count_lng, hk, countAt_lng]
  | lat => rw [count_lat, hk, countAt_lat]

/-- All boxes of a precision have this size. -/
theorem size_bounds_eq_cellSize {k : Geohash} {n : Nat} (hk : k.length = clampPrecision n)
    (a : Axis) : (bounds ℚ k).high a - (bounds ℚ k).low a = cellSize n a := by
  rw [size_bounds, count_of_length_eq hk, cellSize]

theorem countAt_pos (n : Nat) (a : Axis) : (0 : ℚ) < countAt n a := by
  exact_mod_cast Nat.two_pow_pos _

/-- A coordinate brought into the world. -/
def clampAlong (a : Axis) (q : ℚ) : ℚ := max (-a.reach) (min q a.reach)

theorem clampAlong_mono (a : Axis) {q r : ℚ} (h : q ≤ r) : clampAlong a q ≤ clampAlong a r :=
  max_le_max_left _ (min_le_min_right _ h)

/-- The way into the world makes no step longer. -/
theorem clampAlong_add_le (a : Axis) (q : ℚ) {d : ℚ} (pos : 0 ≤ d) :
    clampAlong a (q + d) ≤ clampAlong a q + d := by
  have hreach := reach_pos a
  rw [clampAlong, clampAlong]
  rcases le_total q a.reach with hq | hq
  · rw [min_eq_left hq]
    exact max_le (by linarith [le_max_left (-a.reach) q])
      ((min_le_left _ _).trans (by linarith [le_max_right (-a.reach) q]))
  · rw [min_eq_right hq, min_eq_right (by linarith)]
    linarith

/-- The row or column of the hashes of points with a coordinate. -/
def placeOf (n : Nat) (a : Axis) (q : ℚ) : ℤ :=
  min ⌊(clampAlong a q + a.reach) / (2 * a.reach) * countAt n a⌋ (countAt n a - 1)

theorem place_encode_eq_placeOf (p : Point ℚ) (n : Nat) (a : Axis) :
    ((encode p n).place a : ℤ) = placeOf n a (p.along a) := by
  rw [place_encode, count_of_length_eq (length_encode p n), p.along_clamped, placeOf, clampAlong]

theorem placeOf_mono (n : Nat) (a : Axis) {q r : ℚ} (h : q ≤ r) :
    placeOf n a q ≤ placeOf n a r := by
  have hreach := reach_pos a
  have hclamp := clampAlong_mono a h
  refine min_le_min_right _ (Int.floor_le_floor ?_)
  gcongr

/-- A coordinate at most one cell further on is at most one row or column further on. -/
theorem placeOf_add_le (n : Nat) (a : Axis) (q : ℚ) {d : ℚ} (pos : 0 ≤ d)
    (fine : d ≤ cellSize n a) : placeOf n a (q + d) ≤ placeOf n a q + 1 := by
  have hreach := reach_pos a
  have hclamp := clampAlong_add_le a q pos
  have hstep : d / (2 * a.reach) * countAt n a ≤ 1 := by
    rw [cellSize, le_div_iff₀ (countAt_pos n a)] at fine
    rw [div_mul_eq_mul_div]
    exact (div_le_one (by linarith)).mpr fine
  have hfloor : ⌊(clampAlong a (q + d) + a.reach) / (2 * a.reach) * countAt n a⌋ ≤
      ⌊(clampAlong a q + a.reach) / (2 * a.reach) * countAt n a⌋ + 1 := by
    rw [← Int.floor_add_one]
    refine Int.floor_le_floor ?_
    calc (clampAlong a (q + d) + a.reach) / (2 * a.reach) * countAt n a
      _ ≤ (clampAlong a q + d + a.reach) / (2 * a.reach) * countAt n a := by gcongr
      _ = (clampAlong a q + a.reach) / (2 * a.reach) * countAt n a +
            d / (2 * a.reach) * countAt n a := by ring
      _ ≤ (clampAlong a q + a.reach) / (2 * a.reach) * countAt n a + 1 := by gcongr
  rw [placeOf, placeOf]
  omega

/-- A sequence of integers that grows by one at most in each step meets every integer between
two of its entries. -/
theorem exists_eq_of_le_add_one {f : Nat → ℤ} (step : ∀ i, f (i + 1) ≤ f i + 1) {r : ℤ}
    (first : f 0 ≤ r) {n : Nat} (last : r ≤ f n) : ∃ i ≤ n, f i = r := by
  induction n with
  | zero => exact ⟨0, Nat.le_refl 0, le_antisymm first last⟩
  | succ n ih =>
    rcases le_or_gt r (f n) with hle | hgt
    · obtain ⟨i, hi, heq⟩ := ih hle
      exact ⟨i, by omega, heq⟩
    · have := step n
      exact ⟨n + 1, Nat.le_refl _, by omega⟩

/-! ## Samples -/

/-- The coordinate of a sample along an axis. -/
def sampleAlong (b : BoundingBox ℚ) (a : Axis) (i : Nat) : ℚ :=
  b.low a + (b.high a - b.low a) / 9 * i

theorem along_sample (b : BoundingBox ℚ) (i j : Nat) (a : Axis) :
    (sample b i j).along a = sampleAlong b a (if a = .lat then i else j) := by
  cases a <;> rfl

theorem sampleAlong_zero (b : BoundingBox ℚ) (a : Axis) : sampleAlong b a 0 = b.low a := by
  rw [sampleAlong, Nat.cast_zero, mul_zero, add_zero]

theorem sampleAlong_nine (b : BoundingBox ℚ) (a : Axis) : sampleAlong b a 9 = b.high a := by
  rw [sampleAlong]
  push_cast
  ring

theorem mem_coverBox {b : BoundingBox ℚ} {n : Nat} {h : Geohash} :
    h ∈ coverBox b n ↔ ∃ i ≤ 9, ∃ j ≤ 9, encode (sample b i j) n = h := by
  rw [coverBox, mem_sorted, samples]
  simp only [List.mem_flatMap, List.mem_map, List.mem_range, Nat.lt_succ_iff]

theorem corner_mem_coverBox {b : BoundingBox ℚ} {p : Point ℚ} (hp : p ∈ b.corners) (n : Nat) :
    encode p n ∈ coverBox b n := by
  have corner {i j : Nat} (hi : i ≤ 9) (hj : j ≤ 9) {p : Point ℚ}
      (hlat : sampleAlong b .lat i = p.lat) (hlng : sampleAlong b .lng j = p.lng) :
      encode p n ∈ coverBox b n := by
    have heq : sample b i j = p := by
      obtain ⟨lat, lng⟩ := p
      exact congrArg₂ Point.mk hlat hlng
    exact mem_coverBox.mpr ⟨i, hi, j, hj, heq ▸ rfl⟩
  simp only [BoundingBox.corners, List.mem_cons, List.not_mem_nil, or_false] at hp
  rcases hp with rfl | rfl | rfl | rfl
  · exact corner (by omega) (by omega) (sampleAlong_zero b .lat) (sampleAlong_zero b .lng)
  · exact corner (by omega) (by omega) (sampleAlong_zero b .lat) (sampleAlong_nine b .lng)
  · exact corner (by omega) (by omega) (sampleAlong_nine b .lat) (sampleAlong_zero b .lng)
  · exact corner (by omega) (by omega) (sampleAlong_nine b .lat) (sampleAlong_nine b .lng)

section

variable {b : BoundingBox ℚ} {a : Axis} (ordered : b.low a ≤ b.high a)
include ordered

theorem sampleAlong_mem {i : Nat} (hi : i ≤ 9) :
    b.low a ≤ sampleAlong b a i ∧ sampleAlong b a i ≤ b.high a := by
  have hi' : (i : ℚ) ≤ 9 := by exact_mod_cast hi
  have hstep : 0 ≤ (b.high a - b.low a) / 9 := by linarith
  have hlow : 0 ≤ (b.high a - b.low a) / 9 * i := by positivity
  have hhigh : (b.high a - b.low a) / 9 * i ≤ (b.high a - b.low a) / 9 * 9 := by gcongr
  rw [sampleAlong]
  constructor <;> linarith

/-- **Samples at most one cell apart lie in every row or column of the box.** -/
theorem exists_sample_place {n : Nat} (fine : (b.high a - b.low a) / 9 ≤ cellSize n a) {q : ℚ}
    (low : b.low a ≤ q) (high : q ≤ b.high a) :
    ∃ i ≤ 9, placeOf n a (sampleAlong b a i) = placeOf n a q := by
  refine exists_eq_of_le_add_one (f := fun i => placeOf n a (sampleAlong b a i))
    (fun i => ?_) ?_ ?_
  · have hnext : sampleAlong b a (i + 1) = sampleAlong b a i + (b.high a - b.low a) / 9 := by
      rw [sampleAlong, sampleAlong]
      push_cast
      ring
    simp only [hnext]
    exact placeOf_add_le n a _ (by linarith) fine
  · simp only [sampleAlong_zero]
    exact placeOf_mono n a low
  · simp only [sampleAlong_nine]
    exact placeOf_mono n a high

end

section

variable {b : BoundingBox ℚ} (ordered : ∀ a, b.low a ≤ b.high a) {n : Nat} {h : Geohash}
include ordered

theorem exists_point_of_mem_coverBox (hmem : h ∈ coverBox b n) :
    ∃ p, b.contains p ∧ h = encode p n := by
  obtain ⟨i, hi, j, hj, rfl⟩ := mem_coverBox.mp hmem
  refine ⟨sample b i j, (b.contains_iff_along _).mpr fun a => ?_, rfl⟩
  rw [along_sample]
  exact sampleAlong_mem (ordered a) (by split <;> assumption)

theorem mem_coverBox_of_contains (fine : ∀ a, (b.high a - b.low a) / 9 ≤ cellSize n a)
    {p : Point ℚ} (hp : b.contains p) : encode p n ∈ coverBox b n := by
  have inside := (b.contains_iff_along p).mp hp
  -- the row is met by some sample, the column by some other, and both by the sample of the grid
  -- in the row of the one and the column of the other
  obtain ⟨i, hi, hrow⟩ :=
    exists_sample_place (ordered .lat) (fine .lat) (inside .lat).1 (inside .lat).2
  obtain ⟨j, hj, hcolumn⟩ :=
    exists_sample_place (ordered .lng) (fine .lng) (inside .lng).1 (inside .lng).2
  have heq : encode (sample b i j) n = encode p n := by
    refine eq_of_place_eq (isAdmissible_encode _ _)
      ((length_encode _ n).trans (length_encode _ n).symm) fun a => ?_
    have hplace : ((encode (sample b i j) n).place a : ℤ) = (encode p n).place a := by
      rw [place_encode_eq_placeOf, place_encode_eq_placeOf, along_sample]
      cases a with
      | lng => exact hcolumn
      | lat => exact hrow
    exact_mod_cast hplace
  exact mem_coverBox.mpr ⟨i, hi, j, hj, heq⟩

end

/-- **The cover of a box.**  Each hash in it is that of a point of the box, the texts increase
strictly, and the corners are covered.  Where a ninth of the box is at most as high and as wide
as a cell of the precision, the cover misses no hash of a point of the box. -/
theorem coverBox_of_box {b : BoundingBox ℚ} (hlat : b.minLat ≤ b.maxLat)
    (hlng : b.minLng ≤ b.maxLng) (n : Nat) :
    (∀ h ∈ coverBox b n, ∃ p, b.contains p ∧ h = encode p n) ∧
      ((coverBox b n).map text).Pairwise (· < ·) ∧
      (∀ p ∈ b.corners, encode p n ∈ coverBox b n) ∧
      ∀ k : Geohash, k.length = clampPrecision n →
        (b.maxLat - b.minLat) / 9 ≤ (bounds ℚ k).maxLat - (bounds ℚ k).minLat →
        (b.maxLng - b.minLng) / 9 ≤ (bounds ℚ k).maxLng - (bounds ℚ k).minLng →
        ∀ h, h ∈ coverBox b n ↔ ∃ p, b.contains p ∧ h = encode p n := by
  have ordered : ∀ a, b.low a ≤ b.high a := fun a => by cases a <;> assumption
  refine ⟨fun h hmem => exists_point_of_mem_coverBox ordered hmem, pairwise_sorted _,
    fun p hp => corner_mem_coverBox hp n, fun k hk high wide h => ?_⟩
  have fine : ∀ a, (b.high a - b.low a) / 9 ≤ cellSize n a := fun a => by
    rw [← size_bounds_eq_cellSize hk a]
    cases a <;> assumption
  constructor
  · exact exists_point_of_mem_coverBox ordered
  · rintro ⟨p, hp, rfl⟩
    exact mem_coverBox_of_contains ordered fine hp

/-- Three degrees by four are covered by hashes of three digits, also where no sample lies: none
of the samples has the longitude 3. -/
theorem three_by_four_degrees_covered :
    let b : BoundingBox ℚ := ⟨0, 3, 0, 4⟩
    b.minLat ≤ b.maxLat ∧ b.minLng ≤ b.maxLng ∧
      (∀ i ≤ 9, ∀ j ≤ 9, (sample b i j).lng ≠ 3) ∧
      encode (⟨2, 3⟩ : Point ℚ) 3 ∈ coverBox b 3 := by
  intro b
  have hlat : b.minLat ≤ b.maxLat := by norm_num [b]
  have hlng : b.minLng ≤ b.maxLng := by norm_num [b]
  let k : Geohash := encode (⟨0, 0⟩ : Point ℚ) 3
  have hk : k.length = clampPrecision 3 := length_encode _ _
  have height : (bounds ℚ k).maxLat - (bounds ℚ k).minLat = 180 / 128 :=
    (size_bounds_eq_cellSize hk .lat).trans
      (by norm_num [cellSize, clampPrecision, minPrecision, maxPrecision, Axis.reach])
  have width : (bounds ℚ k).maxLng - (bounds ℚ k).minLng = 360 / 256 :=
    (size_bounds_eq_cellSize hk .lng).trans
      (by norm_num [cellSize, clampPrecision, minPrecision, maxPrecision, Axis.reach])
  refine ⟨hlat, hlng, fun i hi j hj heq => ?_, ?_⟩
  · have hj' : (4 : ℚ) / 9 * j = 3 := by
      have : (0 : ℚ) + (4 - 0) / 9 * j = 3 := heq
      linarith
    have : (4 * j : ℚ) = 27 := by linarith
    have : 4 * j = 27 := by exact_mod_cast this
    omega
  · refine ((coverBox_of_box hlat hlng 3).2.2.2 k hk ?_ ?_ _).mpr ⟨⟨2, 3⟩, ?_, rfl⟩
    · rw [height]
      norm_num [b]
    · rw [width]
      norm_num [b]
    · norm_num [b, BoundingBox.contains]

end Geohash

end GeoDispatch
