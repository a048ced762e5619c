import GeoDispatch.Geohash.Cover
import GeoDispatch.Proofs.Geohash.Adjacent
import GeoDispatch.Proofs.Geohash.Encoding
import GeoDispatch.Proofs.Geohash.Order
import Mathlib.Algebra.Order.Floor.Ring
import Mathlib.Data.Rat.Floor

/-!
# What a cover of a circle covers

A hash and its neighbours are the hashes at most one row and one column away, the columns
counted around the world (`Geohash.mem_block_iff`), so the cover of a circle is the block of
hashes at most one or two rows and columns away from the hash of the centre
(`mem_coverCircle_iff`).  How many rows a circle meets depends on its radius and on the height
of a row, and the number of layers on neither: along its meridian a circle is covered exactly
when its northernmost and its southernmost point lie in the rows of the block
(`meridian_covered_iff`).
-/

namespace GeoDispatch

/-- A point is valid between the poles and between the two sides of the antimeridian. -/
theorem Point.isValid_iff (p : Point ℚ) :
    p.isValid ↔ (-90 ≤ p.lat ∧ p.lat ≤ 90) ∧ -180 ≤ p.lng ∧ p.lng ≤ 180 := by
  simp only [isValid, Bool.and_eq_true, decide_eq_true_eq, num_rat, Nat.cast_ofNat, and_assoc]

namespace Geohash

open Scalar

/-! ## Hashes at a place -/

/-- A number of digits that an encoded hash can have. -/
def IsAdmissible (h : Geohash) : Prop := h.length = clampPrecision h.length

theorem IsAdmissible.of_length_eq {h k : Geohash} (adm : h.IsAdmissible)
    (hlen : k.length = h.length) : k.IsAdmissible := by
  rw [IsAdmissible, hlen]
  exact adm

/-- Rows and columns tell hashes of one length apart. -/
theorem eq_of_place_eq {h k : Geohash} (adm : h.IsAdmissible) (hlen : h.length = k.length)
    (hplace : ∀ a, h.place a = k.place a) : h = k := by
  have hbounds : bounds ℚ h = bounds ℚ k := by
    refine BoundingBox.ext_of_ends (fun a => ?_) fun a => ?_
    · rw [low_bounds, low_bounds, hplace, count_eq_of_length_eq hlen]
    · rw [high_bounds, high_bounds, hplace, count_eq_of_length_eq hlen]
  have hcenter := encode_center_bounds adm
  rw [hbounds, hlen, encode_center_bounds (adm.of_length_eq hlen.symm)] at hcenter
  exact hcenter.symm

/-- A hash lies at most so many rows from another one, and at most so many columns, counted
around the world. -/
structure IsAround (h : Geohash) (layers : ℤ) (k : Geohash) : Prop where
  length_eq : k.length = h.length
  rows : |(k.place .lat : ℤ) - h.place .lat| ≤ layers
  columns : ∃ δ : ℤ, |δ| ≤ layers ∧ (k.place .lng : ℤ) = (h.place .lng + δ) % h.count .lng

theorem place_lng_emod (h : Geohash) :
    ((h.place .lng : ℤ) + 0) % h.count .lng = h.place .lng := by
  rw [add_zero]
  exact Int.emod_eq_of_lt (Int.natCast_nonneg _) (by exact_mod_cast h.place_lt_count .lng)

/-- Some heading goes up and right as wanted. -/
theorem exists_heading {r δ : ℤ} (hr : |r| ≤ 1) (hδ : |δ| ≤ 1) (hne : ¬ (r = 0 ∧ δ = 0)) :
    ∃ c : Compass, c.northing = r ∧ c.easting = δ := by
  rw [abs_le] at hr hδ
  have hr' : r = -1 ∨ r = 0 ∨ r = 1 := by omega
  have hδ' : δ = -1 ∨ δ = 0 ∨ δ = 1 := by omega
  rcases hr' with rfl | rfl | rfl <;> rcases hδ' with rfl | rfl | rfl
  · exact ⟨.southWest, rfl, rfl⟩
  · exact ⟨.south, rfl, rfl⟩
  · exact ⟨.southEast, rfl, rfl⟩
  · exact ⟨.west, rfl, rfl⟩
  · exact absurd ⟨rfl, rfl⟩ hne
  · exact ⟨.east, rfl, rfl⟩
  · exact ⟨.northWest, rfl, rfl⟩
  · exact ⟨.north, rfl, rfl⟩
  · exact ⟨.northEast, rfl, rfl⟩

theorem mem_block {h k : Geohash} : k ∈ h.block ↔ k = h ∨ ∃ c, k = h.adjacent c := by
  rw [block, List.mem_cons, neighbors, List.mem_map]
  refine or_congr_right ⟨fun ⟨c, _, hc⟩ => ⟨c, hc.symm⟩, fun ⟨c, hc⟩ => ⟨c, ?_, hc.symm⟩⟩
  cases c <;> decide

/-- In a row that exists, the block around a hash has every column at most one away. -/
theorem exists_mem_block (h : Geohash) {r δ : ℤ} (hr : |r| ≤ 1) (hδ : |δ| ≤ 1)
    (hlow : 0 ≤ h.place .lat + r) (hhigh : h.place .lat + r < h.count .lat) :
    ∃ k ∈ h.block, k.length = h.length ∧ (k.place .lat : ℤ) = h.place .lat + r ∧
      (k.place .lng : ℤ) = (h.place .lng + δ) % h.count .lng := by
  by_cases hstay : r = 0 ∧ δ = 0
  · obtain ⟨rfl, rfl⟩ := hstay
    exact ⟨h, mem_block.mpr (.inl rfl), rfl, (add_zero _).symm, h.place_lng_emod.symm⟩
  · obtain ⟨c, hnorth, heast⟩ := exists_heading hr hδ hstay
    obtain ⟨hlen, hlat, hlng⟩ := h.place_adjacent c
    refine ⟨h.adjacent c, mem_block.mpr (.inr ⟨c, rfl⟩), hlen, ?_, heast ▸ hlng⟩
    -- the row exists, so that no pole stops the step
    rw [hlat, if_neg, hnorth]
    rw [hnorth]
    omega

theorem isAround_of_mem_block {h k : Geohash} (hmem : k ∈ h.block) : h.IsAround 1 k := by
  rcases mem_block.mp hmem with rfl | ⟨c, rfl⟩
  · exact ⟨rfl, by simp, 0, by simp, k.place_lng_emod.symm⟩
  · obtain ⟨hlen, hlat, hlng⟩ := h.place_adjacent c
    refine ⟨hlen, ?_, c.easting, by cases c <;> decide, hlng⟩
    rw [hlat, add_sub_cancel_left]
    split
    · simp
    · cases c <;> decide

/-- **A hash and its neighbours are the hashes at most one row and one column away.** -/
theorem mem_block_iff {h k : Geohash} (adm : h.IsAdmissible) :
    k ∈ h.block ↔ h.IsAround 1 k := by
  refine ⟨isAround_of_mem_block, ?_⟩
  rintro ⟨hlen, hrows, δ, hδ, hlng⟩
  have hcount := count_eq_of_length_eq hlen .lat
  have hlt := k.place_lt_count .lat
  obtain ⟨k', hmem, hlen', hlat', hlng'⟩ := h.exists_mem_block hrows hδ (by omega) (by omega)
  have heq : k' = k := by
    refine eq_of_place_eq (adm.of_length_eq hlen') (hlen'.trans hlen.symm) fun a => ?_
    cases a with
    | lng => exact_mod_cast hlng'.trans hlng.symm
    | lat => omega
  exact heq ▸ hmem

/-- Two layers around a hash are one layer around each hash of the first layer. -/
theorem isAround_two_iff {h k : Geohash} :
    h.IsAround 2 k ↔ ∃ m ∈ h.block, m.IsAround 1 k := by
  constructor
  · rintro ⟨hlen, hrows, δ, hδ, hlng⟩
    have hcount := count_eq_of_length_eq hlen .lat
    have hk := k.place_lt_count .lat
    have hh := h.place_lt_count .lat
    rw [abs_le] at hrows hδ
    -- half of the way, along each axis
    obtain ⟨r, hr, hr'⟩ : ∃ r : ℤ, |r| ≤ 1 ∧ |(k.place .lat : ℤ) - (h.place .lat + r)| ≤ 1 ∧
        0 ≤ h.place .lat + r ∧ h.place .lat + r < h.count .lat := by
      refine ⟨max (-1) (min (k.place .lat - h.place .lat) 1), abs_le.mpr ?_, abs_le.mpr ?_, ?_⟩
      all_goals omega
    obtain ⟨ε, hε, hε'⟩ : ∃ ε : ℤ, |ε| ≤ 1 ∧ |δ - ε| ≤ 1 := by
      refine ⟨max (-1) (min δ 1), abs_le.mpr ?_, abs_le.mpr ?_⟩
      all_goals omega
    obtain ⟨m, hmem, hlen', hlat', hlng'⟩ := h.exists_mem_block hr hε hr'.2.1 hr'.2.2
    refine ⟨m, hmem, hlen.trans hlen'.symm, hlat' ▸ hr'.1, δ - ε, hε', ?_⟩
    rw [hlng, hlng', count_eq_of_length_eq hlen', Int.emod_add_emod]
    congr 1
    ring
  · rintro ⟨m, hmem, hk⟩
    have hm := isAround_of_mem_block hmem
    obtain ⟨δ, hδ, hlng⟩ := hk.columns
    obtain ⟨ε, hε, hlng'⟩ := hm.columns
    refine ⟨hk.length_eq.trans hm.length_eq, ?_, ε + δ, ?_, ?_⟩
    · calc |(k.place .lat : ℤ) - h.place .lat|
        _ ≤ |(k.place .lat : ℤ) - m.place .lat| + |(m.place .lat : ℤ) - h.place .lat| :=
          abs_sub_le _ _ _
        _ ≤ 2 := by linarith [hk.rows, hm.rows]
    · calc |ε + δ|
        _ ≤ |ε| + |δ| := abs_add_le _ _
        _ ≤ 2 := by linarith
    · rw [hlng, hlng', count_eq_of_length_eq hm.length_eq, Int.emod_add_emod, add_assoc]

/-! ## Covers of circles -/

section

variable {α : Type} [Scalar α]

/-- The number of layers of neighbours in the cover of a circle. -/
def layers (radius : α) : ℤ := if wideRadius < radius then 2 else 1

theorem isAdmissible_encode (p : Point α) (n : Nat) : (encode p n).IsAdmissible := by
  rw [IsAdmissible, length_encode, clampPrecision, clampPrecision, minPrecision, maxPrecision]
  omega

/-- **The cover of a circle is the block of hashes around that of the centre.** -/
theorem mem_coverCircle_iff (center : Point α) (radius : α) (k : Geohash) :
    k ∈ coverCircle center radius ↔
      (encode center (precisionForRadius radius)).IsAround (layers radius) k := by
  have adm := isAdmissible_encode center (precisionForRadius radius)
  have block_iff {m : Geohash} (hm : m ∈ (encode center (precisionForRadius radius)).block) :
      k ∈ m.block ↔ m.IsAround 1 k :=
    mem_block_iff (adm.of_length_eq (isAround_of_mem_block hm).length_eq)
  rw [coverCircle, mem_sorted, layers]
  split
  · rw [List.mem_append, List.mem_flatMap, isAround_two_iff]
    constructor
    · rintro (⟨m, hm, hk⟩ | hk)
      · exact ⟨m, hm, (block_iff hm).mp hk⟩
      · exact ⟨_, mem_block.mpr (.inl rfl), isAround_of_mem_block hk⟩
    · rintro ⟨m, hm, hk⟩
      exact .inl ⟨m, hm, (block_iff hm).mpr hk⟩
  · exact mem_block_iff adm

end

/-! ## Rows of latitudes -/

theorem count_lng (h : Geohash) : h.count .lng = 2 ^ ((5 * h.length + 1) / 2) := by
  rw [count, axisBits, Axis.length_bits, length_bits]
  rfl

theorem count_lat (h : Geohash) : h.count .lat = 2 ^ (5 * h.length / 2) := by
  rw [count, axisBits, Axis.length_bits, length_bits]
  rfl

/-- The row or column of the hash of a point: the distance of the point from the lower end of
the world, in sizes of a row or column, and the last one at the upper end. -/
theorem place_encode (p : Point ℚ) (n : Nat) (a : Axis) :
    ((encode p n).place a : ℤ) =
      min ⌊(p.clamped.along a + a.reach) / (2 * a.reach) * (encode p n).count a⌋
        ((encode p n).count a - 1) := by
  obtain ⟨hlow, hend⟩ := (owns_bounds_iff (length_encode p n) p).mpr rfl a
  rw [low_bounds] at hlow
  rw [high_eq_reach_iff, high_bounds] at hend
  have hreach := reach_pos a
  have hlt := (encode p n).place_lt_count a
  generalize (encode p n).place a = i, (encode p n).count a = rows at *
  generalize p.clamped.along a = q at *
  have hrows : (0 : ℚ) < rows := by exact_mod_cast (show 0 < rows by omega)
  set x : ℚ := (q + a.reach) / (2 * a.reach) * rows with hx
  have hq : q = -a.reach + 2 * a.reach * (x / rows) := by
    rw [hx]
    field_simp
    ring
  have hfrom : (i : ℚ) ≤ x := by
    have hdiv : (i : ℚ) / rows ≤ x / rows := by
      rw [hq] at hlow
      have := add_le_add_iff_left (-a.reach) |>.mp hlow
      exact le_of_mul_le_mul_left this (by linarith)
    exact (div_le_div_iff_of_pos_right hrows).mp hdiv
  rcases hend with hlt' | ⟨-, hlast⟩
  · have hto : x < (i : ℤ) + 1 := by
      have hdiv : x / rows < ((i : ℚ) + 1) / rows := by
        rw [hq] at hlt'
        have := add_lt_add_iff_left (-a.reach) |>.mp hlt'
        exact lt_of_mul_lt_mul_left this (by linarith)
      exact_mod_cast (div_lt_div_iff_of_pos_right hrows).mp hdiv
    have hfloor : ⌊x⌋ = i := Int.floor_eq_iff.mpr ⟨by exact_mod_cast hfrom, hto⟩
    rw [hfloor, min_eq_left (by omega)]
  · have hfloor : (rows : ℤ) - 1 ≤ ⌊x⌋ := by
      refine Int.le_floor.mpr (le_trans (le_of_eq ?_) hfrom)
      push_cast [← hlast]
      ring
    rw [min_eq_right hfloor]
    omega

/-- The row of a latitude among so many rows from pole to pole; a border belongs to the row
above it, and the north pole to the last row. -/
def rowOf (rows : Nat) (lat : ℚ) : ℤ := min ⌊(lat + 90) / 180 * rows⌋ (rows - 1)

theorem rowOf_mono (rows : Nat) {a b : ℚ} (h : a ≤ b) : rowOf rows a ≤ rowOf rows b := by
  refine min_le_min_right _ (Int.floor_le_floor ?_)
  gcongr

/-- The row of the hash of a point between the poles is the row of its latitude. -/
theorem place_lat_encode {p : Point ℚ} (low : -90 ≤ p.lat) (high : p.lat ≤ 90) (n : Nat) :
    ((encode p n).place .lat : ℤ) = rowOf (2 ^ (5 * clampPrecision n / 2)) p.lat := by
  have hclamped : p.clamped.along .lat = p.lat := by
    rw [p.along_clamped]
    exact (congrArg _ (min_eq_left high)).trans (max_eq_right low)
  rw [place_encode, hclamped, count_lat, length_encode, rowOf]
  norm_num [Axis.reach]

/-- Points of one longitude have hashes in one column. -/
theorem place_lng_encode_congr {p q : Point ℚ} (h : p.lng = q.lng) (n : Nat) :
    (encode p n).place .lng = (encode q n).place .lng := by
  have hcount : (encode p n).count .lng = (encode q n).count .lng :=
    count_eq_of_length_eq ((length_encode p n).trans (length_encode q n).symm) .lng
  have hclamped : p.clamped.along .lng = q.clamped.along .lng :=
    congrArg (fun l : ℚ => max (-180) (min l 180)) h
  have hplace : ((encode p n).place .lng : ℤ) = (encode q n).place .lng := by
    rw [place_encode, place_encode, hcount, hclamped]
  exact_mod_cast hplace

/-! ## Circles along their meridian -/

theorem clampPrecision_precisionForRadius {α : Type} [Scalar α] (radius : α) :
    clampPrecision (precisionForRadius radius) = precisionForRadius radius := by
  have hrange : 1 ≤ precisionForRadius radius ∧ precisionForRadius radius ≤ 9 := by
    unfold precisionForRadius
    repeat' split
    all_goals omega
  rw [clampPrecision, minPrecision, maxPrecision]
  omega

/-- A point on the meridian of the centre is covered when its row is among those of the
layers around the centre. -/
theorem encode_mem_coverCircle_iff {center p : Point ℚ} (hc : center.isValid) (hp : p.isValid)
    (meridian : p.lng = center.lng) (radius : ℚ) :
    encode p (precisionForRadius radius) ∈ coverCircle center radius ↔
      |rowOf (2 ^ (5 * precisionForRadius radius / 2)) p.lat -
        rowOf (2 ^ (5 * precisionForRadius radius / 2)) center.lat| ≤ layers radius := by
  have hcolumn := place_lng_encode_congr meridian (precisionForRadius radius)
  have hrow {q : Point ℚ} (hq : q.isValid) :
      ((encode q (precisionForRadius radius)).place .lat : ℤ) =
        rowOf (2 ^ (5 * precisionForRadius radius / 2)) q.lat := by
    obtain ⟨⟨low, high⟩, -⟩ := q.isValid_iff.mp hq
    rw [place_lat_encode low high, clampPrecision_precisionForRadius]
  rw [mem_coverCircle_iff, ← hrow hp, ← hrow hc]
  constructor
  · exact IsAround.rows
  · intro hrows
    refine ⟨(length_encode p _).trans (length_encode center _).symm, hrows, 0, ?_, ?_⟩
    · rw [abs_zero, layers]
      split <;> decide
    · rw [place_lng_emod, hcolumn]

/-- The latitudes within a distance of a latitude lie in the rows near its own exactly when the
northernmost and the southernmost of them do. -/
theorem forall_rowOf_near_iff {lat : ℚ} (low : -90 ≤ lat) (high : lat ≤ 90) (rows : Nat)
    (reach : ℚ) {layers : ℤ} (hlayers : 0 ≤ layers) :
    (∀ y, -90 ≤ y → y ≤ 90 → |y - lat| ≤ reach → |rowOf rows y - rowOf rows lat| ≤ layers) ↔
      rowOf rows (min (lat + reach) 90) ≤ rowOf rows lat + layers ∧
        rowOf rows lat - layers ≤ rowOf rows (max (lat - reach) (-90)) := by
  constructor
  · intro near
    rcases le_or_gt 0 reach with hreach | hreach
    · -- both ends are such latitudes
      have hnorth_ge : lat ≤ min (lat + reach) 90 := le_min (by linarith) high
      have hsouth_le : max (lat - reach) (-90) ≤ lat := max_le (by linarith) low
      have hnorth := near _ (le_trans low hnorth_ge) (min_le_right _ _) (by
        rw [abs_of_nonneg (by linarith)]
        linarith [min_le_left (lat + reach) 90])
      have hsouth := near _ (le_max_right _ _) (le_trans hsouth_le high) (by
        rw [abs_of_nonpos (by linarith)]
        linarith [le_max_left (lat - reach) (-90)])
      rw [abs_le] at hnorth hsouth
      exact ⟨by linarith, by linarith⟩
    · have hnorth := rowOf_mono rows ((min_le_left (lat + reach) 90).trans
        (show _ ≤ lat by linarith))
      have hsouth := rowOf_mono rows ((show lat ≤ _ by linarith).trans
        (le_max_left (lat - reach) (-90)))
      exact ⟨by linarith, by linarith⟩
  · rintro ⟨hnorth, hsouth⟩ y hlow hhigh hnear
    rw [abs_le] at hnear
    have habove := rowOf_mono rows (le_min (show y ≤ lat + reach by linarith) hhigh)
    have hbelow := rowOf_mono rows (max_le (show lat - reach ≤ y by linarith) hlow)
    exact abs_le.mpr ⟨by linarith, by linarith⟩

/-- **Along its meridian a circle is covered exactly when its two ends are.**  The points of
the meridian of a centre at most `radius` kilometres away, at 112 kilometres to the degree, all
have their hashes in the cover of the circle exactly when the northernmost and the southernmost
of them lie at most as many rows from the centre as the cover has layers. -/
theorem meridian_covered_iff {center : Point ℚ} (valid : center.isValid) (radius : ℚ) :
    let n := precisionForRadius radius
    let row := rowOf (2 ^ (5 * n / 2))
    (∀ p : Point ℚ, p.isValid → p.lng = center.lng → |p.lat - center.lat| * 112 ≤ radius →
      encode p n ∈ coverCircle center radius) ↔
    row (min (center.lat + radius / 112) 90) ≤ row center.lat + layers radius ∧
      row center.lat - layers radius ≤ row (max (center.lat - radius / 112) (-90)) := by
  intro n row
  obtain ⟨⟨low, high⟩, west, east⟩ := center.isValid_iff.mp valid
  have hlayers : 0 ≤ layers radius := by
    rw [layers]
    split <;> decide
  rw [← forall_rowOf_near_iff low high _ _ hlayers]
  constructor
  · intro covered y hlow hhigh hnear
    have hp : Point.isValid (⟨y, center.lng⟩ : Point ℚ) :=
      (Point.isValid_iff _).mpr ⟨⟨hlow, hhigh⟩, west, east⟩
    have hmem := covered ⟨y, center.lng⟩ hp rfl ((le_div_iff₀ (by norm_num)).mp hnear)
    exact (encode_mem_coverCircle_iff valid hp rfl radius).mp hmem
  · intro near p hp meridian hdist
    obtain ⟨⟨hlow, hhigh⟩, -⟩ := p.isValid_iff.mp hp
    exact (encode_mem_coverCircle_iff valid hp meridian radius).mpr
      (near p.lat hlow hhigh ((le_div_iff₀ (by norm_num)).mpr hdist))

/-- A circle of four metres around the origin is covered along its meridian, by hashes of nine
letters. -/
theorem small_circle_covered :
    let center : Point ℚ := ⟨0, 0⟩
    let radius : ℚ := 1 / 250
    center.isValid ∧ precisionForRadius radius = 9 ∧
      ∀ p : Point ℚ, p.isValid → p.lng = center.lng → |p.lat - center.lat| * 112 ≤ radius →
        encode p (precisionForRadius radius) ∈ coverCircle center radius := by
  intro center radius
  have hc : center.isValid := (Point.isValid_iff _).mpr (by norm_num [center])
  have hn : precisionForRadius radius = 9 := by
    norm_num [precisionForRadius, radius]
  refine ⟨hc, hn, (meridian_covered_iff hc radius).mpr ?_⟩
  rw [hn]
  norm_num [center, radius, layers, wideRadius, rowOf]

/-- A circle of 1210 metres around the origin reaches two rows to the south, and its cover only
one: the cover lacks the hash of a point 1209.6 metres away. -/
theorem point_in_circle_not_covered :
    let center : Point ℚ := ⟨0, 0⟩
    let p : Point ℚ := ⟨-(27 / 2500), 0⟩
    let radius : ℚ := 121 / 100
    center.isValid ∧ p.isValid ∧ p.lng = center.lng ∧
      |p.lat - center.lat| * 112 ≤ radius ∧
      encode p (precisionForRadius radius) ∉ coverCircle center radius := by
  intro center p radius
  have hc : center.isValid := (Point.isValid_iff _).mpr (by norm_num [center])
  have hp : p.isValid := (Point.isValid_iff _).mpr (by norm_num [p])
  have hn : precisionForRadius radius = 6 := by
    norm_num [precisionForRadius, radius]
  have hl : layers radius = 1 := by
    norm_num [layers, wideRadius, radius]
  refine ⟨hc, hp, rfl, by norm_num [center, p, radius], ?_⟩
  rw [encode_mem_coverCircle_iff hc hp rfl, hn, hl]
  norm_num [center, p, rowOf]

end Geohash

end GeoDispatch
