import GeoDispatch.Proofs.Sphere.Circle
import GeoDispatch.Proofs.Sphere.Turn
import Mathlib.Analysis.Real.Pi.Bounds

/-!
# Destinations

From the start, at latitude `x`, a way of the angle `δ` at the bearing `θ` leads to a point with the
coordinates `height` along the axis of the sphere, `reach` along the meridian of the start and
`sin θ * sin δ` to the east of it.  The latitude and the longitude of a destination are those of
that point (`Point.sin_lat_destination` and its companions).  The angle back to the start and the
bearing at which the way starts are read off the same coordinates, so that distance and bearing undo
a destination (`Point.destination_is_inverted`), also where it is a pole or lies across the
antimeridian.
-/

namespace GeoDispatch

open Real hiding sqrt
open Scalar (toRadians)
open Trigonometric (toDegrees atan2)

/-! ## The coordinates of a destination -/

/-- The coordinate along the axis of the sphere of the point that an angle `δ` at the bearing `θ`
leads to from latitude `x`. -/
noncomputable def height (x θ δ : ℝ) : ℝ := sin x * cos δ + cos x * sin δ * cos θ

/-- The coordinate of that point along the meridian of the start. -/
noncomputable def reach (x θ δ : ℝ) : ℝ := cos x * cos δ - sin x * sin δ * cos θ

section

variable (x θ δ : ℝ)

/-- The point is one of the unit sphere. -/
theorem height_sq_add : height x θ δ ^ 2 + (reach x θ δ ^ 2 + (sin θ * sin δ) ^ 2) = 1 := by
  rw [height, reach]
  linear_combination (cos δ ^ 2 + sin δ ^ 2 * cos θ ^ 2) * sin_sq_add_cos_sq x +
    sin δ ^ 2 * sin_sq_add_cos_sq θ + sin_sq_add_cos_sq δ

/-- Its angle from the start is `δ`. -/
theorem sin_mul_height_add : sin x * height x θ δ + cos x * reach x θ δ = cos δ := by
  rw [height, reach]
  linear_combination cos δ * sin_sq_add_cos_sq x

/-- Seen from the start it lies toward `θ`. -/
theorem cos_mul_height_sub : cos x * height x θ δ - sin x * reach x θ δ = sin δ * cos θ := by
  rw [height, reach]
  linear_combination sin δ * cos θ * sin_sq_add_cos_sq x

theorem abs_height_le_one : |height x θ δ| ≤ 1 := by
  have unit := height_sq_add x θ δ
  refine (sq_le_one_iff_abs_le_one _).mp ?_
  linarith [sq_nonneg (reach x θ δ), sq_nonneg (sin θ * sin δ)]

theorem sin_arcsin_height : sin (arcsin (height x θ δ)) = height x θ δ :=
  have within := abs_le.mp (abs_height_le_one x θ δ)
  sin_arcsin within.1 within.2

theorem cos_arcsin_height :
    cos (arcsin (height x θ δ)) = √(reach x θ δ ^ 2 + (sin θ * sin δ) ^ 2) := by
  rw [cos_arcsin]
  congr 1
  linear_combination -height_sq_add x θ δ

/-- Off the poles the angle around the axis is that of the coordinates across it. -/
theorem atan2_height (offPole : 0 < cos x) :
    atan2 (sin θ * sin δ * cos x) (cos δ - sin x * sin (arcsin (height x θ δ))) =
      atan2 (sin θ * sin δ) (reach x θ δ) := by
  have across : cos δ - sin x * height x θ δ = cos x * reach x θ δ := by
    linear_combination -sin_mul_height_add x θ δ
  rw [sin_arcsin_height, across, mul_comm _ (cos x), atan2_mul offPole]

end

namespace Point

variable (start : Point ℝ) (deg km : ℝ)

theorem lat_destination :
    toRadians (start.destination deg km).lat =
      arcsin (height (toRadians start.lat) (toRadians deg) (km / 6371)) :=
  toRadians_toDegrees _

theorem sin_lat_destination :
    sin (toRadians (start.destination deg km).lat) =
      height (toRadians start.lat) (toRadians deg) (km / 6371) := by
  rw [lat_destination, sin_arcsin_height]

/-- The longitude changes by the angle around the axis. -/
theorem lng_destination (offPole : |start.lat| < 90) :
    (start.destination deg km).lng = eastOf start.lng
      (atan2 (sin (toRadians deg) * sin (km / 6371))
        (reach (toRadians start.lat) (toRadians deg) (km / 6371))) :=
  congrArg (eastOf start.lng) (atan2_height _ _ _ (cos_toRadians_pos offPole))

theorem cos_lat_mul_cos_lng_destination (offPole : |start.lat| < 90) :
    cos (toRadians (start.destination deg km).lat) *
        cos (toRadians ((start.destination deg km).lng - start.lng)) =
      reach (toRadians start.lat) (toRadians deg) (km / 6371) := by
  rw [lat_destination, cos_arcsin_height, start.lng_destination deg km offPole,
    cos_toRadians_eastOf_sub, sqrt_mul_cos_atan2]

theorem cos_lat_mul_sin_lng_destination (offPole : |start.lat| < 90) :
    cos (toRadians (start.destination deg km).lat) *
        sin (toRadians ((start.destination deg km).lng - start.lng)) =
      sin (toRadians deg) * sin (km / 6371) := by
  rw [lat_destination, cos_arcsin_height, start.lng_destination deg km offPole,
    sin_toRadians_eastOf_sub, sqrt_mul_sin_atan2]

/-! ## The way back -/

theorem isValid_destination : (start.destination deg km).isValid ∧
    -180 < (start.destination deg km).lng ∧ (start.destination deg km).lng ≤ 180 := by
  have lat : |(start.destination deg km).lat| ≤ 90 := by
    rw [← abs_toRadians_le_iff, lat_destination]
    exact abs_le.mpr (arcsin_mem_Icc _)
  have west : -180 < (start.destination deg km).lng := (normalizeLongitude_within _).1
  have east : (start.destination deg km).lng ≤ 180 := (normalizeLongitude_within _).2.1
  exact ⟨(isValid_real_iff _).mpr ⟨lat, abs_le.mpr ⟨west.le, east⟩⟩, west, east⟩

variable {start} {km}

theorem distance_destination (offPole : |start.lat| < 90) (nonneg : 0 ≤ km)
    (short : km ≤ 6371 * π) : start.distance (start.destination deg km) = km := by
  have angle : start.cosAngle (start.destination deg km) = cos (km / 6371) := by
    rw [cosAngle, cosBetween, ← abs_toRadians, cos_abs, mul_assoc, sin_lat_destination,
      start.cos_lat_mul_cos_lng_destination deg km offPole, sin_mul_height_add]
  rw [distance_eq, angle, arccos_cos (by positivity) ((div_le_iff₀' (by norm_num)).mpr short)]
  ring

theorem exists_bearing_destination (offPole : |start.lat| < 90) (pos : 0 < km)
    (short : km < 6371 * π) :
    ∃ k : ℤ, start.bearing (start.destination deg km) = deg + 360 * k := by
  have away : 0 < sin (km / 6371) :=
    sin_pos_of_pos_of_lt_pi (by positivity) ((div_lt_iff₀' (by norm_num)).mpr short)
  have east : sin (toRadians ((start.destination deg km).lng - start.lng)) *
      cos (toRadians (start.destination deg km).lat) =
        sin (km / 6371) * sin (toRadians deg) := by
    rw [mul_comm, start.cos_lat_mul_sin_lng_destination deg km offPole, mul_comm]
  have north : cos (toRadians start.lat) * sin (toRadians (start.destination deg km).lat) -
      sin (toRadians start.lat) * cos (toRadians (start.destination deg km).lat) *
        cos (toRadians ((start.destination deg km).lng - start.lng)) =
          sin (km / 6371) * cos (toRadians deg) := by
    rw [mul_assoc, sin_lat_destination, start.cos_lat_mul_cos_lng_destination deg km offPole,
      cos_mul_height_sub]
  obtain ⟨k, turns⟩ := exists_atan2_eq away (toRadians deg)
  obtain ⟨-, -, k', turns'⟩ := normalizeBearing_within (deg + 360 * k)
  refine ⟨k + k', ?_⟩
  calc start.bearing (start.destination deg km)
    _ = normalizeBearing (toDegrees (atan2 (sin (km / 6371) * sin (toRadians deg))
          (sin (km / 6371) * cos (toRadians deg)))) := by
      rw [← east, ← north]
      rfl
    _ = normalizeBearing (deg + 360 * k) := by rw [turns, toDegrees_add_turns]
    _ = deg + 360 * k + 360 * k' := turns'
    _ = deg + 360 * (k + k' : ℤ) := by
      push_cast
      ring

theorem bearing_within (p q : Point ℝ) : 0 ≤ p.bearing q ∧ p.bearing q < 360 :=
  have within := normalizeBearing_within _
  ⟨within.1, within.2.1⟩

/-- **Distance and bearing undo a destination.**  From every start off the poles the destination at
any bearing and at any distance short of half a great circle is a point in range, with a longitude
above -180 degrees.  It lies at that distance from the start, and the shortest way to it starts at
that bearing, brought into the range from 0 up to 360 degrees. -/
theorem destination_is_inverted (start : Point ℝ) (deg km : ℝ) (offPole : |start.lat| < 90)
    (pos : 0 < km) (short : km < 6371 * π) :
    let p := start.destination deg km
    p.isValid ∧ -180 < p.lng ∧ p.lng ≤ 180 ∧ start.distance p = km ∧
      0 ≤ start.bearing p ∧ start.bearing p < 360 ∧ ∃ k : ℤ, start.bearing p = deg + 360 * k := by
  intro p
  obtain ⟨valid, west, east⟩ := start.isValid_destination deg km
  obtain ⟨nonneg, lt⟩ := start.bearing_within p
  exact ⟨valid, west, east, distance_destination deg offPole pos.le short.le, nonneg, lt,
    exists_bearing_destination deg offPole pos short⟩

/-- A way that bears -430 degrees, west by north, and leads across the antimeridian, a tenth of a
degree from the start. -/
theorem destination_across_antimeridian :
    let start : Point ℝ := ⟨60, -1799 / 10⟩
    let p := start.destination (-430) 1000
    |start.lat| < 90 ∧ (0 : ℝ) < 1000 ∧ (1000 : ℝ) < 6371 * π ∧
      p.isValid ∧ -180 < p.lng ∧ p.lng ≤ 180 ∧ start.distance p = 1000 ∧ start.bearing p = 290 := by
  intro start p
  have offPole : |start.lat| < 90 := by norm_num [start, abs_lt]
  have short : (1000 : ℝ) < 6371 * π := by linarith [pi_gt_three]
  obtain ⟨valid, west, east, dist, nonneg, lt, k, turns⟩ :=
    destination_is_inverted start (-430) 1000 offPole (by norm_num) short
  refine ⟨offPole, by norm_num, short, valid, west, east, dist, ?_⟩
  have low : 1 < k := by
    have : (1 : ℝ) < k := by linarith
    exact_mod_cast this
  have high : k < 3 := by
    have : (k : ℝ) < 3 := by linarith
    exact_mod_cast this
  have two : k = 2 := by omega
  rw [turns, two]
  norm_num

end Point

end GeoDispatch
