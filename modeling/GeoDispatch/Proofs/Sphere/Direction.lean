import GeoDispatch.Proofs.Sphere.Distance
import GeoDispatch.Proofs.Sphere.Turn
import Mathlib.Analysis.InnerProductSpace.PiL2
import Mathlib.Geometry.Euclidean.Angle.Unoriented.TriangleInequality

/-!
# Points as directions

Seen from the centre of the sphere a point is a direction, a unit vector of space
(`Point.direction`), and the distance of two points is the angle between their directions times the
radius of the sphere (`Point.distance_eq_angle`).  What holds of angles holds of distances; in
particular the distance is zero for points with one direction only.  These have one latitude, and
one longitude up to full turns unless they are a pole (`Point.direction_eq_iff_of_lat`).
-/

namespace GeoDispatch

open Real hiding sqrt
open Scalar (toRadians)
open scoped RealInnerProductSpace

namespace Point

/-- The unit vector from the centre of the sphere to a point: its first coordinate is along the
radius to the equator at longitude zero, the second one along that at 90 degrees east, the third one
along the axis. -/
noncomputable def direction (p : Point ℝ) : EuclideanSpace ℝ (Fin 3) :=
  .toLp _ ![cos (toRadians p.lat) * cos (toRadians p.lng),
    cos (toRadians p.lat) * sin (toRadians p.lng), sin (toRadians p.lat)]

theorem inner_direction (p q : Point ℝ) : ⟪p.direction, q.direction⟫ = p.cosAngle q := by
  rw [cosAngle, cosBetween, ← abs_toRadians, cos_abs, toRadians_sub, cos_sub, PiLp.inner_apply,
    Fin.sum_univ_three]
  change cos _ * cos _ * (cos _ * cos _) + cos _ * sin _ * (cos _ * sin _) + sin _ * sin _ = _
  ring

theorem cosAngle_self (p : Point ℝ) : p.cosAngle p = 1 := by
  rw [cosAngle, sub_self, abs_zero, toRadians_zero, cos_zero, cosBetween_one, sub_self, cos_zero]

@[simp] theorem norm_direction (p : Point ℝ) : ‖p.direction‖ = 1 := by
  rw [norm_eq_sqrt_real_inner, inner_direction, cosAngle_self, Real.sqrt_one]

/-- The angle between two points, seen from the centre of the sphere. -/
theorem angle_direction (p q : Point ℝ) :
    InnerProductGeometry.angle p.direction q.direction = arccos (p.cosAngle q) := by
  rw [InnerProductGeometry.angle, inner_direction, norm_direction, norm_direction, mul_one,
    div_one]

/-- The distance is the angle between the directions times the radius of the sphere. -/
theorem distance_eq_angle (p q : Point ℝ) :
    p.distance q = 6371 * InnerProductGeometry.angle p.direction q.direction := by
  rw [distance_eq, angle_direction]

theorem haversine_within (p q : Point ℝ) : 0 ≤ p.haversine q ∧ p.haversine q ≤ 1 := by
  obtain ⟨low, high⟩ := abs_le.mp (p.abs_cosAngle_le_one q)
  rw [haversine_eq]
  constructor <;> linarith

theorem distance_comm (p q : Point ℝ) : p.distance q = q.distance p := by
  rw [distance_eq_angle, distance_eq_angle, InnerProductGeometry.angle_comm]

theorem distance_le_distance_add (p q r : Point ℝ) :
    p.distance r ≤ p.distance q + q.distance r := by
  rw [distance_eq_angle, distance_eq_angle, distance_eq_angle, ← mul_add]
  gcongr
  exact InnerProductGeometry.angle_le_angle_add_angle _ _ _

/-! ## Points of one direction -/

theorem distance_eq_zero_iff {p q : Point ℝ} : p.distance q = 0 ↔ p.direction = q.direction := by
  rw [distance_eq_angle, mul_eq_zero_iff_left (by norm_num)]
  constructor
  · intro h
    exact InnerProductGeometry.eq_of_angle_eq_zero_of_norm_eq h (by simp)
  · intro same
    rw [same, InnerProductGeometry.angle_self]
    exact norm_ne_zero_iff.mp (by simp)

theorem direction_eq_iff {p q : Point ℝ} :
    p.direction = q.direction ↔
      cos (toRadians p.lat) * cos (toRadians p.lng) =
          cos (toRadians q.lat) * cos (toRadians q.lng) ∧
        cos (toRadians p.lat) * sin (toRadians p.lng) =
            cos (toRadians q.lat) * sin (toRadians q.lng) ∧
          sin (toRadians p.lat) = sin (toRadians q.lat) := by
  constructor
  · intro same
    have coordinate (i : Fin 3) : p.direction i = q.direction i := by rw [same]
    exact ⟨coordinate 0, coordinate 1, coordinate 2⟩
  · rintro ⟨first, second, third⟩
    rw [direction, direction, first, second, third]

/-- Two points in the range of latitudes have one direction when they are one pole, or when they
have one latitude and their longitudes differ by full turns. -/
theorem direction_eq_iff_of_lat {p q : Point ℝ} (hp : |p.lat| ≤ 90) (hq : |q.lat| ≤ 90) :
    p.direction = q.direction ↔
      p.lat = q.lat ∧ (|p.lat| = 90 ∨ ∃ k : ℤ, q.lng = p.lng + 360 * k) := by
  rw [direction_eq_iff]
  constructor
  · rintro ⟨first, second, third⟩
    have lat : p.lat = q.lat := by
      have inRange {l : ℝ} (hl : |l| ≤ 90) : toRadians l ∈ Set.Icc (-(π / 2)) (π / 2) :=
        abs_le.mp (abs_toRadians_le_iff.mpr hl)
      exact toRadians_inj.mp (injOn_sin (inRange hp) (inRange hq) third)
    refine ⟨lat, or_iff_not_imp_left.mpr fun noPole => ?_⟩
    have hcos := (cos_toRadians_pos (lt_of_le_of_ne hp noPole)).ne'
    rw [← lat] at first second
    have turned := Angle.cos_sin_inj (mul_left_cancel₀ hcos first).symm
      (mul_left_cancel₀ hcos second).symm
    obtain ⟨k, turns⟩ := Angle.angle_eq_iff_two_pi_dvd_sub.mp turned
    refine ⟨k, toRadians_inj.mp ?_⟩
    rw [toRadians_add_turns]
    linarith
  · rintro ⟨lat, pole | ⟨k, turns⟩⟩
    · have flat : cos (toRadians p.lat) = 0 := by
        rw [← cos_abs, abs_toRadians, pole, toRadians_ninety, cos_pi_div_two]
      rw [← lat, flat, zero_mul, zero_mul, zero_mul]
      exact ⟨rfl, (zero_mul _).symm, rfl⟩
    · rw [← lat, turns, toRadians_add_turns, cos_add_int_mul_two_pi, sin_add_int_mul_two_pi]
      exact ⟨rfl, rfl, rfl⟩

end Point

end GeoDispatch
