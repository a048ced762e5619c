import GeoDispatch.Proofs.Sphere.Circle
import GeoDispatch.Proofs.Sphere.Direction
import Mathlib.Geometry.Euclidean.Triangle

/-!
# The midpoint as the middle direction

The midpoint of two points has the direction of the sum of their directions
(`Point.norm_smul_direction_midpoint`), whatever the difference of longitude; antipodes have a sum
without a direction.  The sum of two unit vectors halves the angle between them, so that the
midpoint is half the distance away from either point (`Point.distance_is_angle`).
-/

namespace GeoDispatch

open Real hiding sqrt
open Scalar (toRadians)
open Trigonometric (atan2)

/-- The sum of two unit vectors halves the angle between them. -/
theorem angle_add_of_norm_eq_one {V : Type*} [NormedAddCommGroup V] [InnerProductSpace ℝ V]
    {u v : V} (hu : ‖u‖ = 1) (hv : ‖v‖ = 1) :
    InnerProductGeometry.angle u (u + v) = InnerProductGeometry.angle u v / 2 := by
  have nonzero : v ≠ 0 := norm_ne_zero_iff.mp (by rw [hv]; exact one_ne_zero)
  have parts := InnerProductGeometry.angle_eq_angle_add_add_angle_add u nonzero
  have same : InnerProductGeometry.angle v (u + v) = InnerProductGeometry.angle u (u + v) := by
    rw [InnerProductGeometry.angle, InnerProductGeometry.angle, inner_add_right, inner_add_right,
      real_inner_self_eq_norm_sq, real_inner_self_eq_norm_sq, real_inner_comm, hu, hv, add_comm]
  linarith

namespace Point

variable (p q : Point ℝ)

/-! ## The sum of two directions -/

/-- The coordinate of the sum of two directions along the meridian of the first point. -/
noncomputable def sumAlong : ℝ :=
  cos (toRadians p.lat) + cos (toRadians q.lat) * cos (toRadians (q.lng - p.lng))

/-- The coordinate of the sum of two directions to the east of that meridian. -/
noncomputable def sumAcross : ℝ := cos (toRadians q.lat) * sin (toRadians (q.lng - p.lng))

/-- The coordinate of the sum of two directions along the axis. -/
noncomputable def sumUp : ℝ := sin (toRadians p.lat) + sin (toRadians q.lat)

theorem norm_direction_add :
    ‖p.direction + q.direction‖ =
      √(√(p.sumAlong q ^ 2 + p.sumAcross q ^ 2) ^ 2 + p.sumUp q ^ 2) := by
  rw [sq_sqrt (by positivity), ← sqrt_sq (norm_nonneg _), norm_add_sq_real, norm_direction,
    norm_direction, inner_direction, cosAngle, cosBetween, ← abs_toRadians, cos_abs, sumAlong,
    sumAcross, sumUp]
  congr 1
  linear_combination -sin_sq_add_cos_sq (toRadians p.lat) - sin_sq_add_cos_sq (toRadians q.lat) -
    cos (toRadians q.lat) ^ 2 * sin_sq_add_cos_sq (toRadians (q.lng - p.lng))

theorem lat_midpoint : toRadians (p.midpoint q).lat =
    atan2 (p.sumUp q) (√(p.sumAlong q ^ 2 + p.sumAcross q ^ 2)) := by
  rw [sq, sq]
  exact toRadians_toDegrees _

theorem lng_midpoint :
    (p.midpoint q).lng = eastOf p.lng (atan2 (p.sumAcross q) (p.sumAlong q)) := rfl

theorem norm_mul_cos_lat_midpoint :
    ‖p.direction + q.direction‖ * cos (toRadians (p.midpoint q).lat) =
      √(p.sumAlong q ^ 2 + p.sumAcross q ^ 2) := by
  rw [norm_direction_add, lat_midpoint, sqrt_mul_cos_atan2]

theorem norm_mul_sin_lat_midpoint :
    ‖p.direction + q.direction‖ * sin (toRadians (p.midpoint q).lat) = p.sumUp q := by
  rw [norm_direction_add, lat_midpoint, sqrt_mul_sin_atan2]

/-- The midpoint has the direction of the sum of both directions. -/
theorem norm_smul_direction_midpoint :
    ‖p.direction + q.direction‖ • (p.midpoint q).direction = p.direction + q.direction := by
  have lng : toRadians q.lng = toRadians p.lng + toRadians (q.lng - p.lng) := by
    rw [toRadians_sub]
    ring
  have along := sqrt_mul_cos_atan2 (p.sumAcross q) (p.sumAlong q)
  have across := sqrt_mul_sin_atan2 (p.sumAcross q) (p.sumAlong q)
  have first : ‖p.direction + q.direction‖ * (cos (toRadians (p.midpoint q).lat) *
      cos (toRadians (p.midpoint q).lng)) = cos (toRadians p.lat) * cos (toRadians p.lng) +
        cos (toRadians q.lat) * cos (toRadians q.lng) := by
    rw [← mul_assoc, norm_mul_cos_lat_midpoint, lng_midpoint, cos_toRadians_eastOf, cos_add,
      lng, cos_add]
    simp only [sumAlong, sumAcross] at along across ⊢
    linear_combination cos (toRadians p.lng) * along - sin (toRadians p.lng) * across
  have second : ‖p.direction + q.direction‖ * (cos (toRadians (p.midpoint q).lat) *
      sin (toRadians (p.midpoint q).lng)) = cos (toRadians p.lat) * sin (toRadians p.lng) +
        cos (toRadians q.lat) * sin (toRadians q.lng) := by
    rw [← mul_assoc, norm_mul_cos_lat_midpoint, lng_midpoint, sin_toRadians_eastOf, sin_add,
      lng, sin_add]
    simp only [sumAlong, sumAcross] at along across ⊢
    linear_combination sin (toRadians p.lng) * along + cos (toRadians p.lng) * across
  ext i
  fin_cases i
  · exact first
  · exact second
  · exact p.norm_mul_sin_lat_midpoint q

/-! ## Half the way -/

variable {p q}

/-- From either of two points `r` and `s` it is half the way to their midpoint. -/
theorem distance_midpoint {r s : Point ℝ}
    (sum : r.direction + s.direction = p.direction + q.direction)
    (apart : p.direction ≠ -q.direction) : r.distance (p.midpoint q) = r.distance s / 2 := by
  have pos : 0 < ‖p.direction + q.direction‖ :=
    norm_pos_iff.mpr fun zero => apart (add_eq_zero_iff_eq_neg.mp zero)
  rw [distance_eq_angle, distance_eq_angle,
    ← InnerProductGeometry.angle_smul_right_of_pos _ _ pos, norm_smul_direction_midpoint, ← sum,
    angle_add_of_norm_eq_one r.norm_direction s.norm_direction, mul_div_assoc]

/-- **The distance is an angle.**  For any two points the square of the half chord is at most one,
and the distance is the angle between their directions times the radius of the sphere.  So it is
symmetric, at most half a great circle, and zero just for points with one direction, which in the
range of latitudes are a pole or have one latitude and one longitude up to full turns; and a detour
is never shorter.  Unless the points are antipodes, their midpoint is half the distance away from
both and has a longitude above -180 and up to 180 degrees. -/
theorem distance_is_angle (p q : Point ℝ) :
    (0 ≤ p.haversine q ∧ p.haversine q ≤ 1) ∧
    p.distance q = 6371 * InnerProductGeometry.angle p.direction q.direction ∧
    (‖p.direction‖ = 1 ∧ ‖q.direction‖ = 1) ∧
    p.distance q = q.distance p ∧
    p.distance q ≤ 6371 * π ∧
    (p.distance q = 0 ↔ p.direction = q.direction) ∧
    (|p.lat| ≤ 90 → |q.lat| ≤ 90 →
      (p.distance q = 0 ↔ p.lat = q.lat ∧ (|p.lat| = 90 ∨ ∃ k : ℤ, q.lng = p.lng + 360 * k))) ∧
    (∀ r, p.distance r ≤ p.distance q + q.distance r) ∧
    (p.direction ≠ -q.direction →
      let m := p.midpoint q
      p.distance m = p.distance q / 2 ∧ q.distance m = p.distance q / 2 ∧
        -180 < m.lng ∧ m.lng ≤ 180) := by
  refine ⟨p.haversine_within q, p.distance_eq_angle q, ⟨p.norm_direction, q.norm_direction⟩,
    p.distance_comm q, ?_, distance_eq_zero_iff, ?_, p.distance_le_distance_add q, ?_⟩
  · rw [distance_eq_angle]
    gcongr
    exact InnerProductGeometry.angle_le_pi _ _
  · intro hp hq
    rw [distance_eq_zero_iff, direction_eq_iff_of_lat hp hq]
  · intro apart m
    obtain ⟨west, east, -⟩ := normalizeLongitude_within _
    refine ⟨distance_midpoint rfl apart, ?_, west, east⟩
    rw [p.distance_comm q]
    exact distance_midpoint (add_comm _ _) apart

/-- Two points of one parallel whose longitudes differ by 200 degrees, the point at the other end of
the longitudes that is the same place, and the midpoint beyond the pole. -/
theorem midpoint_over_pole :
    let p : Point ℝ := ⟨50, -180⟩
    let q : Point ℝ := ⟨50, 20⟩
    let m := p.midpoint q
    |p.lat| ≤ 90 ∧ p.distance ⟨50, 180⟩ = 0 ∧ p.direction ≠ -q.direction ∧
      p.distance m = p.distance q / 2 ∧ q.distance m = p.distance q / 2 ∧
        -180 < m.lng ∧ m.lng ≤ 180 := by
  intro p q m
  have lat : |p.lat| ≤ 90 := by norm_num [p, abs_le]
  have apart : p.direction ≠ -q.direction := by
    intro opposite
    have up : sin (toRadians (50 : ℝ)) = -sin (toRadians 50) :=
      congrArg (fun v : EuclideanSpace ℝ (Fin 3) => v 2) opposite
    have north : 0 < sin (toRadians (50 : ℝ)) := by
      refine sin_pos_of_pos_of_lt_pi ?_ ?_ <;> rw [toRadians_real] <;> linarith [pi_pos]
    linarith
  obtain ⟨-, -, -, -, -, -, -, -, middle⟩ := distance_is_angle p q
  obtain ⟨-, -, -, -, -, -, place, -⟩ := distance_is_angle p ⟨50, 180⟩
  exact ⟨lat, (place lat lat).mpr ⟨rfl, .inr ⟨1, by norm_num [p]⟩⟩, apart, middle apart⟩

end Point

end GeoDispatch
