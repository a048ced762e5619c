import GeoDispatch.Proofs.Number.Real
import GeoDispatch.Sphere.GreatCircle

/-!
# The distance as an angle

The half chord of two points is that of the angle between them (`Point.haversine_eq`), so that
the distance is the angle times the radius of the sphere (`Point.distance_eq`).  The angle is
known by its cosine, a function of the two latitudes and of the cosine of the difference of
longitudes.
-/

namespace GeoDispatch

open Real hiding sqrt
open Scalar (toRadians)

/-- The cosine of the angle between two directions at latitudes `x` and `y`, with `k` the cosine
of the difference of their longitudes. -/
noncomputable def cosBetween (x y k : ℝ) : ℝ := sin x * sin y + cos x * cos y * k

theorem cosBetween_one (x y : ℝ) : cosBetween x y 1 = cos (x - y) := by
  rw [cosBetween, mul_one, cos_sub, add_comm]

/-- Cauchy and Schwarz; equality is where the latitude `y` is best. -/
theorem cosBetween_sq_le (x y k : ℝ) : cosBetween x y k ^ 2 ≤ sin x ^ 2 + cos x ^ 2 * k ^ 2 := by
  have hgap : sin x ^ 2 + cos x ^ 2 * k ^ 2 - cosBetween x y k ^ 2 =
      (sin x * cos y - cos x * k * sin y) ^ 2 := by
    rw [cosBetween]
    linear_combination (-(sin x ^ 2 + cos x ^ 2 * k ^ 2)) * sin_sq_add_cos_sq y
  have := sq_nonneg (sin x * cos y - cos x * k * sin y)
  linarith

theorem abs_cosBetween_le_one (x y : ℝ) {k : ℝ} (hk : |k| ≤ 1) : |cosBetween x y k| ≤ 1 := by
  have hk' : k ^ 2 ≤ 1 := (sq_le_one_iff_abs_le_one k).mpr hk
  refine (sq_le_one_iff_abs_le_one _).mp ?_
  calc cosBetween x y k ^ 2
    _ ≤ sin x ^ 2 + cos x ^ 2 * k ^ 2 := cosBetween_sq_le x y k
    _ ≤ sin x ^ 2 + cos x ^ 2 * 1 := by gcongr
    _ = 1 := by rw [mul_one, sin_sq_add_cos_sq]

namespace Point

/-- The cosine of the angle between two points, seen from the centre of the sphere. -/
noncomputable def cosAngle (p q : Point ℝ) : ℝ :=
  cosBetween (toRadians p.lat) (toRadians q.lat) (cos (toRadians |q.lng - p.lng|))

theorem abs_cosAngle_le_one (p q : Point ℝ) : |p.cosAngle q| ≤ 1 :=
  abs_cosBetween_le_one _ _ (abs_cos_le_one _)

theorem haversine_eq (p q : Point ℝ) : p.haversine q = (1 - p.cosAngle q) / 2 := by
  have half (x : ℝ) : sin (x * Scalar.decimal 5 1) ^ 2 = (1 - cos x) / 2 := by
    rw [sin_sq_eq_half_sub, decimal_real]
    ring_nf
  have hlat := half (toRadians q.lat - toRadians p.lat)
  have hlng := half (toRadians (q.lng - p.lng))
  rw [cos_sub] at hlat
  rw [cosAngle, cosBetween, ← abs_toRadians, cos_abs]
  change sin _ * sin _ + cos _ * cos _ * sin _ * sin _ = _
  linear_combination hlat + cos (toRadians p.lat) * cos (toRadians q.lat) * hlng

/-- The distance is the length of the arc of the angle between the points. -/
theorem distance_eq (p q : Point ℝ) : p.distance q = 6371 * arccos (p.cosAngle q) := by
  obtain ⟨hlow, hhigh⟩ := abs_le.mp (p.abs_cosAngle_le_one q)
  have hangle : 0 ≤ arccos (p.cosAngle q) ∧ arccos (p.cosAngle q) ≤ π :=
    ⟨arccos_nonneg _, arccos_le_pi _⟩
  have hhalf : √(p.haversine q) = sin (arccos (p.cosAngle q) / 2) := by
    rw [sin_half_eq_sqrt hangle.1 (by linarith), cos_arccos hlow hhigh, haversine_eq]
  change ((2 : ℕ) : ℝ) * ((6371 : ℕ) : ℝ) * arcsin √(p.haversine q) = _
  rw [hhalf, arcsin_sin (by linarith) (by linarith)]
  push_cast
  ring

/-- Within a radius of at most half a great circle, distances compare as cosines do. -/
theorem distance_le_iff {p q : Point ℝ} {radius : ℝ} (nonneg : 0 ≤ radius)
    (le : radius / 6371 ≤ π) : p.distance q ≤ radius ↔ cos (radius / 6371) ≤ p.cosAngle q := by
  obtain ⟨hlow, hhigh⟩ := abs_le.mp (p.abs_cosAngle_le_one q)
  rw [distance_eq, ← le_div_iff₀' (by norm_num),
    ← strictAntiOn_cos.le_iff_ge ⟨by positivity, le⟩ ⟨arccos_nonneg _, arccos_le_pi _⟩,
    cos_arccos hlow hhigh]

end Point

end GeoDispatch
