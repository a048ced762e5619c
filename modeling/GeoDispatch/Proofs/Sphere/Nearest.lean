import GeoDispatch.Proofs.Sphere.Circle
import GeoDispatch.Sphere.Nearest
import Mathlib.Analysis.Real.Pi.Bounds

/-!
# Which points near a centre are found

A search returns the points that pass two tests, the box and the distance (`mem_nearest`).  The
latitudes of the box hold the circle, since 111 kilometres are less than a degree of a great
circle; its longitudes end at the antimeridian and are reckoned on a flat map.  So no point of
the circle is lost exactly when the circle is as narrow as the flat map has it
(`nearest_complete_iff`).
-/

namespace GeoDispatch

section

variable {α : Type} [Trigonometric α] {center : Point α} {radius : α} {points : List (Point α)}
  {hit : NearPoint α}

theorem mem_within {box : BoundingBox α} :
    hit ∈ within box center radius points ↔
      points[hit.index]? = some hit.point ∧ box.contains hit.point ∧
        hit.distance = center.distance hit.point ∧ hit.distance ≤ radius := by
  rw [within, List.mem_filterMap]
  constructor
  · rintro ⟨⟨p, i⟩, hmem, h⟩
    simp only [Option.ite_none_right_eq_some, Option.some.injEq] at h
    obtain ⟨hbox, hdist, rfl⟩ := h
    exact ⟨List.mem_zipIdx_iff_getElem?.mp hmem, hbox, rfl, hdist⟩
  · rintro ⟨hget, hbox, heq, hdist⟩
    refine ⟨(hit.point, hit.index), List.mem_zipIdx_iff_getElem?.mpr hget, ?_⟩
    simp only [hbox, ← heq, hdist, ↓reduceIte]

/-- **The answer of a search**: the points of the list that lie in the box and within the radius,
each under its own index and with its distance. -/
theorem mem_nearest :
    hit ∈ nearest center points radius ↔
      points[hit.index]? = some hit.point ∧
        (BoundingBox.around center radius).contains hit.point ∧
          hit.distance = center.distance hit.point ∧ hit.distance ≤ radius := by
  rw [nearest, List.mem_mergeSort, mem_within]

end

open Real hiding sqrt
open Scalar (toRadians)
open Trigonometric (toDegrees)

variable {center p : Point ℝ} {radius : ℝ}

/-- Two points are at least as far apart as their latitudes. -/
theorem Point.abs_lat_sub_le_distance (hc : center.isValid) (hp : p.isValid) :
    6371 * toRadians |p.lat - center.lat| ≤ center.distance p := by
  have hx := abs_le.mp (abs_toRadians_le_iff.mpr (center.isValid_real_iff.mp hc).1)
  have hy := abs_le.mp (abs_toRadians_le_iff.mpr (p.isValid_real_iff.mp hp).1)
  have hk := cos_le_one (toRadians |p.lng - center.lng|)
  rw [distance_eq, ← abs_toRadians, toRadians_sub, abs_sub_comm, cosAngle]
  generalize toRadians center.lat = x, toRadians p.lat = y,
    cos (toRadians |p.lng - center.lng|) = k at *
  have hle : cosBetween x y k ≤ cos |x - y| := by
    rw [cos_abs, ← cosBetween_one, cosBetween, cosBetween]
    have hcos : 0 ≤ cos x * cos y :=
      mul_nonneg (cos_nonneg_of_mem_Icc hx) (cos_nonneg_of_mem_Icc hy)
    gcongr
  have harc : arccos (cos |x - y|) = |x - y| := by
    refine arccos_cos (abs_nonneg _) (abs_le.mpr ⟨?_, ?_⟩) <;> linarith
  calc 6371 * |x - y|
    _ = 6371 * arccos (cos |x - y|) := by rw [harc]
    _ ≤ 6371 * arccos (cosBetween x y k) := by gcongr

/-- A degree of latitude is more than 111 kilometres long. -/
theorem Point.abs_lat_sub_le (hc : center.isValid) (hp : p.isValid)
    (near : center.distance p ≤ radius) : |p.lat - center.lat| ≤ radius / 111 := by
  have hpi : 111 ≤ 6371 * (π / 180) := by linarith [pi_gt_d2]
  rw [le_div_iff₀' (by norm_num)]
  calc 111 * |p.lat - center.lat|
    _ ≤ 6371 * (π / 180) * |p.lat - center.lat| := by gcongr
    _ = 6371 * toRadians |p.lat - center.lat| := by rw [toRadians_real]; ring
    _ ≤ center.distance p := abs_lat_sub_le_distance hc hp
    _ ≤ radius := near

/-- The latitudes of the box hold the circle, so that the box can reject a point of the circle
for its longitude only. -/
theorem contains_around_iff (hc : center.isValid) (hp : p.isValid)
    (near : center.distance p ≤ radius) :
    (BoundingBox.around center radius).contains p ↔
      |p.lng - center.lng| ≤ radius / (111 * cos (toRadians center.lat)) := by
  obtain ⟨hsouth, hnorth⟩ := abs_le.mp (Point.abs_lat_sub_le hc hp near)
  obtain ⟨hlow, hhigh⟩ := abs_le.mp (p.isValid_real_iff.mp hp).1
  have hmin : (BoundingBox.around center radius).minLat ≤ p.lat := by
    refine (maxNum_real _ _).trans_le (max_le ?_ hlow)
    change center.lat - radius / 111 ≤ p.lat
    linarith
  have hmax : p.lat ≤ (BoundingBox.around center radius).maxLat := by
    refine (le_min ?_ hhigh).trans_eq (minNum_real _ _).symm
    change p.lat ≤ center.lat + radius / 111
    linarith
  rw [BoundingBox.contains, Bool.and_eq_true, Bool.and_eq_true, Bool.and_eq_true,
    decide_eq_true_eq, decide_eq_true_eq, decide_eq_true_eq, decide_eq_true_eq]
  have hwest : (BoundingBox.around center radius).minLng =
      center.lng - radius / (111 * cos (toRadians center.lat)) := rfl
  have heast : (BoundingBox.around center radius).maxLng =
      center.lng + radius / (111 * cos (toRadians center.lat)) := rfl
  rw [hwest, heast, abs_le]
  constructor
  · rintro ⟨⟨-, hfrom⟩, hto⟩
    constructor <;> linarith
  · rintro ⟨hfrom, hto⟩
    exact ⟨⟨⟨hmin, hmax⟩, by linarith⟩, by linarith⟩

/-- **When a search finds every point within its radius.**  Off the poles a search loses no valid
point of any list exactly when the width of the circle, at `111 * cos lat` kilometres to the
degree as on the flat map of the box, is at most the radius. -/
theorem nearest_complete_iff (valid : center.isValid) (offPole : |center.lat| < 90)
    (nonneg : 0 ≤ radius) :
    (∀ points : List (Point ℝ), (∀ p ∈ points, p.isValid) →
      ∀ i p, points[i]? = some p → center.distance p ≤ radius →
        ∃ hit ∈ nearest center points radius, hit.index = i ∧ hit.point = p) ↔
    center.circleWidth radius * (111 * cos (toRadians center.lat)) ≤ radius := by
  have hcos : 0 < cos (toRadians center.lat) := by
    obtain ⟨hlow, hhigh⟩ := abs_lt.mp offPole
    refine cos_pos_of_mem_Ioo ⟨?_, ?_⟩ <;> rw [toRadians_real] <;> nlinarith [pi_pos]
  rw [← le_div_iff₀ (by positivity)]
  obtain ⟨⟨p, hp, hnear, hwidth⟩, hgreatest⟩ := Point.isGreatest_circleWidth valid nonneg
  constructor
  · intro complete
    have hall : ∀ q ∈ [p], q.isValid := by simpa using hp
    obtain ⟨hit, hmem, -, rfl⟩ := complete [p] hall 0 p rfl hnear
    rw [← hwidth]
    exact (contains_around_iff valid hp hnear).mp (mem_nearest.mp hmem).2.1
  · intro narrow points hall i q hget hnear
    have hq : q.isValid := hall q (List.mem_of_getElem? hget)
    have hbox := (contains_around_iff valid hq hnear).mpr
      ((hgreatest ⟨q, hq, hnear, rfl⟩).trans narrow)
    exact ⟨⟨i, q, center.distance q⟩, mem_nearest.mpr ⟨hget, hbox, rfl, hnear⟩, rfl, rfl⟩

/-- On the equator a circle short of the antimeridian is as wide as its radius. -/
theorem Point.circleWidth_equator {l : ℝ} (nonneg : 0 ≤ radius) (quarter : radius / 6371 < π / 2)
    (inside : |l| + toDegrees (radius / 6371) < 180) :
    Point.circleWidth ⟨0, l⟩ radius = toDegrees (radius / 6371) := by
  have hangle : 0 ≤ radius / 6371 := by positivity
  have hwidth : Point.halfWidthDegrees ⟨0, l⟩ radius = toDegrees (radius / 6371) := by
    rw [halfWidthDegrees, halfWidth, toRadians_zero, cos_zero, div_one,
      arcsin_sin (by linarith) quarter.le]
  rw [circleWidth, hwidth, if_pos]
  rw [toRadians_zero, abs_zero, sub_zero]
  exact ⟨quarter, inside⟩

/-- Around the origin a search within 100 kilometres finds every point, since a degree of the
equator is longer than 111 kilometres. -/
theorem nearest_complete_around_origin :
    let center : Point ℝ := ⟨0, 0⟩
    center.isValid ∧ |center.lat| < 90 ∧ (0 : ℝ) ≤ 100 ∧
      ∀ points : List (Point ℝ), (∀ p ∈ points, p.isValid) →
        ∀ i p, points[i]? = some p → center.distance p ≤ 100 →
          ∃ hit ∈ nearest center points 100, hit.index = i ∧ hit.point = p := by
  intro center
  have hc : center.isValid := (Point.isValid_real_iff _).mpr (by norm_num [center])
  have hoff : |center.lat| < 90 := by norm_num [center]
  have hpi := pi_gt_d2
  have hdeg : toDegrees (100 / 6371 : ℝ) ≤ 100 / 111 := by
    change 100 / 6371 * (180 / π) ≤ 100 / 111
    rw [div_mul_div_comm, div_le_div_iff₀ (by positivity) (by norm_num)]
    linarith
  have hwidth : center.circleWidth 100 = toDegrees (100 / 6371) :=
    Point.circleWidth_equator (by norm_num) (by linarith) (by rw [abs_zero, zero_add]; linarith)
  refine ⟨hc, hoff, by norm_num, (nearest_complete_iff hc hoff (by norm_num)).mpr ?_⟩
  rw [hwidth, toRadians_zero, cos_zero, mul_one]
  linarith

/-- Across the antimeridian a search finds nothing: a point a fifth of a degree to the east, 22
kilometres away, is not among the points within 50 kilometres. -/
theorem nearest_loses_point_across_antimeridian :
    let center : Point ℝ := ⟨0, 1799 / 10⟩
    let p : Point ℝ := ⟨0, -1799 / 10⟩
    center.isValid ∧ p.isValid ∧ center.distance p ≤ 50 ∧ nearest center [p] 50 = [] := by
  intro center p
  have hc : center.isValid := (Point.isValid_real_iff _).mpr (by norm_num [center, abs_le])
  have hp : p.isValid := (Point.isValid_real_iff _).mpr (by norm_num [p, abs_le])
  have hpi := pi_gt_d2
  have hpi' := pi_lt_d2
  have hgap : |p.lng - center.lng| = 1799 / 5 := by norm_num [center, p, abs_of_neg]
  -- the shorter way around is a fifth of a degree
  have hcos : cos (50 / 6371) ≤ cos (1799 / 5 * (π / 180)) := by
    refine (cos_le_cos_iff (by norm_num) ?_ (by positivity) ?_).mpr (.inr ?_) <;> linarith
  have near : center.distance p ≤ 50 := by
    rw [Point.distance_le_iff (by norm_num) (by linarith), Point.cosAngle, hgap, cosBetween,
      toRadians_zero, sin_zero, cos_zero, toRadians_real, mul_zero, zero_add, mul_one, one_mul]
    exact hcos
  refine ⟨hc, hp, near, List.eq_nil_iff_forall_not_mem.mpr fun hit hmem => ?_⟩
  obtain ⟨hget, hbox, -⟩ := mem_nearest.mp hmem
  have hpoint : hit.point = p := List.mem_singleton.mp (List.mem_of_getElem? hget)
  rw [hpoint, contains_around_iff hc hp near, hgap, toRadians_zero, cos_zero] at hbox
  norm_num at hbox

end GeoDispatch
