import GeoDispatch.Proofs.Sphere.Distance

/-!
# How wide a circle is

A circle on the sphere reaches the meridians on which some latitude is within its radius.
Short of the poles these are the meridians at most `halfWidth` away (`exists_latitude_iff`);
a circle that holds a pole meets all of them.  Longitudes end at the antimeridian, and a circle
that meets it has points at both ends of them, so that the difference of longitude between a
point and the centre can be up to `Point.circleWidth` (`Point.isGreatest_circleWidth`).
-/

namespace GeoDispatch

open Real hiding sqrt
open Scalar (toRadians)
open Trigonometric (toDegrees)

/-! ## Meridians within reach -/

/-- The difference of longitude at which a meridian touches the circle of angular radius `δ`
around a centre at latitude `x`. -/
noncomputable def halfWidth (x δ : ℝ) : ℝ := arcsin (sin δ / cos x)

section

variable {x δ : ℝ}

theorem abs_sin_lt_cos (nonneg : 0 ≤ δ) (clear : δ < π / 2 - |x|) : |sin x| < cos δ := by
  have hx := abs_nonneg x
  rw [abs_sin_eq_sin_abs_of_abs_le_pi (by linarith), ← cos_pi_div_two_sub]
  exact cos_lt_cos_of_nonneg_of_le_pi nonneg (by linarith) clear

theorem sin_lt_cos (nonneg : 0 ≤ δ) (clear : δ < π / 2 - |x|) : sin δ < cos x := by
  have hx := abs_nonneg x
  rw [← cos_abs x, ← cos_pi_div_two_sub]
  exact cos_lt_cos_of_nonneg_of_le_pi hx (by linarith) (by linarith)

theorem halfWidth_nonneg (nonneg : 0 ≤ δ) (clear : δ < π / 2 - |x|) : 0 ≤ halfWidth x δ := by
  have hx := abs_nonneg x
  have hsin : 0 ≤ sin δ := sin_nonneg_of_nonneg_of_le_pi nonneg (by linarith)
  exact arcsin_nonneg.mpr (div_nonneg hsin (hsin.trans (sin_lt_cos nonneg clear).le))

theorem halfWidth_lt (nonneg : 0 ≤ δ) (clear : δ < π / 2 - |x|) : halfWidth x δ < π / 2 := by
  have hx := abs_nonneg x
  have hsin : 0 ≤ sin δ := sin_nonneg_of_nonneg_of_le_pi nonneg (by linarith)
  have hlt := sin_lt_cos nonneg clear
  exact arcsin_lt_pi_div_two.mpr ((div_lt_one (hsin.trans_lt hlt)).mpr hlt)

/-- A meridian is within reach when the best of its latitudes is. -/
theorem cos_halfWidth_le_iff (nonneg : 0 ≤ δ) (clear : δ < π / 2 - |x|) {k : ℝ} (hk : 0 ≤ k) :
    cos (halfWidth x δ) ≤ k ↔ cos δ ^ 2 ≤ sin x ^ 2 + cos x ^ 2 * k ^ 2 := by
  have hx := abs_nonneg x
  have hcos : 0 < cos x :=
    (sin_nonneg_of_nonneg_of_le_pi nonneg (by linarith)).trans_lt (sin_lt_cos nonneg clear)
  rw [halfWidth, cos_arcsin, sqrt_le_left hk, div_pow, sub_le_comm, le_div_iff₀ (by positivity),
    cos_sq' δ, sin_sq x]
  constructor <;> intro h <;> linarith

/-- The best latitude of a meridian less than a quarter of a turn away, where the inequality of
Cauchy and Schwarz is an equality. -/
theorem exists_best_latitude {k : ℝ} (hcos : 0 < cos x) (hk : 0 < k) :
    ∃ y, |y| ≤ π / 2 ∧ cosBetween x y k = √(sin x ^ 2 + cos x ^ 2 * k ^ 2) := by
  set n : ℝ := √(sin x ^ 2 + cos x ^ 2 * k ^ 2) with hn
  have hnsq : n ^ 2 = sin x ^ 2 + cos x ^ 2 * k ^ 2 := sq_sqrt (by positivity)
  have hnpos : 0 < n := sqrt_pos.mpr (by positivity)
  have hbest : |sin x / n| ≤ 1 := by
    rw [abs_div, abs_of_pos hnpos, div_le_one hnpos]
    refine abs_le_of_sq_le_sq ?_ hnpos.le
    rw [hnsq]
    exact le_add_of_nonneg_right (by positivity)
  have hsiny : sin (arcsin (sin x / n)) = sin x / n :=
    sin_arcsin (abs_le.mp hbest).1 (abs_le.mp hbest).2
  have hcosy : cos (arcsin (sin x / n)) = cos x * k / n := by
    rw [cos_arcsin, ← sqrt_sq (show 0 ≤ cos x * k / n by positivity)]
    congr 1
    field_simp
    linear_combination hnsq
  refine ⟨arcsin (sin x / n), abs_le.mpr (arcsin_mem_Icc _), ?_⟩
  rw [cosBetween, hsiny, hcosy]
  field_simp
  linear_combination -hnsq

/-- A meridian a quarter of a turn away or more is nearest at a pole, out of reach. -/
theorem nonneg_of_le_cosBetween (nonneg : 0 ≤ δ) (clear : δ < π / 2 - |x|) {y k : ℝ}
    (hy : |y| ≤ π / 2) (hle : cos δ ≤ cosBetween x y k) : 0 ≤ k := by
  have hpole := abs_sin_lt_cos nonneg clear
  have hx := abs_le.mp (show |x| ≤ π / 2 by linarith)
  by_contra! hneg
  have hfar : cos x * cos y * k ≤ 0 :=
    mul_nonpos_of_nonneg_of_nonpos
      (mul_nonneg (cos_nonneg_of_mem_Icc hx) (cos_nonneg_of_mem_Icc (abs_le.mp hy))) hneg.le
  have hsin : sin x * sin y ≤ |sin x| := by
    calc sin x * sin y
      _ ≤ |sin x| * |sin y| := (le_abs_self _).trans (abs_mul _ _).le
      _ ≤ |sin x| * 1 := by gcongr; exact abs_sin_le_one y
      _ = |sin x| := mul_one _
  rw [cosBetween] at hle
  linarith

/-- Short of the poles a meridian has a latitude within reach exactly when it is at most half
the width of the circle away, `k` being the cosine of its difference of longitude. -/
theorem exists_latitude_iff (nonneg : 0 ≤ δ) (clear : δ < π / 2 - |x|) (k : ℝ) :
    (∃ y, |y| ≤ π / 2 ∧ cos δ ≤ cosBetween x y k) ↔ cos (halfWidth x δ) ≤ k := by
  have hcosδ : 0 < cos δ := (abs_nonneg _).trans_lt (abs_sin_lt_cos nonneg clear)
  constructor
  · rintro ⟨y, hy, hle⟩
    have hk := nonneg_of_le_cosBetween nonneg clear hy hle
    have hsq : cos δ ^ 2 ≤ cosBetween x y k ^ 2 := by gcongr
    exact (cos_halfWidth_le_iff nonneg clear hk).mpr (hsq.trans (cosBetween_sq_le x y k))
  · intro hle
    have hcosx : 0 < cos x := cos_pos_of_mem_Ioo (abs_lt.mp (show |x| < π / 2 by linarith))
    have hcosw : 0 < cos (halfWidth x δ) :=
      cos_pos_of_mem_Ioo
        ⟨by linarith [pi_pos, halfWidth_nonneg nonneg clear], halfWidth_lt nonneg clear⟩
    have hk : 0 < k := hcosw.trans_le hle
    obtain ⟨y, hy, hbest⟩ := exists_best_latitude hcosx hk
    refine ⟨y, hy, ?_⟩
    rw [hbest, le_sqrt' hcosδ]
    exact (cos_halfWidth_le_iff nonneg clear hk.le).mp hle

end

/-- Two meridians are near each other one way around or the other. -/
theorem cos_le_cos_iff {w d : ℝ} (hw : 0 ≤ w) (hw' : w ≤ π) (hd : 0 ≤ d) (hd' : d ≤ 2 * π) :
    cos w ≤ cos d ↔ d ≤ w ∨ 2 * π - w ≤ d := by
  rcases le_total d π with h | h
  · rw [strictAntiOn_cos.le_iff_ge ⟨hw, hw'⟩ ⟨hd, h⟩]
    constructor
    · exact Or.inl
    · rintro (hle | hge) <;> linarith
  · rw [← cos_two_pi_sub d, strictAntiOn_cos.le_iff_ge ⟨hw, hw'⟩ ⟨by linarith, by linarith⟩]
    constructor
    · intro hle
      exact .inr (by linarith)
    · rintro (hle | hge) <;> linarith

namespace Point

theorem isValid_real_iff (p : Point ℝ) : p.isValid ↔ |p.lat| ≤ 90 ∧ |p.lng| ≤ 180 := by
  simp only [isValid, Bool.and_eq_true, decide_eq_true_eq, num_real, Nat.cast_ofNat, abs_le,
    and_assoc]

/-! ## Points of a circle -/

/-- Half the width of the circle of `radius` kilometres around a point, in degrees. -/
noncomputable def halfWidthDegrees (center : Point ℝ) (radius : ℝ) : ℝ :=
  toDegrees (halfWidth (toRadians center.lat) (radius / 6371))

/-- The differences of longitude, in degrees, between the valid points of a circle and its
centre. -/
def longitudeGaps (center : Point ℝ) (radius : ℝ) : Set ℝ :=
  {d | ∃ p : Point ℝ, p.isValid ∧ center.distance p ≤ radius ∧ |p.lng - center.lng| = d}

/-- The greatest difference of longitude, in degrees, between a valid point of the circle of
`radius` kilometres around `center` and the centre: half the width of the circle where it ends
short of the poles and of the antimeridian, else the way to the farther end of the longitudes. -/
noncomputable def circleWidth (center : Point ℝ) (radius : ℝ) : ℝ :=
  if radius / 6371 < π / 2 - |toRadians center.lat| ∧
      |center.lng| + center.halfWidthDegrees radius < 180 then
    center.halfWidthDegrees radius
  else 180 + |center.lng|

theorem abs_lng_sub_le (center : Point ℝ) {p : Point ℝ} (hp : p.isValid) :
    |p.lng - center.lng| ≤ 180 + |center.lng| := by
  have := (p.isValid_real_iff.mp hp).2
  calc |p.lng - center.lng|
    _ ≤ |p.lng| + |center.lng| := abs_sub _ _
    _ ≤ 180 + |center.lng| := by gcongr

/-- One end of the longitudes is as far from a longitude as any. -/
theorem exists_end (l : ℝ) : ∃ e : ℝ, |e| ≤ 180 ∧ |e - l| = 180 + |l| := by
  rcases le_total 0 l with h | h
  · refine ⟨-180, by norm_num, ?_⟩
    rw [abs_of_nonneg h, abs_of_nonpos (by linarith)]
    ring
  · refine ⟨180, by norm_num, ?_⟩
    rw [abs_of_nonpos h, abs_of_nonneg (by linarith)]
    ring

variable {center : Point ℝ} {radius : ℝ}

theorem mem_longitudeGaps {l : ℝ} (hl : |l| ≤ 180)
    (meets : ∃ y, |y| ≤ 90 ∧ center.distance ⟨y, l⟩ ≤ radius) :
    |l - center.lng| ∈ center.longitudeGaps radius := by
  obtain ⟨y, hy, hdist⟩ := meets
  exact ⟨⟨y, l⟩, (isValid_real_iff _).mpr ⟨hy, hl⟩, hdist, rfl⟩

/-- Short of the poles a meridian meets the circle when it is at most half its width away, one
way around or the other. -/
theorem exists_on_meridian_iff (valid : center.isValid) (nonneg : 0 ≤ radius)
    (clear : radius / 6371 < π / 2 - |toRadians center.lat|) {l : ℝ} (hl : |l| ≤ 180) :
    (∃ y, |y| ≤ 90 ∧ center.distance ⟨y, l⟩ ≤ radius) ↔
      |l - center.lng| ≤ center.halfWidthDegrees radius ∨
        360 - center.halfWidthDegrees radius ≤ |l - center.lng| := by
  have hangle : 0 ≤ radius / 6371 := by positivity
  have hx := abs_nonneg (toRadians center.lat)
  have hpi : radius / 6371 ≤ π := by linarith [pi_pos]
  have hdist (y : ℝ) : center.distance ⟨y, l⟩ ≤ radius ↔ cos (radius / 6371) ≤
      cosBetween (toRadians center.lat) (toRadians y) (cos (toRadians |l - center.lng|)) :=
    distance_le_iff nonneg hpi
  have hturn : toRadians (360 : ℝ) = 2 * π := by
    rw [toRadians_real]
    ring
  have hnear : toRadians |l - center.lng| ≤ 2 * π := by
    rw [← hturn, toRadians_le_toRadians]
    have := abs_lng_sub_le center ((isValid_real_iff ⟨0, l⟩).mpr ⟨by norm_num, hl⟩)
    linarith [(center.isValid_real_iff.mp valid).2]
  calc (∃ y, |y| ≤ 90 ∧ center.distance ⟨y, l⟩ ≤ radius)
    _ ↔ ∃ y, |y| ≤ π / 2 ∧ cos (radius / 6371) ≤
        cosBetween (toRadians center.lat) y (cos (toRadians |l - center.lng|)) := by
      constructor
      · rintro ⟨y, hy, hle⟩
        exact ⟨toRadians y, abs_toRadians_le_iff.mpr hy, (hdist y).mp hle⟩
      · rintro ⟨y, hy, hle⟩
        rw [← toRadians_toDegrees y] at hy hle
        exact ⟨toDegrees y, abs_toRadians_le_iff.mp hy, (hdist _).mpr hle⟩
    _ ↔ cos (halfWidth (toRadians center.lat) (radius / 6371)) ≤
        cos (toRadians |l - center.lng|) := exists_latitude_iff hangle clear _
    _ ↔ _ := by
      rw [cos_le_cos_iff (halfWidth_nonneg hangle clear)
        ((halfWidth_lt hangle clear).le.trans (by linarith [pi_pos]))
        (abs_toRadians (l - center.lng) ▸ abs_nonneg _) hnear, ← hturn,
        ← toRadians_toDegrees (halfWidth _ _), ← toRadians_sub, toRadians_le_toRadians,
        toRadians_le_toRadians, halfWidthDegrees]

/-- The nearer pole is as far away as the latitude of the centre says, on any meridian. -/
theorem exists_pole_within (valid : center.isValid)
    (reach : π / 2 - |toRadians center.lat| ≤ radius / 6371) :
    ∃ y, |y| ≤ 90 ∧ ∀ l, center.distance ⟨y, l⟩ ≤ radius := by
  have hx := abs_toRadians_le_iff.mpr (center.isValid_real_iff.mp valid).1
  have south : toRadians (-90 : ℝ) = -(π / 2) := by
    rw [toRadians_real]
    ring
  rcases le_total 0 (toRadians center.lat) with h | h
  · rw [abs_of_nonneg h] at hx reach
    refine ⟨90, by norm_num, fun l => ?_⟩
    have hcos : center.cosAngle ⟨90, l⟩ = sin (toRadians center.lat) := by
      rw [cosAngle, cosBetween, toRadians_ninety, sin_pi_div_two, cos_pi_div_two]
      ring
    rw [distance_eq, hcos, arccos_eq_pi_div_two_sub_arcsin, arcsin_sin (by linarith) hx]
    linarith
  · rw [abs_of_nonpos h] at hx reach
    refine ⟨-90, by norm_num, fun l => ?_⟩
    have hcos : center.cosAngle ⟨-90, l⟩ = sin (-toRadians center.lat) := by
      rw [cosAngle, cosBetween, south, sin_neg, sin_neg, cos_neg, sin_pi_div_two, cos_pi_div_two]
      ring
    rw [distance_eq, hcos, arccos_eq_pi_div_two_sub_arcsin, arcsin_sin (by linarith) hx]
    linarith

/-- Inside the longitudes the circle is widest where a meridian touches it. -/
theorem isGreatest_of_inside (valid : center.isValid) (nonneg : 0 ≤ radius)
    (clear : radius / 6371 < π / 2 - |toRadians center.lat|)
    (inside : |center.lng| + center.halfWidthDegrees radius < 180) :
    IsGreatest (center.longitudeGaps radius) (center.halfWidthDegrees radius) := by
  have hw : 0 ≤ center.halfWidthDegrees radius :=
    mul_nonneg (halfWidth_nonneg (by positivity) clear) (by positivity)
  constructor
  · have htouch : |center.lng + center.halfWidthDegrees radius - center.lng| =
        center.halfWidthDegrees radius := by rw [add_sub_cancel_left, abs_of_nonneg hw]
    have hl : |center.lng + center.halfWidthDegrees radius| ≤ 180 := by
      calc |center.lng + center.halfWidthDegrees radius|
        _ ≤ |center.lng| + |center.halfWidthDegrees radius| := abs_add_le _ _
        _ ≤ 180 := by rw [abs_of_nonneg hw]; exact inside.le
    have hmeets := (exists_on_meridian_iff valid nonneg clear hl).mpr (.inl htouch.le)
    exact htouch ▸ mem_longitudeGaps hl hmeets
  · rintro d ⟨p, hp, hdist, rfl⟩
    obtain ⟨hlat, hlng⟩ := p.isValid_real_iff.mp hp
    rcases (exists_on_meridian_iff valid nonneg clear hlng).mp ⟨p.lat, hlat, hdist⟩ with h | h
    · exact h
    · have := abs_lng_sub_le center hp
      linarith

/-- A circle that meets the farther end of the longitudes is as wide as can be. -/
theorem isGreatest_of_crossing
    (meets : ∀ e : ℝ, |e| ≤ 180 → |e - center.lng| = 180 + |center.lng| →
      ∃ y, |y| ≤ 90 ∧ center.distance ⟨y, e⟩ ≤ radius) :
    IsGreatest (center.longitudeGaps radius) (180 + |center.lng|) := by
  obtain ⟨e, he, hfar⟩ := exists_end center.lng
  constructor
  · exact hfar ▸ mem_longitudeGaps he (meets e he hfar)
  · rintro d ⟨p, hp, -, rfl⟩
    exact abs_lng_sub_le center hp

/-- The width of a circle is the greatest difference of longitude between one of its valid
points and its centre. -/
theorem isGreatest_circleWidth (valid : center.isValid) (nonneg : 0 ≤ radius) :
    IsGreatest (center.longitudeGaps radius) (center.circleWidth radius) := by
  rw [circleWidth]
  split
  · rename_i h
    exact isGreatest_of_inside valid nonneg h.1 h.2
  · rename_i h
    refine isGreatest_of_crossing fun e he hfar => ?_
    rcases lt_or_ge (radius / 6371) (π / 2 - |toRadians center.lat|) with clear | reach
    · have hwide : 180 ≤ |center.lng| + center.halfWidthDegrees radius :=
        le_of_not_gt fun inside => h ⟨clear, inside⟩
      exact (exists_on_meridian_iff valid nonneg clear he).mpr (.inr (by linarith))
    · obtain ⟨y, hy, hpole⟩ := exists_pole_within valid reach
      exact ⟨y, hy, hpole e⟩

end Point

end GeoDispatch
