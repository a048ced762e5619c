import GeoDispatch.Proofs.Number.Real
import GeoDispatch.Sphere.GreatCircle
import Mathlib.Analysis.SpecialFunctions.Trigonometric.Angle

/-!
# Full turns

Bearings and longitudes are brought into a range of 360 degrees by full turns
(`normalizeBearing_within`, `normalizeLongitude_within`).  Formulas depend on differences of
longitude through sine and cosine only and do not see the turns.

The angle of a vector tells its direction (`sqrt_mul_cos_atan2`, `sqrt_mul_sin_atan2`), also for the
vector zero, whose direction is any; conversely the angle of a vector in a given direction is that
direction, up to a full turn (`exists_atan2_eq`).
-/

namespace GeoDispatch

open Real hiding sqrt
open Scalar (toRadians)
open Trigonometric (toDegrees atan2 modulo)

/-! ## Remainders by a full turn -/

theorem modulo_real (x : ℝ) : modulo x 360 = x + 360 * (-⌊x / 360⌋ : ℤ) := by
  change Int.fract (x / |360|) * |360| = _
  rw [abs_of_pos (by norm_num), ← Int.self_sub_floor]
  push_cast
  ring

theorem modulo_nonneg (x : ℝ) : 0 ≤ modulo x 360 :=
  mul_nonneg (Int.fract_nonneg _) (abs_nonneg _)

theorem modulo_lt (x : ℝ) : modulo x 360 < 360 := by
  change Int.fract (x / |360|) * |360| < 360
  have := Int.fract_lt_one (x / |360| : ℝ)
  rw [abs_of_pos (by norm_num)] at this ⊢
  linarith

theorem normalizeBearing_real (b : ℝ) : normalizeBearing b = modulo b 360 := by
  rw [normalizeBearing]
  exact if_neg (not_le.mpr (modulo_lt b))

/-- A bearing is brought into its range by full turns. -/
theorem normalizeBearing_within (b : ℝ) :
    0 ≤ normalizeBearing b ∧ normalizeBearing b < 360 ∧
      ∃ k : ℤ, normalizeBearing b = b + 360 * k := by
  rw [normalizeBearing_real]
  exact ⟨modulo_nonneg b, modulo_lt b, _, modulo_real b⟩

/-- A longitude is brought into its range by full turns. -/
theorem normalizeLongitude_within (l : ℝ) :
    -180 < normalizeLongitude l ∧ normalizeLongitude l ≤ 180 ∧
      ∃ k : ℤ, normalizeLongitude l = l + 360 * k := by
  have low := modulo_nonneg (l + 180)
  have high := modulo_lt (l + 180)
  have turns := modulo_real (l + 180)
  rw [normalizeLongitude]
  simp only [num_real, Nat.cast_ofNat]
  split
  · refine ⟨by linarith, by linarith, -⌊(l + 180) / 360⌋ + 1, ?_⟩
    rw [turns]
    push_cast
    ring
  · rename_i inside
    refine ⟨not_le.mp inside, by linarith, -⌊(l + 180) / 360⌋, ?_⟩
    rw [turns]
    ring

theorem toRadians_add_turns (x : ℝ) (k : ℤ) :
    toRadians (x + 360 * k) = toRadians x + k * (2 * π) := by
  rw [toRadians_real, toRadians_real]
  ring

theorem toDegrees_add_turns (x : ℝ) (k : ℤ) :
    toDegrees (toRadians x + k * (2 * π)) = x + 360 * k := by
  change (x * (π / 180) + k * (2 * π)) * (180 / π) = _
  field_simp
  ring

/-- The longitude, in degrees, that an angle `x` to the east of the longitude `l` leads to. -/
noncomputable def eastOf (l x : ℝ) : ℝ := normalizeLongitude (toDegrees (toRadians l + x))

theorem exists_toRadians_eastOf (l x : ℝ) :
    ∃ k : ℤ, toRadians (eastOf l x) = toRadians l + x + k * (2 * π) := by
  obtain ⟨-, -, k, turns⟩ := normalizeLongitude_within (toDegrees (toRadians l + x))
  refine ⟨k, ?_⟩
  rw [eastOf, turns, toRadians_add_turns, toRadians_toDegrees]

theorem cos_toRadians_eastOf (l x : ℝ) : cos (toRadians (eastOf l x)) = cos (toRadians l + x) := by
  obtain ⟨k, turns⟩ := exists_toRadians_eastOf l x
  rw [turns, cos_add_int_mul_two_pi]

theorem sin_toRadians_eastOf (l x : ℝ) : sin (toRadians (eastOf l x)) = sin (toRadians l + x) := by
  obtain ⟨k, turns⟩ := exists_toRadians_eastOf l x
  rw [turns, sin_add_int_mul_two_pi]

theorem cos_toRadians_eastOf_sub (l x : ℝ) : cos (toRadians (eastOf l x - l)) = cos x := by
  rw [toRadians_sub, cos_sub, cos_toRadians_eastOf, sin_toRadians_eastOf, ← cos_sub,
    add_sub_cancel_left]

theorem sin_toRadians_eastOf_sub (l x : ℝ) : sin (toRadians (eastOf l x - l)) = sin x := by
  rw [toRadians_sub, sin_sub, cos_toRadians_eastOf, sin_toRadians_eastOf, ← sin_sub,
    add_sub_cancel_left]

/-! ## Vectors and their angles -/

theorem sqrt_mul_cos_atan2 (y x : ℝ) : √(x ^ 2 + y ^ 2) * cos (atan2 y x) = x := by
  have polar := Complex.norm_mul_cos_arg ⟨x, y⟩
  rwa [Complex.norm_eq_sqrt_sq_add_sq] at polar

theorem sqrt_mul_sin_atan2 (y x : ℝ) : √(x ^ 2 + y ^ 2) * sin (atan2 y x) = y := by
  have polar := Complex.norm_mul_sin_arg ⟨x, y⟩
  rwa [Complex.norm_eq_sqrt_sq_add_sq] at polar

/-- The length of a vector does not matter to its angle. -/
theorem atan2_mul {r : ℝ} (pos : 0 < r) (y x : ℝ) : atan2 (r * y) (r * x) = atan2 y x := by
  have scaled := Complex.arg_real_mul ⟨x, y⟩ pos
  rwa [Complex.ofReal_mul'] at scaled

/-- A vector in a direction has that direction as its angle, up to a full turn. -/
theorem exists_atan2_eq {r : ℝ} (pos : 0 < r) (θ : ℝ) :
    ∃ k : ℤ, atan2 (r * sin θ) (r * cos θ) = θ + k * (2 * π) := by
  have turns := Complex.arg_cos_add_sin_mul_I_sub θ
  have vector : Complex.cos θ + Complex.sin θ * Complex.I = ⟨cos θ, sin θ⟩ := by
    rw [← Complex.ofReal_cos, ← Complex.ofReal_sin]
    exact (Complex.mk_eq_add_mul_I _ _).symm
  rw [vector] at turns
  refine ⟨⌊(π - θ) / (2 * π)⌋, ?_⟩
  rw [atan2_mul pos, ← sub_eq_iff_eq_add', mul_comm]
  exact turns

end GeoDispatch
