import Mathlib.Algebra.Order.Floor.Ring
import Mathlib.Analysis.SpecialFunctions.Complex.Arg
import Mathlib.Analysis.SpecialFunctions.Trigonometric.Inverse
import GeoDispatch.Number.Scalar

/-!
# Formulas over the reals

Distances and bearings are written over any numbers with angles.  Read over the reals the
functions are the ones of analysis and nothing is rounded.
-/

namespace GeoDispatch

open scoped Real

open Classical in
noncomputable instance : Scalar ℝ where
  num n := n
  decimal digits places := digits / 10 ^ places
  decLt := inferInstance
  decLe := inferInstance
  minNum x y := if x < y then x else y
  maxNum x y := if y < x then x else y
  abs x := |x|
  totalLe x y := x ≤ y
  toRadians x := x * (π / (180 : ℕ))

noncomputable instance : Trigonometric ℝ where
  sqrt := Real.sqrt
  sin := Real.sin
  cos := Real.cos
  asin := Real.arcsin
  atan2 y x := Complex.arg ⟨x, y⟩
  toDegrees x := x * ((180 : ℕ) / π)
  modulo x y := Int.fract (x / |y|) * |y|
  truncate x := ⌊x⌋₊

@[simp] theorem num_real (n : Nat) : (Scalar.num n : ℝ) = n := rfl

@[simp] theorem decimal_real (digits places : Nat) :
    (Scalar.decimal digits places : ℝ) = digits / 10 ^ places := rfl

theorem minNum_real (x y : ℝ) : Scalar.minNum x y = min x y := by
  refine Eq.trans ?_ (min_def_lt x y).symm
  rfl

theorem maxNum_real (x y : ℝ) : Scalar.maxNum x y = max x y := by
  rw [max_comm]
  refine Eq.trans ?_ (max_def_lt y x).symm
  rfl

theorem toRadians_real (x : ℝ) : Scalar.toRadians x = x * (π / 180) := rfl

@[simp] theorem toRadians_zero : Scalar.toRadians (0 : ℝ) = 0 := zero_mul _

theorem toRadians_sub (x y : ℝ) :
    Scalar.toRadians (x - y) = Scalar.toRadians x - Scalar.toRadians y :=
  sub_mul x y (π / 180)

@[simp] theorem toRadians_le_toRadians {x y : ℝ} :
    Scalar.toRadians x ≤ Scalar.toRadians y ↔ x ≤ y :=
  mul_le_mul_iff_of_pos_right (by positivity)

@[simp] theorem toRadians_inj {x y : ℝ} : Scalar.toRadians x = Scalar.toRadians y ↔ x = y :=
  mul_left_inj' (by positivity)

@[simp] theorem abs_toRadians (x : ℝ) : |Scalar.toRadians x| = Scalar.toRadians |x| := by
  rw [toRadians_real, toRadians_real, abs_mul, abs_of_pos (by positivity : 0 < π / 180)]

theorem toRadians_ninety : Scalar.toRadians (90 : ℝ) = π / 2 := by
  rw [toRadians_real]
  ring

theorem abs_toRadians_le_iff {x : ℝ} : |Scalar.toRadians x| ≤ π / 2 ↔ |x| ≤ 90 := by
  rw [abs_toRadians, ← toRadians_ninety, toRadians_le_toRadians]

/-- Off the poles parallels have a length. -/
theorem cos_toRadians_pos {x : ℝ} (offPole : |x| < 90) : 0 < Real.cos (Scalar.toRadians x) := by
  have hx : |Scalar.toRadians x| < π / 2 := by
    rw [abs_toRadians, ← toRadians_ninety, ← not_le, toRadians_le_toRadians]
    exact not_le.mpr offPole
  exact Real.cos_pos_of_mem_Ioo (abs_lt.mp hx)

@[simp] theorem toRadians_toDegrees (x : ℝ) :
    Scalar.toRadians (Trigonometric.toDegrees x) = x := by
  change x * (180 / π) * (π / 180) = x
  field_simp

end GeoDispatch
