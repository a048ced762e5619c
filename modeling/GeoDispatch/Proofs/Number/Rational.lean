import GeoDispatch.Number.Scalar
import Mathlib.Algebra.Order.Field.Rat

/-!
# Formulas over the rationals

Boxes, bisections and polygons are written over any numbers.  Read over the rationals they compute
without rounding, which is how the statements about boxes of hashes and about the points of polygons
are meant.
-/

namespace GeoDispatch

instance : Scalar ℚ where
  num n := n
  decimal digits places := digits / 10 ^ places
  decLt := inferInstance
  decLe := inferInstance
  minNum x y := if x < y then x else y
  maxNum x y := if y < x then x else y
  abs x := |x|
  totalLe x y := x ≤ y
  toRadians x := x * (17453292519943295 / 10 ^ 18)

@[simp] theorem num_rat (n : Nat) : (Scalar.num n : ℚ) = n := rfl

@[simp] theorem decimal_rat (digits places : Nat) :
    (Scalar.decimal digits places : ℚ) = digits / 10 ^ places := rfl

theorem minNum_rat (x y : ℚ) : Scalar.minNum x y = min x y := (min_def_lt x y).symm

theorem maxNum_rat (x y : ℚ) : Scalar.maxNum x y = max x y := by
  rw [max_comm]
  exact (max_def_lt y x).symm

end GeoDispatch
