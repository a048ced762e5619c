import GeoDispatch.Number.Binary

/-!
# The numbers that formulas run on

Distances, boxes, bisections and areas are written once, over any type of numbers that
offers the operations of `Scalar` (field operations, decidable comparison, least and
greatest, a total order for sorting) and, where angles occur, of `Trigonometric`.  The
program runs them on doubles, in the order in which they are written; a statement about
a formula may read it over the rationals or the reals instead.
-/

namespace GeoDispatch

/-- Numbers with field operations and decidable comparison. -/
class Scalar (α : Type) extends Add α, Sub α, Mul α, Div α, Neg α, LT α, LE α, BEq α where
  /-- The number `n`. -/
  num : Nat → α
  /-- The number `digits / 10 ^ places`. -/
  decimal : (digits places : Nat) → α
  decLt : DecidableLT α
  decLe : DecidableLE α
  /-- The lesser of two numbers, the second when they are equal; of a number and an
  undefined value, the number. -/
  minNum : α → α → α
  /-- The greater of two numbers, with the same rules. -/
  maxNum : α → α → α
  /-- The magnitude of a number. -/
  abs : α → α
  /-- The total order used for sorting. -/
  totalLe : α → α → Bool
  /-- An angle in degrees, in radians. -/
  toRadians : α → α

attribute [reducible, instance] Scalar.decLt Scalar.decLe

/-- Numbers with the functions of spherical trigonometry. -/
class Trigonometric (α : Type) extends Scalar α where
  sqrt : α → α
  sin : α → α
  cos : α → α
  asin : α → α
  /-- The angle of the vector `(x, y)`, given as `atan2 y x`. -/
  atan2 : α → α → α
  /-- An angle in radians, in degrees. -/
  toDegrees : α → α
  /-- The remainder of `x` by `y` in `[0, |y|)`. -/
  modulo : α → α → α
  /-- The integer part of a number, zero for negative and undefined values. -/
  truncate : α → Nat

instance : Scalar Float where
  num n := Float.ofNat n
  decimal digits places := Float.ofScientific digits true places
  decLt := inferInstance
  decLe := inferInstance
  minNum x y := if x < y || y.isNaN then x else y
  maxNum x y := if y < x || y.isNaN then x else y
  abs := Float.abs
  totalLe x y := totalKey x.toBits ≤ totalKey y.toBits
  toRadians x := x * 0.017453292519943295

instance : Trigonometric Float where
  sqrt := Float.sqrt
  sin := Float.sin
  cos := Float.cos
  asin := Float.asin
  atan2 := Float.atan2
  toDegrees x := x * 57.29577951308232
  modulo x y :=
    let r := remainder x y
    if r < 0 then r + y.abs else r
  truncate x := x.toUInt64.toNat

end GeoDispatch
