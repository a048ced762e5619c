/-!
# Floating-point numbers as exact fractions

A finite double is an integer times a power of two.  This module reads that pair off
the bits (`Binary.ofFloat`), orders doubles by their bits (`totalKey`, in which `-0`
stands before `0` and a positive NaN after infinity), finds the integer nearest to a double
(`nearestInt`), and takes the exact remainder of one double by another (`remainder`), which
no rounding disturbs.
-/

namespace GeoDispatch

/-- The exact meaning of a double. -/
inductive Binary where
  /-- Not a number. -/
  | nan
  /-- An infinity, with its sign. -/
  | infinite (negative : Bool)
  /-- The value `± mantissa * 2 ^ exponent`. -/
  | finite (negative : Bool) (mantissa : Nat) (exponent : Int)
deriving DecidableEq

namespace Binary

/-- The meaning of the 64 bits `b` of a double: a sign bit, eleven exponent bits and
fifty-two fraction bits, with a hidden leading one unless the exponent bits are zero. -/
def ofBits (b : Nat) : Binary :=
  let negative := b >>> 63 == 1
  let biased : Nat := b >>> 52 % 2048
  let fraction : Nat := b % 1 <<< 52
  if biased = 2047 then
    if fraction = 0 then .infinite negative else .nan
  else if biased = 0 then .finite negative fraction (-1074)
  else .finite negative (1 <<< 52 + fraction) ((biased : Int) - 1075)

/-- The meaning of a double. -/
def ofFloat (x : Float) : Binary :=
  ofBits x.toBits.toNat

end Binary

/-- The place of 64 bits in the total order of doubles: undefined values with a minus
sign, negative numbers by falling magnitude, `-0`, `0`, positive numbers by rising
magnitude, infinity, undefined values with a plus sign.  Different bits have different
places. -/
def totalKey (bits : UInt64) : Int :=
  let b := bits.toNat
  if b < 1 <<< 63 then b else (1 <<< 63 : Nat) - 1 - (b : Int)

theorem totalKey_inj {a b : UInt64} : totalKey a = totalKey b ↔ a = b := by
  refine ⟨fun h => UInt64.toNat_inj.1 ?_, fun h => h ▸ rfl⟩
  have := a.toNat_lt
  have := b.toNat_lt
  simp only [totalKey] at h
  split at h <;> split at h <;> omega

/-- The natural number nearest to `m * 2 ^ e`, the greater one from a midpoint. -/
def nearestNat (m : Nat) (e : Int) : Nat :=
  if 0 ≤ e then m <<< e.toNat else (m + 1 <<< ((-e).toNat - 1)) >>> (-e).toNat

/-- The integer nearest to a double, the one farther from zero from a midpoint, and zero
for a double that is not finite. -/
def nearestInt (x : Float) : Int :=
  match Binary.ofFloat x with
  | .finite negative m e => if negative then -nearestNat m e else nearestNat m e
  | _ => 0

/-- The double `± n * 2 ^ e`, exact when `n` has at most 53 bits and the result is in
range. -/
def ofScaled (negative : Bool) (n : Nat) (e : Int) : Float :=
  let x := (Float.ofNat n).scaleB e
  if negative then -x else x

/-- The exact remainder of `x` by `y` with the sign of `x`, not a number where it is
undefined. -/
def remainder (x y : Float) : Float :=
  match Binary.ofFloat x, Binary.ofFloat y with
  | .finite sx mx ex, .finite _ my ey =>
    if my = 0 then 0 / 0
    else
      let e := min ex ey
      ofScaled sx (mx <<< (ex - e).toNat % my <<< (ey - e).toNat) e
  | .finite _ _ _, .infinite _ => x
  | _, _ => 0 / 0

end GeoDispatch
