import GeoDispatch.Number.Binary

/-!
# Decimal text of exact fractions

A finite double is a fraction, so each of its decimal texts is one rounded quotient of
integers.  `roundHalfEven` rounds a quotient to the nearest integer, a half to the even
neighbour; `fixed` writes a fraction with a given number of places, and `scientific`
with one digit before the point and an exponent.
-/

namespace GeoDispatch

namespace Decimal

/-- The integer nearest to `n / d`, a half going to the even neighbour. -/
def roundHalfEven (n d : Nat) : Nat :=
  let q := n / d
  let r := n % d
  if 2 * r < d then q else if d < 2 * r then q + 1 else q + q % 2

/-- Numerator and denominator of `m * 2 ^ e * 10 ^ p`. -/
def fraction (m : Nat) (e p : Int) : Nat × Nat :=
  (m <<< e.toNat * Nat.pow 10 p.toNat, 1 <<< (-e).toNat * Nat.pow 10 (-p).toNat)

/-- The number of decimal digits of `n`, one for zero. -/
def width (n : Nat) : Nat := (Nat.toDigits 10 n).length

/-- The exponent `x` with `10 ^ x ≤ n / d < 10 ^ (x + 1)`, for a positive fraction. -/
def magnitude (n d : Nat) : Int :=
  if d ≤ n then width (n / d) - 1
  else
    let w := width (d / n)
    if d ≤ n * Nat.pow 10 (w - 1) then 1 - (w : Int) else -(w : Int)

/-- The digits of `n`, filled with zeros on the left up to `w` digits. -/
def padded (w n : Nat) : List Char :=
  let ds := Nat.toDigits 10 n
  List.replicate (w - ds.length) '0' ++ ds

/-- The digits of `n` with a point before the last `places` of them. -/
def withPoint (places n : Nat) : String :=
  let ds := padded (places + 1) n
  let whole := ds.take (ds.length - places)
  String.ofList (if places = 0 then whole else whole ++ '.' :: ds.drop (ds.length - places))

/-- The value `m * 2 ^ e` with `places` digits after the point, and the integer that
these digits spell. -/
def fixed (places m : Nat) (e : Int) : Nat × String :=
  let (n, d) := fraction m e places
  let r := roundHalfEven n d
  (r, withPoint places r)

/-- The value `m * 2 ^ e` with one digit before the point and `places` after it, and an
exponent after `e`, without a plus sign and without leading zeros. -/
def scientific (places m : Nat) (e : Int) : String :=
  let (n, d) := fraction m e 0
  let x := if m = 0 then 0 else magnitude n d
  let (n, d) := fraction m e (places - x)
  let r := roundHalfEven n d
  let (r, x) := if Nat.pow 10 (places + 1) ≤ r then (r / 10, x + 1) else (r, x)
  withPoint places r ++ "e" ++ toString x

end Decimal

end GeoDispatch
