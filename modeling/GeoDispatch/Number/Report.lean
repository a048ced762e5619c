import GeoDispatch.Number.Decimal

/-!
# Figures in reports

Reports show a number in one of four forms: `exact` has seventeen digits and so tells
any two doubles apart, `kilometres` six places, `degrees` seven and `area` four.  The
last three write numbers of a million and above with an exponent and nine digits, and
give a result that rounds to zero no sign.
-/

namespace GeoDispatch

namespace Report

/-- A digit string with the sign of the number it came from. -/
def signed (negative : Bool) (s : String) : String :=
  if negative then "-" ++ s else s

/-- Applies a form to the magnitude of a finite number; the other numbers have names. -/
def render (form : Bool → Nat → Int → String) (x : Float) : String :=
  match Binary.ofFloat x with
  | .nan => "NaN"
  | .infinite negative => signed negative "inf"
  | .finite negative m e => form negative m e

/-- One digit, a point, sixteen digits and an exponent. -/
def exact : Float → String :=
  render fun negative m e => signed negative (Decimal.scientific 16 m e)

/-- Whether `m * 2 ^ e` is a million or more. -/
def isLarge (m : Nat) (e : Int) : Bool :=
  1000000 <<< (-e).toNat ≤ m <<< e.toNat

/-- A number with a fixed count of places, in exponent form from a million on. -/
def rounded (places : Nat) : Float → String :=
  render fun negative m e =>
    if isLarge m e then signed negative (Decimal.scientific 8 m e)
    else
      let (r, s) := Decimal.fixed places m e
      signed (negative && r != 0) s

/-- A length in kilometres. -/
def kilometres : Float → String := rounded 6

/-- An angle in degrees. -/
def degrees : Float → String := rounded 7

/-- An area in square kilometres. -/
def area : Float → String := rounded 4

end Report

end GeoDispatch
