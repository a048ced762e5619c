import GeoDispatch.Geohash.Basic
import GeoDispatch.Sphere.BoundingBox

/-!
# Encoding points and decoding boxes

The world is halved again and again, by longitude and by latitude in turn; a bit says
which half was taken.  `Geohash.encode` follows the half that holds a point,
`Geohash.bounds` the halves that the bits of a hash name, so both walk through the same
boxes.
-/

namespace GeoDispatch

open Scalar

/-- What a halving divides. -/
inductive Axis where
  | lng
  | lat
deriving DecidableEq

/-- The axis of the next halving. -/
def Axis.other : Axis → Axis
  | lng => lat
  | lat => lng

namespace BoundingBox

variable {α : Type} [Scalar α]

/-- All latitudes and longitudes. -/
def world : BoundingBox α := ⟨-num 90, num 90, -num 180, num 180⟩

/-- Where a halving of the box along an axis cuts. -/
def mid (b : BoundingBox α) : Axis → α
  | .lng => (b.minLng + b.maxLng) / num 2
  | .lat => (b.minLat + b.maxLat) / num 2

/-- The upper or the lower half of the box along an axis. -/
def half (b : BoundingBox α) : Axis → (upper : Bool) → BoundingBox α
  | .lng, true => { b with minLng := b.mid .lng }
  | .lng, false => { b with maxLng := b.mid .lng }
  | .lat, true => { b with minLat := b.mid .lat }
  | .lat, false => { b with maxLat := b.mid .lat }

/-- Whether a point belongs to the upper half of the box, to which the cut itself
belongs.  An undefined coordinate belongs to the lower one. -/
def isUpper (b : BoundingBox α) (p : Point α) : Axis → Bool
  | .lng => b.mid .lng ≤ p.lng
  | .lat => b.mid .lat ≤ p.lat

/-- The box left by the halvings that the bits name. -/
def refine (b : BoundingBox α) : Axis → List Bool → BoundingBox α
  | _, [] => b
  | axis, upper :: bits => (b.half axis upper).refine axis.other bits

/-- The bits of the first `n` halvings that follow a point. -/
def descend (b : BoundingBox α) (p : Point α) : Axis → (n : Nat) → List Bool
  | _, 0 => []
  | axis, n + 1 =>
    let upper := b.isUpper p axis
    upper :: (b.half axis upper).descend p axis.other n

end BoundingBox

namespace Geohash

variable {α : Type} [Scalar α]

/-- The number of digits that a hash is asked for, brought into the range from one to
twelve. -/
def clampPrecision (n : Nat) : Nat := max minPrecision (min n maxPrecision)

/-- The hash of a point with `precision` digits, at least one and at most twelve. -/
def encode (p : Point α) (precision : Nat) : Geohash :=
  ⟨digitsOfBits (BoundingBox.world.descend p .lng (5 * clampPrecision precision))⟩

/-- The box of a hash. -/
def bounds (α : Type) [Scalar α] (h : Geohash) : BoundingBox α :=
  BoundingBox.world.refine .lng h.bits

/-- The box of the letters of a text; characters outside the alphabet are skipped, and
a text without any letter is an error. -/
def decodeBounds (α : Type) [Scalar α] (s : String) : Except GeoError (BoundingBox α) :=
  match digitsIn s with
  | [] => .error (.invalidGeohash s)
  | ds => .ok (bounds α ⟨ds⟩)

/-- The middle of the box of a text. -/
def decode (α : Type) [Scalar α] (s : String) : Except GeoError (Point α) :=
  (decodeBounds α s).map BoundingBox.center

end Geohash

end GeoDispatch
