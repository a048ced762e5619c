import GeoDispatch.Geohash.Codec
import GeoDispatch.Geohash.Neighbor
import GeoDispatch.Sphere.GreatCircle

/-!
# Covering areas with hashes

`coverBox` collects the hashes of a grid of ten by ten samples of a box, and
`coverCircle` the hash of a centre with one layer of neighbours, or two for a wide
circle, at a precision chosen by the radius.
-/

namespace GeoDispatch

namespace Geohash

open Scalar

section

variable {α : Type} [Scalar α]

/-- The number of digits whose boxes are about as wide as a radius in kilometres. -/
def precisionForRadius (radius : α) : Nat :=
  if num 5000 < radius then 1
  else if num 625 < radius then 2
  else if num 156 < radius then 3
  else if num 39 < radius then 4
  else if decimal 49 1 < radius then 5
  else if decimal 12 1 < radius then 6
  else if decimal 153 3 < radius then 7
  else if decimal 38 3 < radius then 8
  else 9

/-- The samples taken of a box along each axis. -/
def samples : Nat := 10

/-- Sample `i` along one axis and `j` along the other. -/
def sample (b : BoundingBox α) (i j : Nat) : Point α :=
  let lat := (b.maxLat - b.minLat) / num (samples - 1)
  let lng := (b.maxLng - b.minLng) / num (samples - 1)
  ⟨b.minLat + lat * num i, b.minLng + lng * num j⟩

/-- The hashes of the samples of a box, in increasing order. -/
def coverBox (b : BoundingBox α) (precision : Nat) : List Geohash :=
  sorted <| (List.range samples).flatMap fun i =>
    (List.range samples).map fun j => encode (sample b i j) precision

/-- Circles above this radius in kilometres are covered by two layers of neighbours. -/
def wideRadius : α := num 5

/-- The hashes around the hash of a centre that cover a circle, in increasing order. -/
def coverCircle (center : Point α) (radius : α) : List Geohash :=
  let block := (encode center (precisionForRadius radius)).block
  sorted (if wideRadius < radius then block.flatMap Geohash.block ++ block else block)

end

/-- Whether the middle of the box of a text lies within a radius of a centre; a text
that is no hash lies nowhere. -/
def centerWithin {α : Type} [Trigonometric α] (s : String) (center : Point α)
    (radius : α) : Bool :=
  match decode α s with
  | .ok p => center.distance p ≤ radius
  | .error _ => false

end Geohash

end GeoDispatch
