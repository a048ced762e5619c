import GeoDispatch.Sphere.Point

/-!
# Boxes of latitudes and longitudes

A box is a range of latitudes times a range of longitudes, both with their ends.
`BoundingBox.ofPoints` is the least box around a list of points, and
`BoundingBox.around` a box that reaches a given distance from its centre, reckoned on
a flat map with 111 kilometres to the degree.
-/

namespace GeoDispatch

open Scalar

/-- A range of latitudes times a range of longitudes. -/
structure BoundingBox (α : Type) where
  minLat : α
  maxLat : α
  minLng : α
  maxLng : α
deriving DecidableEq

namespace BoundingBox

section

variable {α : Type} [Scalar α]

/-- The box that holds one point. -/
def ofPoint (p : Point α) : BoundingBox α := ⟨p.lat, p.lat, p.lng, p.lng⟩

/-- The least box that holds a box and a point. -/
def extend (b : BoundingBox α) (p : Point α) : BoundingBox α where
  minLat := minNum b.minLat p.lat
  maxLat := maxNum b.maxLat p.lat
  minLng := minNum b.minLng p.lng
  maxLng := maxNum b.maxLng p.lng

/-- The least box around the points, none for no points. -/
def ofPoints : List (Point α) → Option (BoundingBox α)
  | [] => none
  | p :: ps => some (ps.foldl extend (ofPoint p))

/-- Whether a point lies in the box or on its border. -/
def contains (b : BoundingBox α) (p : Point α) : Bool :=
  b.minLat ≤ p.lat && p.lat ≤ b.maxLat && b.minLng ≤ p.lng && p.lng ≤ b.maxLng

/-- The middle of the box. -/
def center (b : BoundingBox α) : Point α where
  lat := (b.minLat + b.maxLat) / num 2
  lng := (b.minLng + b.maxLng) / num 2

end

/-- The box that reaches `radius` kilometres from `center` in each direction of a flat
map.  Latitudes end at the poles; longitudes may pass the antimeridian. -/
def around {α : Type} [Trigonometric α] (center : Point α) (radius : α) : BoundingBox α :=
  let dlat := radius / num 111
  let dlng := radius / (num 111 * Trigonometric.cos (toRadians center.lat))
  { minLat := maxNum (center.lat - dlat) (-num 90)
    maxLat := minNum (center.lat + dlat) (num 90)
    minLng := center.lng - dlng
    maxLng := center.lng + dlng }

end BoundingBox

end GeoDispatch
