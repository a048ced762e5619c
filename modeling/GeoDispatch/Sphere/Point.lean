import GeoDispatch.Number.Scalar

/-!
# Coordinates

A point is a latitude and a longitude in degrees.  Nothing bounds them: a point that
came from elsewhere is asked for `Point.isValid` before it is trusted.
-/

namespace GeoDispatch

variable {α : Type} [Scalar α]

open Scalar

/-- A place on the sphere, in degrees. -/
structure Point (α : Type) where
  lat : α
  lng : α
deriving DecidableEq

/-- Whether the latitude lies in `[-90, 90]` and the longitude in `[-180, 180]`. -/
def Point.isValid (p : Point α) : Bool :=
  -num 90 ≤ p.lat && p.lat ≤ num 90 && -num 180 ≤ p.lng && p.lng ≤ num 180

/-- Equality of coordinates as numbers. -/
def Point.same (p q : Point α) : Bool :=
  p.lat == q.lat && p.lng == q.lng

end GeoDispatch
