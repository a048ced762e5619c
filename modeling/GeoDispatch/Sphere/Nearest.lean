import GeoDispatch.Sphere.BoundingBox
import GeoDispatch.Sphere.GreatCircle

/-!
# Points near a centre

`nearest` lists the points of a list that lie within a radius, nearest first.  A box
around the centre rejects far points before any distance is computed.
-/

namespace GeoDispatch

open Scalar

variable {α : Type} [Trigonometric α]

/-- A point of a list, its position there, and its distance from a centre. -/
structure NearPoint (α : Type) where
  index : Nat
  point : Point α
  distance : α

/-- The points in a box and within `radius` of `center`, in the order of the list. -/
def within (box : BoundingBox α) (center : Point α) (radius : α)
    (points : List (Point α)) : List (NearPoint α) :=
  points.zipIdx.filterMap fun (p, i) =>
    if box.contains p then
      let d := center.distance p
      if d ≤ radius then some ⟨i, p, d⟩ else none
    else none

/-- The points within `radius` kilometres of `center` by increasing distance, points at
equal distance in the order of the list. -/
def nearest (center : Point α) (points : List (Point α)) (radius : α) :
    List (NearPoint α) :=
  (within (BoundingBox.around center radius) center radius points).mergeSort
    fun a b => totalLe a.distance b.distance

end GeoDispatch
