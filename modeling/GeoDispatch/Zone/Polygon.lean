import GeoDispatch.Sphere.BoundingBox
import GeoDispatch.Sphere.GreatCircle

/-!
# Polygons

A polygon is a ring of vertices, the last of which is joined to the first.  Containment is
decided on the flat map of latitudes and longitudes by the parity of the edges that a ray
eastward crosses; `area` is reckoned on the same flat map, `perimeter` along great circles.
Fewer than three vertices enclose nothing.
-/

namespace GeoDispatch

open Scalar

/-- A ring of vertices. -/
structure Polygon (α : Type) where
  points : List (Point α)
deriving DecidableEq

namespace Polygon

section

variable {α : Type} [Scalar α]

/-- The number of vertices. -/
def size (g : Polygon α) : Nat := g.points.length

/-- Whether there are at least three vertices, all in range. -/
def isValid (g : Polygon α) : Bool := 3 ≤ g.size && g.points.all Point.isValid

/-- The edges: each vertex with the next one, the last with the first. -/
def edges (g : Polygon α) : List (Point α × Point α) :=
  g.points.zip (g.points.rotateLeft 1)

/-- Whether the ray from `p` toward growing longitudes crosses the edge from `u` to `v`:
just one end lies north of `p`, and the edge passes east of it. -/
def crosses (p u v : Point α) : Bool :=
  decide (p.lat < v.lat) != decide (p.lat < u.lat) &&
    decide (p.lng < (u.lng - v.lng) * (p.lat - v.lat) / (u.lat - v.lat) + v.lng)

/-- Whether a point lies inside: the ray from it crosses an odd number of edges. -/
def contains (g : Polygon α) (p : Point α) : Bool :=
  3 ≤ g.size && g.edges.foldl (fun inside e => inside != crosses p e.1 e.2) false

/-- The least box around the vertices. -/
def boundingBox (g : Polygon α) : Option (BoundingBox α) := BoundingBox.ofPoints g.points

/-- The mean of the vertices. -/
def centroid (g : Polygon α) : Option (Point α) :=
  if g.points.isEmpty then none
  else
    let n := num g.size
    let sum := g.points.foldl (fun s p => Point.mk (s.lat + p.lat) (s.lng + p.lng))
      ⟨num 0, num 0⟩
    some ⟨sum.lat / n, sum.lng / n⟩

/-- The signed area between an edge and the origin, doubled, in square radians. -/
def shoelace (u v : Point α) : α :=
  toRadians u.lng * toRadians v.lat - toRadians v.lng * toRadians u.lat

/-- The area in square kilometres of the figure on a flat map. -/
def area (g : Polygon α) : α :=
  if g.size < 3 then num 0
  else
    let twice := g.edges.foldl (fun s e => s + shoelace e.1 e.2) (num 0)
    Scalar.abs twice / num 2 * earthRadius α * earthRadius α

end

/-- The length in kilometres of all edges. -/
def perimeter {α : Type} [Trigonometric α] (g : Polygon α) : α :=
  if g.size < 2 then num 0
  else g.edges.foldl (fun s e => s + e.1.distance e.2) (num 0)

end Polygon

end GeoDispatch
