import GeoDispatch.Sphere.Point

/-!
# Great circles

Distances, bearings, destinations and midpoints on a sphere of radius 6371 kilometres.
Angles are degrees outside and radians inside; bearings count clockwise from north.
-/

namespace GeoDispatch

open Scalar Trigonometric

variable {α : Type} [Trigonometric α]

/-- The radius of the sphere in kilometres. -/
def earthRadius (α : Type) [Scalar α] : α := num 6371

/-- A bearing brought into `[0, 360)`.  A tiny negative angle has a remainder that
rounds to 360, which counts as 0. -/
def normalizeBearing (deg : α) : α :=
  let b := modulo deg (num 360)
  if num 360 ≤ b then num 0 else b

/-- A longitude brought into `(-180, 180]`. -/
def normalizeLongitude (lng : α) : α :=
  let l := modulo (lng + num 180) (num 360) - num 180
  if l ≤ -num 180 then l + num 360 else l

namespace Point

/-- The square of the half chord between two points of the unit sphere. -/
def haversine (p q : Point α) : α :=
  let lat1 := toRadians p.lat
  let lat2 := toRadians q.lat
  let dlat := lat2 - lat1
  let dlng := toRadians (q.lng - p.lng)
  let s := sin (dlat * decimal 5 1)
  let t := sin (dlng * decimal 5 1)
  s * s + cos lat1 * cos lat2 * t * t

/-- The length in kilometres of the shortest way between two points. -/
def distance (p q : Point α) : α :=
  num 2 * earthRadius α * asin (sqrt (haversine p q))

/-- The bearing at which the shortest way from `p` to `q` starts, in `[0, 360)`. -/
def bearing (p q : Point α) : α :=
  let lat1 := toRadians p.lat
  let lat2 := toRadians q.lat
  let dlng := toRadians (q.lng - p.lng)
  let y := sin dlng * cos lat2
  let x := cos lat1 * sin lat2 - sin lat1 * cos lat2 * cos dlng
  normalizeBearing (toDegrees (atan2 y x))

/-- The point reached from `start` after `km` kilometres along the great circle that
leaves at bearing `deg`. -/
def destination (start : Point α) (deg km : α) : Point α :=
  let lat1 := toRadians start.lat
  let lng1 := toRadians start.lng
  let theta := toRadians deg
  let delta := km / earthRadius α
  let lat2 := asin (sin lat1 * cos delta + cos lat1 * sin delta * cos theta)
  let lng2 := lng1 +
    atan2 (sin theta * sin delta * cos lat1) (cos delta - sin lat1 * sin lat2)
  ⟨toDegrees lat2, normalizeLongitude (toDegrees lng2)⟩

/-- The point halfway along the shortest way between two points. -/
def midpoint (p q : Point α) : Point α :=
  let lat1 := toRadians p.lat
  let lat2 := toRadians q.lat
  let lng1 := toRadians p.lng
  let dlng := toRadians (q.lng - p.lng)
  let bx := cos lat2 * cos dlng
  let by' := cos lat2 * sin dlng
  let ax := cos lat1 + bx
  let lat := atan2 (sin lat1 + sin lat2) (sqrt (ax * ax + by' * by'))
  let lng := lng1 + atan2 by' (cos lat1 + bx)
  ⟨toDegrees lat, normalizeLongitude (toDegrees lng)⟩

end Point

end GeoDispatch
