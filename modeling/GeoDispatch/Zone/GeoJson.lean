import GeoDispatch.Json.Codec
import GeoDispatch.Sphere.Documents
import GeoDispatch.Zone.Polygon

/-!
# Polygons in GeoJSON

A GeoJSON geometry is an object with a type and coordinates.  `Polygon.toGeoJson` writes a
polygon as one closed ring of longitude and latitude; `Polygon.ofGeoJson` reads the outer
ring of a geometry of type `Polygon` and drops the vertex that closes it.  Every part of a
geometry is checked, also the parts that are then dropped.
-/

namespace GeoDispatch

open Json

/-- A position: a longitude, a latitude and perhaps more. -/
abbrev Position := List Float

/-- A GeoJSON geometry, as far as it matters here. -/
inductive Geometry where
  /-- A polygon, given by its rings. -/
  | polygon (rings : List (List Position))
  /-- Another well-formed geometry. -/
  | other

namespace Geometry

/-- Reads a position of at least two numbers. -/
def position? (v : Value) : Option Position :=
  (Decoder.list Decoder.float v).filter fun xs => 2 ≤ xs.length

/-- The value under a key, the last one if it occurs several times. -/
def last? {β : Type} (key : String) (members : List (Text × β)) : Option β :=
  (members.reverse.find? fun m => m.1 == some key).map Prod.snd

/-- Whether the bounding box of a geometry is absent, null or an array of numbers. -/
def hasProperBox (members : List (Text × Value)) : Bool :=
  match last? "bbox" members with
  | none | some .null => true
  | some v => (Decoder.list Decoder.float v).isSome

/-- Reads the geometry with these members, of which `collections` tells which are arrays
of geometries. -/
def ofMembers? (members : List (Text × Value)) (collections : List (Text × Bool)) :
    Option Geometry :=
  let coordinates {β : Type} (d : Decoder β) : Option β :=
    (last? "coordinates" members).bind d
  let other {β : Type} (x : Option β) : Option Geometry := x.map fun _ => .other
  if !hasProperBox members then none
  else
    match (last? "type" members).bind Decoder.string with
    | some "Point" => other (coordinates position?)
    | some "MultiPoint" | some "LineString" => other (coordinates (Decoder.list position?))
    | some "MultiLineString" =>
      other (coordinates (Decoder.list (Decoder.list position?)))
    | some "Polygon" =>
      (coordinates (Decoder.list (Decoder.list position?))).map .polygon
    | some "MultiPolygon" =>
      other (coordinates (Decoder.list (Decoder.list (Decoder.list position?))))
    | some "GeometryCollection" =>
      if last? "geometries" collections == some true then some .other else none
    | _ => none

mutual

/-- Reads a geometry. -/
def ofValue? : Value → Option Geometry
  | .object members => ofMembers? members (collections members)
  | _ => none

/-- Whether all items of an array are geometries. -/
def areGeometries : List Value → Bool
  | [] => true
  | v :: vs => (ofValue? v).isSome && areGeometries vs

/-- Which members are arrays of geometries. -/
def collections : List (Text × Value) → List (Text × Bool)
  | [] => []
  | (k, .array items) :: ms => (k, areGeometries items) :: collections ms
  | (k, _) :: ms => (k, false) :: collections ms

end

end Geometry

namespace Polygon

/-- The vertex at a position. -/
def vertex? : Position → Option (Point Float)
  | lng :: lat :: _ => some ⟨lat, lng⟩
  | _ => none

/-- A list without its last element, if that equals the first one and is not it. -/
def openRing (ps : List (Point Float)) : List (Point Float) :=
  match ps.head?, ps.getLast? with
  | some p, some q => if 2 ≤ ps.length && p.same q then ps.dropLast else ps
  | _, _ => ps

/-- The polygon inside an outer ring. -/
def ofRing (ring : List Position) : Polygon Float := ⟨openRing (ring.filterMap vertex?)⟩

/-- The polygon of a geometry. -/
def ofGeometry : Geometry → Except GeoError (Polygon Float)
  | .polygon (outer :: _) => .ok (ofRing outer)
  | .polygon [] => .error (.invalidGeoJson .noRings)
  | .other => .error (.invalidGeoJson .notPolygon)

/-- The polygon of a GeoJSON text. -/
def ofGeoJson (s : String) : Except GeoError (Polygon Float) :=
  match (parseWhole? s).bind Geometry.ofValue? with
  | some g => ofGeometry g
  | none => .error (.invalidGeoJson .unreadable)

/-- The vertices, the first one again at the end. -/
def closedRing (g : Polygon Float) : List (Point Float) := g.points ++ g.points.take 1

/-- The geometry of a polygon as a JSON value. -/
def toGeoJsonValue (g : Polygon Float) : Value :=
  .ofMembers
    [("type", .ofString "Polygon"),
      ("coordinates", .array [.array (g.closedRing.map fun p =>
        .array [.ofFloat p.lng, .ofFloat p.lat])])]

/-- The GeoJSON text of a polygon. -/
def toGeoJson (g : Polygon Float) : String := g.toGeoJsonValue.render

end Polygon

instance : Codec (Polygon Float) where
  encode g := .ofMembers [("points", Codec.encode g.points)]
  decode? v := do
    match ← Decoder.fields ["points"] v with
    | [points] => return ⟨← Codec.field? (List (Point Float)) points⟩
    | _ => none

end GeoDispatch
