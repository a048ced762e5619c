import GeoDispatch.Hex.IndexFault
import GeoDispatch.Number.Hexadecimal
import GeoDispatch.Number.Shortest

/-!
# Errors

What can be wrong with the input of the library, as causes; `GeoError.message` words
each of them.  Questions about what is already stored raise no errors: a driver that is
unknown or a cell that is empty is an answer.
-/

namespace GeoDispatch

/-- What is wrong with the address of a cell. -/
inductive CellFault where
  /-- The text is not one to sixteen hexadecimal digits. -/
  | malformed (text : String)
  /-- The number is no cell index. -/
  | invalid (value : Nat) (fault : IndexFault)
  /-- The number is a cell index of a resolution that is not served. -/
  | unsupported (value : Nat) (level : Nat)
deriving DecidableEq, Repr

/-- What is wrong with a GeoJSON text. -/
inductive GeoJsonFault where
  /-- The text is no GeoJSON geometry. -/
  | unreadable
  /-- The geometry is not a polygon. -/
  | notPolygon
  /-- The polygon has no ring. -/
  | noRings
deriving DecidableEq, Repr

/-- What can be wrong with input. -/
inductive GeoError where
  /-- A point is out of range. -/
  | invalidCoordinates (lat lng : Float)
  /-- An address is no cell of a served resolution. -/
  | invalidCellFormat (fault : CellFault)
  /-- A text is no geohash. -/
  | invalidGeohash (text : String)
  /-- A text is no GeoJSON polygon. -/
  | invalidGeoJson (fault : GeoJsonFault)
  /-- A text names no kind of geofence. -/
  | invalidGeofenceKind (text : String)
  /-- A text is no document of the expected type. -/
  | serialization

/-- The number that a fault is about, as messages show it. -/
def hexLiteral (n : Nat) : String := "0x" ++ Hexadecimal.text n

/-- The wording of a fault of a cell address. -/
def CellFault.message : CellFault → String
  | malformed text => text
  | invalid value fault =>
    hexLiteral value ++ ": invalid cell index (got Some(" ++ toString value ++ ")): " ++
      fault.message
  | unsupported value level =>
    hexLiteral value ++ ": unsupported resolution " ++ toString level

/-- The wording of a fault of a GeoJSON text. -/
def GeoJsonFault.message : GeoJsonFault → String
  | unreadable => "failed to parse"
  | notPolygon => "expected Polygon geometry"
  | noRings => "polygon has no rings"

/-- The wording of an error. -/
def GeoError.message : GeoError → String
  | invalidCoordinates lat lng =>
    "coordinates out of range: lat=" ++ Shortest.plain lat ++ ", lng=" ++
      Shortest.plain lng
  | invalidCellFormat fault => "invalid cell format: " ++ fault.message
  | invalidGeohash text => "invalid geohash: " ++ text
  | invalidGeoJson fault => "invalid GeoJSON: " ++ fault.message
  | invalidGeofenceKind text => "unknown geofence kind: " ++ text
  | serialization => "serialization error"

end GeoDispatch
