import GeoDispatch.Json.Codec
import GeoDispatch.Sphere.BoundingBox

/-!
# Documents of points and boxes
-/

namespace GeoDispatch

open Json

instance : Codec (Point Float) where
  encode p := .ofMembers [("lat", Codec.encode p.lat), ("lng", Codec.encode p.lng)]
  decode? v := do
    match ← Decoder.fields ["lat", "lng"] v with
    | [lat, lng] => return ⟨← Codec.field? Float lat, ← Codec.field? Float lng⟩
    | _ => none

instance : Codec (BoundingBox Float) where
  encode b := .ofMembers
    [("min_lat", Codec.encode b.minLat), ("max_lat", Codec.encode b.maxLat),
      ("min_lng", Codec.encode b.minLng), ("max_lng", Codec.encode b.maxLng)]
  decode? v := do
    match ← Decoder.fields ["min_lat", "max_lat", "min_lng", "max_lng"] v with
    | [a, b, c, d] =>
      return ⟨← Codec.field? Float a, ← Codec.field? Float b, ← Codec.field? Float c,
        ← Codec.field? Float d⟩
    | _ => none

end GeoDispatch
