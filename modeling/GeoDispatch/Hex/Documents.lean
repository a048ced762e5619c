import GeoDispatch.Hex.Cell
import GeoDispatch.Json.Codec

/-!
# Documents of resolutions and cells

A resolution is written by its name and a cell by its text.
-/

namespace GeoDispatch

open Json

instance : Codec Resolution :=
  ⟨fun r => .ofString r.name, Decoder.alternative Resolution.ofName?⟩

instance : Codec Cell where
  encode c := .ofString c.text
  decode? v := do
    match Cell.parse (← Decoder.string v) with
    | .ok c => some c
    | .error _ => none

end GeoDispatch
