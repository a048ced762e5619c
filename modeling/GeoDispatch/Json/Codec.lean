import GeoDispatch.GeoError
import GeoDispatch.Json.Decode
import GeoDispatch.Json.Printer

/-!
# Documents

A type with a `Codec` has JSON documents: `Codec.write` gives the document of a value and
`Codec.read` the value of a document.
-/

namespace GeoDispatch.Json

/-- A type whose values are written as JSON values and read from them. -/
class Codec (β : Type) where
  encode : β → Value
  decode? : Decoder β

namespace Codec

variable {β : Type}

/-- The document of a value. -/
def write [Codec β] (x : β) : String := (encode x).render

/-- The value of a document. -/
def read (β : Type) [Codec β] (s : String) : Except GeoError β :=
  match (parse? s).bind decode? with
  | some x => .ok x
  | none => .error .serialization

instance : Codec String := ⟨Value.ofString, Decoder.string⟩

instance : Codec Float := ⟨Value.ofFloat, Decoder.float⟩

instance [Codec β] : Codec (List β) :=
  ⟨fun xs => .array (xs.map encode), Decoder.list decode?⟩

/-- A field of a record that must be there. -/
def field? (β : Type) [Codec β] (v : Option Value) : Option β := v.bind decode?

end Codec

end GeoDispatch.Json
