import GeoDispatch.Json.Parser

/-!
# Typed values from JSON

A `Decoder` asks a JSON value for a value of some type.  Records come as objects, where
members of other names are passed over and no name of the record may occur twice, or as
arrays of their fields in order.  Names of alternatives come as texts, or as objects with
one member of that name and the value null.
-/

namespace GeoDispatch.Json

/-- A reading of JSON values at a type. -/
abbrev Decoder (β : Type) := Value → Option β

namespace Decoder

/-- A string. -/
def string : Decoder String
  | .text s => s
  | _ => none

/-- A double: any number in range. -/
def float : Decoder Float
  | .number s => (Value.numeral? s).bind Numeral.toFloat?
  | _ => none

/-- A natural number of at most `bits` bits, written as an integer. -/
def natural (bits : Nat) : Decoder Nat
  | .number s => do
    let n ← (Value.numeral? s).bind Numeral.toInt?
    if 0 ≤ n ∧ n.toNat < 1 <<< bits then some n.toNat else none
  | _ => none

/-- A list of values of one type. -/
def list {β : Type} (d : Decoder β) : Decoder (List β)
  | .array items => items.mapM d
  | _ => none

/-- One of several named alternatives. -/
def alternative {β : Type} (named? : String → Option β) : Decoder β
  | .text (some s) => named? s
  | .object [(some s, .null)] => named? s
  | _ => none

/-- A map from strings to strings, given by its members; all keys are strings. -/
def stringMap : Decoder (List (String × String))
  | .object members => members.mapM fun (k, v) => do some (← k, ← string v)
  | _ => none

/-- The values of the fields of a record, by their names; `none` for a field that is
missing, and nothing for a value that is no record. -/
def fields (names : List String) : Decoder (List (Option Value))
  | .array items =>
    if items.length ≤ names.length then
      some (items.map some ++ List.replicate (names.length - items.length) none)
    else none
  | .object members =>
    if members.all fun m => m.1.isSome then
      names.mapM fun name =>
        match members.filter fun m => m.1 == some name with
        | [] => some none
        | [m] => some (some m.2)
        | _ => none
    else none
  | _ => none

end Decoder

end GeoDispatch.Json
