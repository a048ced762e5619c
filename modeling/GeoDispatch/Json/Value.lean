import GeoDispatch.Json.Numeral
import GeoDispatch.Number.Shortest

/-!
# JSON values

A JSON text denotes a tree.  Numbers keep their spelling, and texts may be `none`: an
escape can name half of a surrogate pair without the other half, which no string holds.
Such a text, like a number out of range, does no harm where nobody asks for its value.
-/

namespace GeoDispatch.Json

/-- The string that a quoted text denotes, if it denotes one. -/
abbrev Text := Option String

/-- A JSON value. -/
inductive Value where
  | null
  | bool (b : Bool)
  | number (spelling : String)
  | text (s : Text)
  | array (items : List Value)
  | object (members : List (Text × Value))

namespace Value

/-- A string as a value. -/
def ofString (s : String) : Value := .text (some s)

/-- A natural number as a value. -/
def ofNat (n : Nat) : Value := .number (toString n)

/-- A double as a value, null for infinities and undefined numbers. -/
def ofFloat (x : Float) : Value :=
  match Shortest.literal x with
  | some s => .number s
  | none => .null

/-- An object with the given members. -/
def ofMembers (ms : List (String × Value)) : Value :=
  .object (ms.map fun m => (some m.1, m.2))

/-- The parts of a number. -/
def numeral? (spelling : String) : Option Numeral := Numeral.read? spelling.toList

mutual

/-- The number of arrays and objects inside one another. -/
def depth : Value → Nat
  | .array items => 1 + depthOfItems items
  | .object members => 1 + depthOfMembers members
  | _ => 0

/-- The greatest depth of the items of an array. -/
def depthOfItems : List Value → Nat
  | [] => 0
  | v :: vs => max v.depth (depthOfItems vs)

/-- The greatest depth of the members of an object. -/
def depthOfMembers : List (Text × Value) → Nat
  | [] => 0
  | (_, v) :: ms => max v.depth (depthOfMembers ms)

end

mutual

/-- Whether every number is in range and every text and key denotes a string. -/
def isDefinite : Value → Bool
  | .number s => ((numeral? s).bind Numeral.toFloat?).isSome
  | .text s => s.isSome
  | .array items => areDefinite items
  | .object members => areDefiniteMembers members
  | _ => true

/-- Whether all items of an array are definite. -/
def areDefinite : List Value → Bool
  | [] => true
  | v :: vs => v.isDefinite && areDefinite vs

/-- Whether all members of an object are definite. -/
def areDefiniteMembers : List (Text × Value) → Bool
  | [] => true
  | (k, v) :: ms => k.isSome && v.isDefinite && areDefiniteMembers ms

end

/-- The deepest nesting that is read as a whole. -/
def maxDepth : Nat := 127

end Value

end GeoDispatch.Json
