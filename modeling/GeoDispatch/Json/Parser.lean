import GeoDispatch.Json.Lexer

/-!
# Reading JSON texts

Tokens are read one by one, with the arrays and objects that are still open on a stack.
`parse?` reads exactly one value and nothing after it.
-/

namespace GeoDispatch.Json

/-- An array or object that is still open, its items or members last first. -/
inductive Frame where
  /-- An array, before its next item. -/
  | array (items : List Value)
  /-- An object, before the value of a key. -/
  | member (members : List (Text × Value)) (key : Text)

/-- What may come next. -/
inductive State where
  /-- A value. -/
  | value (stack : List Frame)
  /-- The first item of an array, or its end. -/
  | firstItem (stack : List Frame)
  /-- A comma and an item, or the end of an array. -/
  | nextItem (items : List Value) (stack : List Frame)
  /-- A key; the end of the object too, if it is empty. -/
  | key (members : List (Text × Value)) (stack : List Frame)
  /-- The colon after a key. -/
  | colon (members : List (Text × Value)) (key : Text) (stack : List Frame)
  /-- A comma and a key, or the end of an object. -/
  | nextMember (members : List (Text × Value)) (stack : List Frame)
  /-- Nothing more. -/
  | done (v : Value)

namespace State

/-- The state after a complete value. -/
def complete (v : Value) : List Frame → State
  | [] => done v
  | .array items :: stack => nextItem (v :: items) stack
  | .member members k :: stack => nextMember ((k, v) :: members) stack

/-- Reads the first token of a value. -/
def openValue (stack : List Frame) : Token → Option State
  | .openArray => some (firstItem stack)
  | .openObject => some (key [] stack)
  | .null => some (complete .null stack)
  | .bool b => some (complete (.bool b) stack)
  | .number s => some (complete (.number s) stack)
  | .text s => some (complete (.text s) stack)
  | _ => none

/-- Reads a token. -/
def next : State → Token → Option State
  | value stack, t => openValue stack t
  | firstItem stack, t =>
    if t = .closeArray then some (complete (.array []) stack)
    else openValue (.array [] :: stack) t
  | nextItem items stack, .comma => some (value (.array items :: stack))
  | nextItem items stack, .closeArray => some (complete (.array items.reverse) stack)
  | key members stack, .text k => some (colon members k stack)
  | key [] stack, .closeObject => some (complete (.object []) stack)
  | colon members k stack, .colon => some (value (.member members k :: stack))
  | nextMember members stack, .comma => some (key members stack)
  | nextMember members stack, .closeObject =>
    some (complete (.object members.reverse) stack)
  | _, _ => none

/-- Reads tokens to their end, and gives the value if one is complete. -/
def readAll : State → List Token → Option Value
  | done v, [] => some v
  | _, [] => none
  | s, t :: ts =>
    match s.next t with
    | some s => readAll s ts
    | none => none

end State

/-- The value that a text denotes. -/
def parse? (s : String) : Option Value := (tokens? s).bind (State.value []).readAll

/-- The value that a text denotes, if all of it has a meaning: numbers in range, texts that
are strings, and no nesting beyond a bound. -/
def parseWhole? (s : String) : Option Value :=
  (parse? s).filter fun v => v.isDefinite && v.depth ≤ Value.maxDepth

end GeoDispatch.Json
