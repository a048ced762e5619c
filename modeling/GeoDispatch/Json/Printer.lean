import GeoDispatch.Json.Lexer

/-!
# Writing JSON texts

`Value.render` writes a value without blanks.  In quoted texts a quote, a backslash and
the control characters are escaped, and a text without meaning is written as half of a
surrogate pair, which has none either.
-/

namespace GeoDispatch.Json

/-- A hexadecimal digit. -/
def hexChar (n : Nat) : Char := Nat.digitChar (n % 16)

/-- A character of a quoted text. -/
def quotedChar (c : Char) : List Char :=
  if c = '"' ∨ c = '\\' then ['\\', c]
  else if c.toNat < 0x20 then
    ['\\', 'u', '0', '0', hexChar (c.toNat / 16), hexChar c.toNat]
  else [c]

/-- A quoted text. -/
def quoted (s : Text) : List Char :=
  match s with
  | some s => '"' :: s.toList.flatMap quotedChar ++ ['"']
  | none => ['"', '\\', 'u', 'd', '8', '0', '0', '"']

/-- The characters of a mark or a word. -/
def Token.characters : Token → List Char
  | .openArray => ['\x5b']
  | .closeArray => ['\x5d']
  | .openObject => ['\x7b']
  | .closeObject => ['\x7d']
  | .comma => [',']
  | .colon => [':']
  | .null => ['n', 'u', 'l', 'l']
  | .bool true => ['t', 'r', 'u', 'e']
  | .bool false => ['f', 'a', 'l', 's', 'e']
  | .number s => s.toList
  | .text s => quoted s

namespace Value

mutual

/-- The tokens of a value. -/
def tokens : Value → List Token
  | .null => [.null]
  | .bool b => [.bool b]
  | .number s => [.number s]
  | .text s => [.text s]
  | .array items => .openArray :: tokensOfItems items ++ [.closeArray]
  | .object members => .openObject :: tokensOfMembers members ++ [.closeObject]

/-- The tokens of the items of an array, with commas between them. -/
def tokensOfItems : List Value → List Token
  | [] => []
  | [v] => v.tokens
  | v :: vs => v.tokens ++ .comma :: tokensOfItems vs

/-- The tokens of the members of an object, with commas between them. -/
def tokensOfMembers : List (Text × Value) → List Token
  | [] => []
  | [(k, v)] => .text k :: .colon :: v.tokens
  | (k, v) :: ms => .text k :: .colon :: v.tokens ++ .comma :: tokensOfMembers ms

end

/-- The text of a value. -/
def render (v : Value) : String := String.ofList (v.tokens.flatMap Token.characters)

end Value

end GeoDispatch.Json
