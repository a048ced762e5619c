import GeoDispatch.Json.Value
import GeoDispatch.Number.Hexadecimal

/-!
# Tokens of JSON texts

A text is read character by character by a machine with five modes: between tokens, in a
run of letters and digits, in a quoted text, after a backslash there, and in the four
digits of an escape.  `tokens?` gives the tokens, or nothing for a text that has none.
-/

namespace GeoDispatch.Json

/-- A token of a JSON text. -/
inductive Token where
  | openArray | closeArray | openObject | closeObject | comma | colon
  | null
  | bool (b : Bool)
  | number (spelling : String)
  | text (s : Text)
deriving DecidableEq

namespace Token

/-- The token of a mark. -/
def ofMark? (c : Char) : Option Token :=
  match c.toNat with
  | 0x5b => some openArray
  | 0x5d => some closeArray
  | 0x7b => some openObject
  | 0x7d => some closeObject
  | 0x2c => some comma
  | 0x3a => some colon
  | _ => none

/-- The token of a run of letters, digits and signs: a word or a number. -/
def ofRun? (run : List Char) : Option Token :=
  let s := String.ofList run
  if s = "null" then some null
  else if s = "true" then some (bool true)
  else if s = "false" then some (bool false)
  else (Numeral.read? run).map fun _ => number s

end Token

/-- Whether a code belongs to the first halves of surrogate pairs. -/
def isHighSurrogate (n : Nat) : Bool := 0xd800 ≤ n && n < 0xdc00

/-- Whether a code belongs to the second halves of surrogate pairs. -/
def isLowSurrogate (n : Nat) : Bool := 0xdc00 ≤ n && n < 0xe000

/-- The characters of a sequence of codes, where the halves of a pair make one character
and a half on its own makes the sequence meaningless. -/
def characters? : List Nat → Option (List Char)
  | [] => some []
  | n :: ns =>
    if isHighSurrogate n then
      match ns with
      | m :: ms =>
        if isLowSurrogate m then
          (Char.ofNat (0x10000 + (n - 0xd800) * 0x400 + (m - 0xdc00)) :: ·) <$> characters? ms
        else none
      | [] => none
    else if isLowSurrogate n then none
    else (Char.ofNat n :: ·) <$> characters? ns

/-- The code named by a letter after a backslash. -/
def escape? (c : Char) : Option Nat :=
  match c with
  | '"' => some 0x22
  | '\\' => some 0x5c
  | '/' => some 0x2f
  | 'b' => some 0x08
  | 'f' => some 0x0c
  | 'n' => some 0x0a
  | 'r' => some 0x0d
  | 't' => some 0x09
  | _ => none

/-- What the reading of tokens is in the middle of.  Runs and codes are held last first. -/
inductive Mode where
  | gap
  | run (characters : List Char)
  | quoted (codes : List Nat)
  | escaped (codes : List Nat)
  | hex (codes : List Nat) (count value : Nat)
deriving DecidableEq

namespace Mode

/-- Whether a character separates tokens. -/
def isBlank (c : Char) : Bool := c == ' ' || c == '\n' || c == '\t' || c == '\r'

/-- Reads a character between tokens. -/
def start (c : Char) : List Token × Mode :=
  if isBlank c then ([], .gap)
  else if c = '"' then ([], .quoted [])
  else
    match Token.ofMark? c with
    | some t => ([t], .gap)
    | none => ([], .run [c])

/-- Reads a character: the tokens that it completes and the mode after it. -/
def next : Mode → Char → Option (List Token × Mode)
  | .gap, c => some (start c)
  | .run cs, c =>
    if isBlank c || c == '"' || (Token.ofMark? c).isSome then
      (Token.ofRun? cs.reverse).map fun t =>
        let (ts, m) := start c
        (t :: ts, m)
    else some ([], .run (c :: cs))
  | .quoted ns, c =>
    if c = '"' then some ([.text ((characters? ns.reverse).map String.ofList)], .gap)
    else if c = '\\' then some ([], .escaped ns)
    else if c.toNat < 0x20 then none
    else some ([], .quoted (c.toNat :: ns))
  | .escaped ns, c =>
    if c = 'u' then some ([], .hex ns 0 0)
    else (escape? c).map fun n => ([], .quoted (n :: ns))
  | .hex ns count v, c =>
    (Hexadecimal.digit? c).map fun d =>
      let v := 16 * v + d
      if count = 3 then ([], .quoted (v :: ns)) else ([], .hex ns (count + 1) v)

/-- Reads the end of the text. -/
def finish : Mode → Option (List Token)
  | .gap => some []
  | .run cs => (Token.ofRun? cs.reverse).map ([·])
  | _ => none

/-- Reads a text to its end. -/
def readAll : Mode → List Char → Option (List Token)
  | m, [] => m.finish
  | m, c :: cs =>
    match m.next c with
    | some (ts, m) => (readAll m cs).map (ts ++ ·)
    | none => none

end Mode

/-- The tokens of a text. -/
def tokens? (s : String) : Option (List Token) := Mode.gap.readAll s.toList

end GeoDispatch.Json
