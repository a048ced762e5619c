/-!
# Numerals of JSON texts

A numeral has an optional minus sign, a whole part without leading zeros, and optionally a
fraction and an exponent.  `Numeral.read?` takes one apart, `Numeral.toInt?` gives the
value of an integer literal, `Numeral.toFloat?` the double that a numeral is read as and
`Numeral.nearest` the double nearest to it.
-/

namespace GeoDispatch.Json

/-- The parts of a numeral. -/
structure Numeral where
  negative : Bool
  whole : List Nat
  /-- The digits after the point, none without a point. -/
  fraction : List Nat
  /-- The power of ten, if one is given. -/
  exponent : Option Int
deriving DecidableEq

namespace Numeral

/-- The value of a decimal digit. -/
def digit? (c : Char) : Option Nat :=
  if '0' ≤ c ∧ c ≤ '9' then some (c.toNat - '0'.toNat) else none

/-- The digits at the front of a text, and what follows them. -/
def digits : List Char → List Nat × List Char
  | [] => ([], [])
  | c :: cs =>
    match digit? c with
    | some d =>
      let (ds, rest) := digits cs
      (d :: ds, rest)
    | none => ([], c :: cs)

/-- The number that decimal digits spell. -/
def value (ds : List Nat) : Nat := ds.foldl (fun n d => 10 * n + d) 0

/-- Reads a minus sign. -/
def readSign : List Char → Bool × List Char
  | '-' :: cs => (true, cs)
  | cs => (false, cs)

/-- Reads a whole part: zero, or digits that do not start with zero. -/
def readWhole? (cs : List Char) : Option (List Nat × List Char) :=
  match digits cs with
  | ([], _) => none
  | (0 :: _ :: _, _) => none
  | r => some r

/-- Reads a fraction, if there is one: a point and at least one digit. -/
def readFraction? : List Char → Option (List Nat × List Char)
  | '.' :: cs =>
    match digits cs with
    | ([], _) => none
    | r => some r
  | cs => some ([], cs)

/-- Reads the digits of an exponent after its sign. -/
def readPower? (negative : Bool) (cs : List Char) : Option (Option Int × List Char) :=
  match digits cs with
  | ([], _) => none
  | (ds, rest) =>
    let n : Int := value ds
    some (some (if negative then -n else n), rest)

/-- Reads an exponent, if there is one: a letter `e`, a sign or none, and digits. -/
def readExponent? : List Char → Option (Option Int × List Char)
  | c :: cs =>
    if c = 'e' ∨ c = 'E' then
      match cs with
      | '-' :: rest => readPower? true rest
      | '+' :: rest => readPower? false rest
      | rest => readPower? false rest
    else some (none, c :: cs)
  | [] => some (none, [])

/-- Takes a numeral apart; a text that is no numeral has no parts. -/
def read? (s : List Char) : Option Numeral := do
  let (negative, cs) := readSign s
  let (whole, cs) ← readWhole? cs
  let (fraction, cs) ← readFraction? cs
  let (exponent, cs) ← readExponent? cs
  if cs.isEmpty then some ⟨negative, whole, fraction, exponent⟩ else none

/-- Whether a numeral is written as an integer. -/
def isIntegral (n : Numeral) : Bool := n.fraction.isEmpty && n.exponent.isNone

/-- The integer that a numeral denotes, if it is written as one and fits into 64 bits, with
or without sign.  A zero with a minus sign is no integer. -/
def toInt? (n : Numeral) : Option Int :=
  let v := value n.whole
  if n.isIntegral then
    if n.negative then if 0 < v && v ≤ 1 <<< 63 then some (-v) else none
    else if v < 1 <<< 64 then some v else none
  else none

/-- Appends digits to a number while it stays below `2 ^ 64`, and counts those left. -/
def accumulate (n : Nat) : List Nat → Nat × Nat
  | [] => (n, 0)
  | d :: ds => if 10 * n + d < 1 <<< 64 then accumulate (10 * n + d) ds else (n, ds.length + 1)

/-- The power of ten as a double. -/
def powerOfTen (n : Nat) : Float := Float.ofScientific 1 false n

/-- The greatest power of ten among the doubles. -/
def greatestPower : Nat := 308

/-- A double times a power of ten, by one multiplication or division; far below one, by
several divisions.  A result out of range is no number. -/
def scale? : (fuel : Nat) → Float → Int → Option Float
  | fuel, x, e =>
    if e.natAbs ≤ greatestPower then
      if 0 ≤ e then
        let y := x * powerOfTen e.natAbs
        if y.isInf then none else some y
      else some (x / powerOfTen e.natAbs)
    else if x == 0 then some x
    else if 0 ≤ e then none
    else
      match fuel with
      | 0 => some x
      | fuel + 1 => scale? fuel (x / powerOfTen greatestPower) (e + greatestPower)

/-- The double that a numeral is read as, if it is in range: its leading digits, as many as
64 bits can hold, times a power of ten.  With more than fifteen digits this may be a
neighbour of the nearest double. -/
def toFloat? (n : Numeral) : Option Float :=
  let (m, wholeLeft) := accumulate 0 n.whole
  let (m, fractionLeft) := accumulate m n.fraction
  let e := (wholeLeft : Int) + fractionLeft - n.fraction.length + n.exponent.getD 0
  (scale? 3 (Float.ofNat m) e).map fun x => if n.negative then -x else x

/-- The double nearest to a numeral. -/
def nearest (n : Numeral) : Float :=
  let e := n.exponent.getD 0 - n.fraction.length
  let x := Float.ofScientific (value (n.whole ++ n.fraction)) (decide (e < 0)) e.natAbs
  if n.negative then -x else x

end Numeral

end GeoDispatch.Json
