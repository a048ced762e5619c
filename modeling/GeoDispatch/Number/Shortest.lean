import GeoDispatch.Number.Decimal

/-!
# The fewest digits that read back

Every real number near enough to a double is read as that double.  `Shortest.digits`
finds the decimal with the fewest digits among these and, of several, the nearest one;
of two that are equally near, a `Tie` tells which.  `plain` writes the digits without an
exponent, and `literal` as a number of a JSON text.
-/

namespace GeoDispatch

namespace Shortest

/-- Which of two neighbouring integers stands for a value halfway between them. -/
inductive Tie where
  /-- The greater one. -/
  | up
  /-- The even one. -/
  | toEven
deriving DecidableEq

/-- The integer that stands for `c + 1 / 2`. -/
def Tie.settle (c : Nat) : Tie → Nat
  | up => c + 1
  | toEven => c + c % 2

/-- The reals that are read as the double `m * 2 ^ e`, in quarters of its unit: the
value lies at `4 * m`, the upper end half a unit above, the lower end half a unit below
or, at a power of two, a quarter.  The ends belong to it when `m` is even. -/
structure Basin where
  low : Nat
  mid : Nat
  high : Nat
  closed : Bool

/-- The basin of the double `m * 2 ^ e`. -/
def basin (m : Nat) (e : Int) : Basin where
  low := if m = 1 <<< 52 ∧ -1074 < e then 4 * m - 1 else 4 * m - 2
  mid := 4 * m
  high := 4 * m + 2
  closed := m % 2 == 0

/-- Whether `c * s` lies in the basin, whose ends are scaled by `t`. -/
def Basin.holds (b : Basin) (c s t : Nat) : Bool :=
  let x := c * s
  if b.closed then b.low * t ≤ x && x ≤ b.high * t else b.low * t < x && x < b.high * t

/-- On the decimal grid of unit `10 ^ g`, the grid point in the basin of the double
`m * 2 ^ e` nearest to it. -/
def onGrid (tie : Tie) (m : Nat) (e g : Int) : Option Nat :=
  let b := basin m e
  let s := 1 <<< (2 - e).toNat * Nat.pow 10 g.toNat
  let t := 1 <<< (e - 2).toNat * Nat.pow 10 (-g).toNat
  let c := b.mid * t / s
  match b.holds c s t, b.holds (c + 1) s t with
  | true, true =>
    -- the value lies `above` over the lower point and `below` under the upper one
    let above := b.mid * t - c * s
    let below := (c + 1) * s - b.mid * t
    some (if above < below then c else if below < above then c + 1 else tie.settle c)
  | true, false => some c
  | false, true => some (c + 1)
  | false, false => none

/-- The digits `n` and the power `g` with `n * 10 ^ g` the shortest decimal that is read
as `m * 2 ^ e`; seventeen digits always suffice. -/
def digits (tie : Tie) (m : Nat) (e : Int) : Nat × Int :=
  if m = 0 then (0, 0)
  else
    let (n, d) := Decimal.fraction m e 0
    let x := Decimal.magnitude n d
    ((List.range 17).findSome? fun (i : Nat) =>
      (onGrid tie m e (x - i)).map fun c => (c, x - i)).getD (0, 0)

/-- The digits `n * 10 ^ g` written without an exponent. -/
def positional (n : Nat) (g : Int) : String :=
  if 0 ≤ g then toString (n * Nat.pow 10 g.toNat) else Decimal.withPoint (-g).toNat n

/-- Drops zeros at the end of the digits, each worth one power of ten. -/
def trimmed (n : Nat) (g : Int) : Nat × Int :=
  if n = 0 then (0, 0)
  else if n % 10 = 0 then trimmed (n / 10) (g + 1)
  else (n, g)

/-- A double in its shortest digits, a tie going up, and never with an exponent: `100`,
`-0.0000001`, `NaN`, `-inf`. -/
def plain (x : Float) : String :=
  match Binary.ofFloat x with
  | .nan => "NaN"
  | .infinite negative => if negative then "-inf" else "inf"
  | .finite negative m e =>
    let (n, g) := digits .up m e
    let (n, g) := trimmed n g
    (if negative then "-" else "") ++ positional n g

/-- A finite double as a number of a JSON text, a tie going to the even digit: positional
with at least one place from `1e-5` up to `1e16`, with an exponent elsewhere; nothing for
other doubles. -/
def literal (x : Float) : Option String :=
  match Binary.ofFloat x with
  | .nan | .infinite _ => none
  | .finite negative m e =>
    let (n, g) := digits .toEven m e
    let (n, g) := trimmed n g
    let point := Decimal.width n + g
    let body :=
      if n = 0 then "0.0"
      else if -5 < point && point ≤ 16 then
        if 0 ≤ g then positional n g ++ ".0" else positional n g
      else
        Decimal.withPoint (Decimal.width n - 1) n ++ "e" ++ toString (point - 1)
    some ((if negative then "-" else "") ++ body)

end Shortest

end GeoDispatch
