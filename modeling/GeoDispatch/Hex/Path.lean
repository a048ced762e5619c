import GeoDispatch.Hex.Cell
import GeoDispatch.Hex.Unfolding

/-!
# Straight paths

A path runs along the straight line between two places of the plane that is unfolded
around its first cell, one cell for each step.  Beside a pentagon some of the places on the
line hold no cell; these are left out of the path.
-/

namespace GeoDispatch

/-- The lattice point nearest to `x + n * s`, where a step `s` and the sum are taken
along three axes that add up to zero; the axis with the largest rounding error follows
from the other two. -/
def Coord.along (x : Coord) (s : Float × Float × Float) (n : Nat) : Coord :=
  let p := Float.ofInt (-x.a) + s.1 * Float.ofNat n
  let q := Float.ofInt x.b + s.2.1 * Float.ofNat n
  let r := Float.ofInt (x.a - x.b) + s.2.2 * Float.ofNat n
  let error (y : Float) : Float := (Float.ofInt (nearestInt y) - y).abs
  if error q < error p && error r < error p then
    ⟨nearestInt q + nearestInt r, nearestInt q⟩
  else if error r < error q then ⟨-nearestInt p, -nearestInt p - nearestInt r⟩
  else ⟨-nearestInt p, nearestInt q⟩

/-- The lattice points on the line from `x` to `y`, both included. -/
def Coord.line (x y : Coord) : List Coord :=
  let n := (y - x).length
  let part (d : Int) : Float := if n = 0 then 0 else Float.ofInt d / Float.ofNat n
  let s := (part (x.a - y.a), part (y.b - x.b), part ((y.a - y.b) - (x.a - x.b)))
  (List.range (n + 1)).map (x.along s)

namespace Address

/-- The cells at the places of the line from one cell to another, if the second has a
place on the plane around the first; a place without a cell gives none. -/
def line? (c d : Address) : Option (List (Option Address)) := do
  let x ← c.planeOf? c
  let y ← c.planeOf? d
  some ((x.line y).map c.cellAt?)

end Address

namespace Cell

/-- The number of steps between two cells, if the grid around the first reaches the
second. -/
def steps? (c d : Cell) : Option Nat := c.address.steps? d.address

/-- The cells among a list of places, or nothing when no place holds one. -/
def pathOf (places : List (Option Cell)) : Option (List Cell) :=
  let cells := places.filterMap id
  if cells.isEmpty then none else some cells

/-- What the places on the straight line from one cell to another hold, both ends included,
if the grid around the first reaches the second. -/
def places? (c d : Cell) : Option (List (Option Cell)) :=
  (c.address.line? d.address).map fun places => places.map fun place => place.bind ofAddress?

/-- The cells on the straight line from one cell to another, both included, if the grid
around the first reaches the second. -/
def path? (c d : Cell) : Option (List Cell) := (c.places? d).bind pathOf

end Cell

end GeoDispatch
