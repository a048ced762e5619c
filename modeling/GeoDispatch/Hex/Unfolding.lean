import GeoDispatch.Hex.Address

/-!
# Unfolding the grid around an origin

The grid near an origin unfolds on a plane, the lattice of the origin's base cell, as far
as the base cells around it.  `Address.planeOf?` gives the place of a cell on that plane and
`Address.cellAt?` the cell at a place.  Around a pentagon the plane has a gap, so a turn is
needed that depends on the parts of the pentagon between which one moves; where the gap
would tear a neighbourhood apart, the cell has no place.
-/

namespace GeoDispatch

/-- The sixths of a turn, clockwise, that close the gap of a pentagon between its part
`from` and its part `to`. -/
def gapTurns : (src dst : Direction) → Nat
  | .j, .ik | .jk, .i | .jk, .ik => 1
  | .i, .jk | .ik, .j | .ik, .jk => 5
  | _, _ => 0

/-- Whether the gap of a pentagon lies between two of its parts in such a way that no
single plane shows both. -/
def isTorn : (src dst : Direction) → Bool
  | .j, .i | .j, .ik | .jk, .i | .jk, .ij | .i, .j | .i, .jk
  | .ik, .j | .ik, .ij | .ij, .jk | .ij, .ik => true
  | _, _ => false

/-- The sixths of a turn, counterclockwise, that open the gap of the pentagon of the
origin: from the part of the origin to a place on the plane. -/
def openingTurns : (src dst : Direction) → Nat
  | .j, .k | .jk, .k | .jk, .ik => 1
  | .i, .k | .ik, .k | .ik, .jk => 5
  | _, _ => 0

/-- The fifths of a turn, counterclockwise, that open the gap of a pentagon seen from a
neighbouring base cell: from the direction of that cell to a part of the pentagon. -/
def enteringTurns (polar : Bool) : (src dst : Direction) → Nat
  | .jk, .k | .jk, .ik | .ik, .k | .ik, .i | .ik, .ik | .j, .k => 1
  | .ik, .jk => 5
  | .i, .k => if polar then 1 else 5
  | .j, .j | .j, .jk | .j, .i | .j, .ik | .j, .ij
  | .i, .i | .i, .ik | .i, .ij
  | .ij, .k | .ij, .j | .ij, .i | .ij, .ik | .ij, .ij => if polar then 1 else 0
  | _, _ => 0

/-- Turns a direction clockwise about a pentagon, over the missing one. -/
def Direction.turnFifthBackOne (d : Direction) : Direction :=
  if d.turnBack = .k then d.turnBack.turnBack else d.turnBack

/-- Several clockwise turns of a direction about a cell. -/
def turnsBack (pentagon : Bool) : (n : Nat) → Direction → Direction
  | 0, d => d
  | n + 1, d => turnsBack pentagon n (if pentagon then d.turnFifthBackOne else d.turnBack)

namespace Address

open Direction

/-- The place of a cell on the plane around `origin`, if it has one. -/
def planeOf? (origin c : Address) : Option Coord := do
  if origin.level ≠ c.level then none
  let d ← origin.base.directionTo? c.base
  if d = .center then
    let x := descendFrom 0 Coord.zero c.digits
    if origin.base.isPentagon then
      if isTorn origin.lead c.lead then none
      some (x.turnBy (6 - gapTurns origin.lead c.lead))
    else some x
  else
    let back ← c.base.directionTo? origin.base
    let turns := ((origin.base.neighbor d).map Arrival.turns).getD 0
    let pentagon := c.base.isPentagon
    let back := turnsBack pentagon turns back
    let digits :=
      turnDigits (if pentagon then turnFifthBack else List.map turnBack) turns c.digits
    let x := descendFrom 0 Coord.zero digits
    let offset := d.unit * Coord.spiralTo origin.level
    if origin.base.isPentagon then
      if isTorn origin.lead d then none
      let gap := 6 - gapTurns origin.lead d
      some (x.turnBy gap + offset.turnBy gap)
    else if pentagon then
      if isTorn (leading digits) back then none
      some (x.turnBy (6 - gapTurns back (leading digits)) + offset)
    else some (x + offset)

/-- The cell at a place on the plane around `origin`, if there is one. -/
def cellAt? (origin : Address) (x : Coord) : Option Address := do
  let (place, digits) := ascend origin.level x []
  let d ← ofUnit? place
  if d = .center then
    if origin.base.isPentagon then
      let turns := openingTurns origin.lead (leading digits)
      ofParts? origin.base (turnDigits (List.map turn) turns digits)
    else ofParts? origin.base digits
  else if origin.base.isPentagon then
    let gap := openingTurns origin.lead d
    let a ← origin.base.neighbor (d.turnBy gap)
    ofParts? a.cell (turnDigits (List.map turn) (gap + a.turns) digits)
  else
    let a ← origin.base.neighbor d
    if a.cell.isPentagon then
      let back ← a.cell.directionTo? origin.base
      let digits := turnDigits (List.map turn) a.turns digits
      let gap := enteringTurns a.cell.isPolar back (leading digits)
      ofParts? a.cell (turnDigits turnFifth gap digits)
    else ofParts? a.cell (turnDigits (List.map turn) a.turns digits)

/-- The number of steps from one cell to another on the plane around the first, if the
second has a place there. -/
def steps? (origin c : Address) : Option Nat := do
  let x ← origin.planeOf? origin
  let y ← origin.planeOf? c
  some (y - x).length

end Address

end GeoDispatch
