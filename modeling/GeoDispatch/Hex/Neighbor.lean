import Std.Data.HashSet
import GeoDispatch.Hex.Cell

/-!
# Neighbours and disks

A step to a neighbour adds a direction to the last digit of an address; what does not fit
is carried to the digit before, and what leaves the first digit leads to a neighbouring
base cell, where the digits are turned into its orientation.  A disk grows from a cell by
layers of neighbours, so it holds each cell that is at most so many steps away, once.
-/

namespace GeoDispatch

namespace Direction

/-- Adds a direction to the digits of a cell of grid `level`, last digit first, and gives
what is carried beyond the first digit. -/
def addStep : (level : Nat) → Direction → List Direction → List Direction × Direction
  | _, carry, [] => ([], carry)
  | level, carry, d :: ds =>
    let (parent, child) := ofCoord level (d.unit + carry.unit)
    let (ds, carry) := addStep (level - 1) ((ofUnit? parent).getD center) ds
    (child :: ds, carry)

end Direction

namespace Address

open Direction

/-- The neighbour of a cell in a direction.  A pentagon has none in direction `k`; a step
within the base cell of a pentagon that would enter the missing child passes over it. -/
def neighbor? (c : Address) (d : Direction) : Option Address :=
  let (reversed, carry) := addStep c.level d c.digits.reverse
  let digits := reversed.reverse
  if carry = .center then
    if c.base.isPentagon && leading digits == .k then
      match c.lead with
      | .jk => ofParts? c.base (digits.map turn)
      | .ik => ofParts? c.base (digits.map turnBack)
      | _ => none
    else ofParts? c.base digits
  else
    match c.base.neighbor carry with
    | some a => some (settle a (BaseCell.missingIsClockwise c.base.home.face a.cell) digits)
    | none =>
      (c.base.neighbor .ik).map fun a =>
        settle a (BaseCell.missingIsClockwise c.base.home.face a.cell) (digits.map turn)

/-- The neighbours of a cell. -/
def neighbors (c : Address) : List Address :=
  outward.filterMap c.neighbor?

end Address

namespace Cell

/-- The neighbours of a cell: six, or five of a pentagon. -/
def neighbors (c : Cell) : List Cell :=
  c.address.neighbors.filterMap ofAddress?

/-- Whether two cells share an edge. -/
def isNeighbor (c d : Cell) : Bool := c.neighbors.contains d

/-- The cells of a list that a set does not hold yet, each once, and the grown set. -/
def collect (seen : Std.HashSet Cell) : List Cell → List Cell × Std.HashSet Cell
  | [] => ([], seen)
  | c :: cs =>
    if seen.contains c then collect seen cs
    else
      let (fresh, seen) := collect (seen.insert c) cs
      (c :: fresh, seen)

/-- The cells reached from a layer in at most `k` further steps and not seen before. -/
def grow : (k : Nat) → (layer : List Cell) → Std.HashSet Cell → List Cell
  | 0, _, _ => []
  | k + 1, layer, seen =>
    let (fresh, seen) := collect seen (layer.flatMap neighbors)
    fresh ++ grow k fresh seen

/-- The cells that are at most `k` steps away from a cell, which comes first. -/
def disk (c : Cell) (k : Nat) : List Cell :=
  c :: grow k [c] (Std.HashSet.emptyWithCapacity.insert c)

/-- The cells of the disk of radius `k` around a cell that the disk of radius `k - 1` does not
hold, with disks as a function gives them. -/
def ringOf (disk : Cell → Nat → List Cell) (c : Cell) (k : Nat) : List Cell :=
  if k = 0 then [c]
  else
    let inner := Std.HashSet.ofList (disk c (k - 1))
    (disk c k).filter fun d => !inner.contains d

/-- The cells that are exactly `k` steps away from a cell. -/
def ring : Cell → Nat → List Cell := ringOf disk

end Cell

end GeoDispatch
