import GeoDispatch.Hex.Coord

/-!
# The seven children of a hexagon

A hexagon has seven children: one around its centre and one in each of six directions.
The directions are named by the axes `i`, `j`, `k` of the lattice, a third of a turn
apart, and the sums of two of them.
-/

namespace GeoDispatch

/-- The centre or one of the six directions of the lattice. -/
inductive Direction where
  | center | k | j | jk | i | ik | ij
deriving DecidableEq, Repr

namespace Direction

/-- The centre and the six directions, by number. -/
def all : List Direction := [center, k, j, jk, i, ik, ij]

/-- The six directions. -/
def outward : List Direction := [k, j, jk, i, ik, ij]

/-- The number of a direction. -/
def toNat : Direction → Nat
  | center => 0
  | k => 1
  | j => 2
  | jk => 3
  | i => 4
  | ik => 5
  | ij => 6

/-- The direction of a number below seven. -/
def ofNat? (n : Nat) : Option Direction := all[n]?

/-- The neighbour of the origin in a direction. -/
def unit : Direction → Coord
  | center => ⟨0, 0⟩
  | k => ⟨-1, -1⟩
  | j => ⟨0, 1⟩
  | jk => ⟨-1, 0⟩
  | i => ⟨1, 0⟩
  | ik => ⟨0, -1⟩
  | ij => ⟨1, 1⟩

/-- The direction from the origin to one of its neighbours. -/
def ofUnit? (x : Coord) : Option Direction := all.find? fun d => d.unit == x

/-- The direction a sixth of a turn counterclockwise. -/
def turn : Direction → Direction
  | center => center
  | k => ik
  | ik => i
  | i => ij
  | ij => j
  | j => jk
  | jk => k

/-- The direction a sixth of a turn clockwise. -/
def turnBack : Direction → Direction
  | center => center
  | ik => k
  | i => ik
  | ij => i
  | j => ij
  | jk => j
  | k => jk

/-- The direction several sixths of a turn counterclockwise. -/
def turnBy : (n : Nat) → Direction → Direction
  | 0, d => d
  | n + 1, d => turnBy n d.turn

@[simp] theorem turn_turnBack (d : Direction) : d.turnBack.turn = d := by
  cases d <;> rfl

@[simp] theorem turnBack_turn (d : Direction) : d.turn.turnBack = d := by
  cases d <;> rfl

@[simp] theorem ofNat?_toNat (d : Direction) : ofNat? d.toNat = some d := by
  cases d <;> rfl

@[simp] theorem turn_eq_center_iff (d : Direction) : d.turn = center ↔ d = center := by
  cases d <;> decide

@[simp] theorem turnBack_eq_center_iff (d : Direction) :
    d.turnBack = center ↔ d = center := by
  cases d <;> decide

/-- Splits a lattice point into the hexagon of the coarser grid that owns it and the
child that it is there. -/
def ofCoord (level : Nat) (x : Coord) : Coord × Direction :=
  let parent := x.coarsen level
  (parent, (ofUnit? (x - parent * Coord.spiral level)).getD center)

/-- The lattice point of a child of a hexagon. -/
def toCoord (level : Nat) (parent : Coord) (d : Direction) : Coord :=
  parent * Coord.spiral level + d.unit

end Direction

end GeoDispatch
