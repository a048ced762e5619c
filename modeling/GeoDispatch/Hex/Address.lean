import GeoDispatch.Hex.BaseCell

/-!
# Addresses of cells

A cell of any grid is addressed by the cell of the coarsest grid that it descends from and
by the child taken at each level.  A pentagon lacks the child in direction `k`, so below a
pentagon the first child off the centre is another one: this is an invariant of the type.
Turning all digits of an address turns the cell about the centre of its base cell; about a
pentagon the missing child is passed over.
-/

namespace GeoDispatch

namespace Direction

/-- The first direction off the centre, or the centre. -/
def leading : List Direction → Direction
  | [] => center
  | d :: ds => if d = center then leading ds else d

theorem leading_map {f : Direction → Direction} (hf : ∀ d, f d = center ↔ d = center)
    (ds : List Direction) : leading (ds.map f) = f (leading ds) := by
  induction ds with
  | nil => exact ((hf center).2 rfl).symm
  | cons d ds ih => by_cases h : d = center <;> simp [leading, hf, h, ih]

theorem leading_map_turn (ds : List Direction) :
    leading (ds.map turn) = (leading ds).turn :=
  leading_map turn_eq_center_iff ds

theorem leading_map_turnBack (ds : List Direction) :
    leading (ds.map turnBack) = (leading ds).turnBack :=
  leading_map turnBack_eq_center_iff ds

/-- Turns digits about a pentagon by one of its five parts, counterclockwise. -/
def turnFifth (ds : List Direction) : List Direction :=
  let ts := ds.map turn
  if leading ts = .k then ts.map turn else ts

/-- Turns digits about a pentagon by one of its five parts, clockwise. -/
def turnFifthBack (ds : List Direction) : List Direction :=
  let ts := ds.map turnBack
  if leading ts = .k then ts.map turnBack else ts

theorem leading_turnFifth_ne (ds : List Direction) : leading (turnFifth ds) ≠ .k := by
  unfold turnFifth
  by_cases h : leading (ds.map turn) = .k
  · rw [if_pos h, leading_map_turn, h]; decide
  · simp [h]

/-- Turns digits several times. -/
def turnDigits (turn : List Direction → List Direction) :
    (n : Nat) → List Direction → List Direction
  | 0, ds => ds
  | n + 1, ds => turnDigits turn n (turn ds)

@[simp] theorem length_turnFifth (ds : List Direction) :
    (turnFifth ds).length = ds.length := by
  unfold turnFifth; by_cases h : leading (ds.map turn) = .k <;> simp [h]

theorem leading_turnDigits_ne {ds : List Direction} (h : leading ds ≠ .k) (n : Nat) :
    leading (turnDigits turnFifth n ds) ≠ .k := by
  induction n generalizing ds with
  | zero => exact h
  | succ n ih => exact ih (leading_turnFifth_ne ds)

theorem length_turnDigits {turn : List Direction → List Direction}
    (ht : ∀ ds, (turn ds).length = ds.length) (n : Nat) (ds : List Direction) :
    (turnDigits turn n ds).length = ds.length := by
  induction n generalizing ds with
  | zero => rfl
  | succ n ih => rw [turnDigits, ih, ht]

/-- The lattice point of a digit string, from a point of the coarsest grid on. -/
def descendFrom (level : Nat) (x : Coord) : List Direction → Coord
  | [] => x
  | d :: ds => descendFrom (level + 1) (d.toCoord (level + 1) x) ds

/-- The point of the coarsest grid above a lattice point of grid `level`, and the digits
that lead back. -/
def ascend : (level : Nat) → Coord → List Direction → Coord × List Direction
  | 0, x, ds => (x, ds)
  | level + 1, x, ds =>
    let (parent, d) := ofCoord (level + 1) x
    ascend level parent (d :: ds)

theorem length_ascend (level : Nat) (x : Coord) (ds : List Direction) :
    (ascend level x ds).2.length = level + ds.length := by
  induction level generalizing x ds with
  | zero => simp [ascend]
  | succ level ih => rw [ascend, ih]; simp; omega

end Direction

open Direction in
/-- The address of a cell: its base cell, and its digits from the coarsest on. -/
structure Address where
  base : BaseCell
  digits : List Direction
  not_missing : base.isPentagon = true → leading digits ≠ .k
deriving DecidableEq

namespace Address

open Direction

/-- The level of the grid of a cell. -/
def level (c : Address) : Nat := c.digits.length

/-- The first digit off the centre. -/
def lead (c : Address) : Direction := leading c.digits

/-- Whether a cell is a pentagon. -/
def isPentagon (c : Address) : Bool := c.base.isPentagon && c.lead == .center

/-- The address with the given parts, unless it names the missing child of a pentagon. -/
def ofParts? (base : BaseCell) (digits : List Direction) : Option Address :=
  if h : base.isPentagon = true → leading digits ≠ .k then some ⟨base, digits, h⟩ else none

/-- Digits in the orientation of a base cell, after coming there from elsewhere.  In the
missing child of a pentagon, they first turn out of it, clockwise or counterclockwise. -/
def settledDigits (a : Arrival) (clockwise : Bool) (ds : List Direction) :
    List Direction :=
  if a.cell.isPentagon then
    let ds :=
      if leading ds = .k then ds.map (if clockwise then turnBack else turn) else ds
    turnDigits turnFifth a.turns ds
  else turnDigits (List.map turn) a.turns ds

theorem leading_settledDigits_ne {a : Arrival} (h : a.cell.isPentagon = true)
    (clockwise : Bool) (ds : List Direction) :
    leading (settledDigits a clockwise ds) ≠ .k := by
  simp only [settledDigits, h, if_true]
  apply leading_turnDigits_ne
  by_cases hk : leading ds = .k
  · cases clockwise <;> simp [hk, leading_map_turn, leading_map_turnBack, turn, turnBack]
  · simp [hk]

theorem length_settledDigits (a : Arrival) (clockwise : Bool) (ds : List Direction) :
    (settledDigits a clockwise ds).length = ds.length := by
  unfold settledDigits
  split
  · rw [length_turnDigits length_turnFifth]; split <;> simp
  · exact length_turnDigits (by simp) _ _

/-- The address reached with these digits on arrival at a base cell. -/
def settle (a : Arrival) (clockwise : Bool) (ds : List Direction) : Address where
  base := a.cell
  digits := settledDigits a clockwise ds
  not_missing h := leading_settledDigits_ne h clockwise ds

@[simp] theorem level_settle (a : Arrival) (clockwise : Bool) (ds : List Direction) :
    (settle a clockwise ds).level = ds.length :=
  length_settledDigits a clockwise ds

/-- The cell whose hexagon holds a lattice point of grid `level` on a face. -/
def ofFacePoint (level : Nat) (f : Face) (x : Coord) : Address :=
  let place := ascend level x []
  let a := (BaseCell.occupant f place.1).getD ⟨0, 0⟩
  settle a (BaseCell.missingIsClockwise f a.cell) place.2

@[simp] theorem level_ofFacePoint (level : Nat) (f : Face) (x : Coord) :
    (ofFacePoint level f x).level = level := by
  simp [ofFacePoint, length_ascend]

/-- The ancestor of a cell in a grid that is not finer than its own. -/
def ancestor? (c : Address) (level : Nat) : Option Address :=
  if level ≤ c.level then ofParts? c.base (c.digits.take level) else none

end Address

end GeoDispatch
