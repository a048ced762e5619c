/-!
# The triangular lattice

Centres of hexagons form a triangular lattice, whose points are the numbers `a + b ω`
with integers `a`, `b` and `ω` a third of a turn.  `Coord` holds such a point.  A product
turns and stretches; the two products by `Coord.spiral`, of length `√7`, lead from one
grid to the next finer one, and `Coord.coarsen` rounds back.
-/

namespace GeoDispatch

/-- The lattice point `a + b ω`, where `ω` is a third of a turn. -/
structure Coord where
  a : Int
  b : Int
deriving DecidableEq, Repr

namespace Coord

/-- The origin of the lattice. -/
def zero : Coord := ⟨0, 0⟩

instance : Add Coord := ⟨fun x y => ⟨x.a + y.a, x.b + y.b⟩⟩

instance : Sub Coord := ⟨fun x y => ⟨x.a - y.a, x.b - y.b⟩⟩

instance : Neg Coord := ⟨fun x => ⟨-x.a, -x.b⟩⟩

/-- The product, with `ω² = -1 - ω`. -/
instance : Mul Coord :=
  ⟨fun x y => ⟨x.a * y.a - x.b * y.b, x.a * y.b + x.b * y.a - x.b * y.b⟩⟩

/-- The point `n` times as far. -/
def scale (n : Int) (x : Coord) : Coord := ⟨n * x.a, n * x.b⟩

/-- A sixth of a turn, counterclockwise, about the origin. -/
def turn (x : Coord) : Coord := ⟨x.a - x.b, x.a⟩

/-- Several sixths of a turn, counterclockwise. -/
def turnBy : (n : Nat) → Coord → Coord
  | 0, x => x
  | n + 1, x => turnBy n x.turn

/-- The least coordinate of a point over the three axes. -/
def floor (x : Coord) : Int := min (min x.a x.b) 0

/-- The coordinate along the first axis, when all three are at least zero and one is
zero. -/
def i (x : Coord) : Int := x.a - x.floor

/-- The coordinate along the second axis. -/
def j (x : Coord) : Int := x.b - x.floor

/-- The coordinate along the third axis. -/
def k (x : Coord) : Int := -x.floor

/-- The number of steps between hexagons from the origin to a point. -/
def length (x : Coord) : Nat := (max x.i (max x.j x.k)).toNat

/-- The sum of the three coordinates.  It grows toward the sides of a triangle around the
origin and is constant on each side. -/
def spread (x : Coord) : Int := x.i + x.j + x.k

/-- The factor from one grid to grid `level`, the next finer one: of length `√7`, turned
clockwise into an odd level and counterclockwise into an even one. -/
def spiral (level : Nat) : Coord := if level % 2 = 1 then ⟨2, -1⟩ else ⟨3, 1⟩

/-- The integer nearest to `n / 7`. -/
def seventh (n : Int) : Int := (2 * n + 7) / 14

/-- The point of the grid before `level` whose hexagon owns a point of grid `level`: the
quotient by the factor between them, rounded. -/
def coarsen (level : Nat) (x : Coord) : Coord :=
  let conjugate : Coord := if level % 2 = 1 then ⟨3, 1⟩ else ⟨2, -1⟩
  let y := x * conjugate
  ⟨seventh y.a, seventh y.b⟩

/-- The product of the factors up to grid `level`. -/
def spiralTo : (level : Nat) → Coord
  | 0 => ⟨1, 0⟩
  | level + 1 => spiralTo level * spiral (level + 1)

end Coord

end GeoDispatch
