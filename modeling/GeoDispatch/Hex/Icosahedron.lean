import GeoDispatch.Hex.Direction

/-!
# The twenty faces

The sphere is projected on the twenty faces of an icosahedron.  A face is a triangle with
corners at `2 i`, `2 j` and `2 k` of its own lattice.  Faces come in four bands of five,
numbered from the north: two caps and two middle bands.  Across each side lies one other
face, and `Face.across` says how its lattice continues this one.
-/

namespace GeoDispatch

/-- A face of the icosahedron. -/
abbrev Face := Fin 20

/-- Numbers below 20 are written as faces. -/
instance Face.neZero : @NeZero Nat Zero.ofOfNat0 20 := ⟨by decide⟩

/-- A side of a face, named by the corners at its ends. -/
inductive Side where
  | ij | ki | jk
deriving DecidableEq, Repr

/-- The change of lattice from one face to another: a turn by sixths, then a shift, given
in steps of the coarsest grid. -/
structure FaceChange where
  face : Face
  turns : Nat
  shift : Coord
deriving DecidableEq

/-- A point of a lattice of unit `1 / scale`, seen from the face behind a side. -/
def FaceChange.carry (c : FaceChange) (scale : Nat) (x : Coord) : Coord :=
  x.turnBy c.turns + c.shift.scale scale

/-- The side beyond which a point outside a face lies, or the side on which it lies. -/
def Coord.side (x : Coord) : Side :=
  if 0 < x.k then if 0 < x.j then .jk else .ki else .ij

namespace Side

/-- The sides of a face. -/
def all : List Side := [ij, ki, jk]

/-- The centre of the face behind a side. -/
def beyond : Side → Coord
  | ij => ⟨2, 2⟩
  | ki => ⟨0, -2⟩
  | jk => ⟨-2, 0⟩

/-- The linear form that is greatest on a side, where it is twice the scale. -/
def height (s : Side) (x : Coord) : Int :=
  match s with
  | ij => x.a + x.b
  | ki => x.a - 2 * x.b
  | jk => x.b - 2 * x.a

end Side

namespace Face

/-- The face with a place in a band; places count eastward and start again after the
fifth. -/
def inBand (band place : Nat) : Face := Fin.ofNat 20 (5 * band + place % 5)

/-- The change of lattice across a side of a face. -/
def across (f : Face) (s : Side) : FaceChange :=
  let band := f.val / 5
  let place := f.val % 5
  match band, s with
  | 0, .ij => ⟨inBand 0 (place + 4), 1, Side.ki.beyond⟩
  | 0, .ki => ⟨inBand 0 (place + 1), 5, Side.ij.beyond⟩
  | 0, .jk => ⟨inBand 1 place, 3, Side.jk.beyond⟩
  | 1, .ij => ⟨inBand 2 place, 3, Side.ij.beyond⟩
  | 1, .ki => ⟨inBand 2 (place + 4), 3, Side.ki.beyond⟩
  | 1, .jk => ⟨inBand 0 place, 3, Side.jk.beyond⟩
  | 2, .ij => ⟨inBand 1 place, 3, Side.ij.beyond⟩
  | 2, .ki => ⟨inBand 1 (place + 1), 3, Side.ki.beyond⟩
  | 2, .jk => ⟨inBand 3 place, 3, Side.jk.beyond⟩
  | _, .ij => ⟨inBand 3 (place + 1), 1, Side.ki.beyond⟩
  | _, .ki => ⟨inBand 3 (place + 4), 5, Side.ij.beyond⟩
  | _, .jk => ⟨inBand 2 place, 3, Side.jk.beyond⟩

end Face

/-- A corner of a face. -/
inductive Corner where
  | i | j | k
deriving DecidableEq, Repr

namespace Corner

/-- The corners of a face. -/
def all : List Corner := [i, j, k]

/-- Where a corner lies on its face. -/
def coord : Corner → Coord
  | i => ⟨2, 0⟩
  | j => ⟨0, 2⟩
  | k => ⟨-2, -2⟩

/-- The direction from a corner into the face. -/
def inward : Corner → Direction
  | i => .jk
  | j => .ik
  | k => .ij

/-- The next point of the lattice on the way into the face. -/
def inner (c : Corner) : Coord := c.coord + c.inward.unit

/-- The side that one leaves a face by when walking counterclockwise around a corner. -/
def exit : Corner → Side
  | i => .ki
  | j => .ij
  | k => .jk

/-- The corner at a point, if there is one. -/
def ofCoord? (x : Coord) : Option Corner := all.find? fun c => c.coord == x

end Corner

/-- A face as seen from one of its corners. -/
structure Wedge where
  face : Face
  corner : Corner
deriving DecidableEq

namespace Wedge

/-- The next face counterclockwise around the corner. -/
def next (w : Wedge) : Wedge :=
  let c := w.face.across w.corner.exit
  ⟨c.face, (Corner.ofCoord? (c.carry 1 w.corner.coord)).getD .i⟩

/-- The face `n` places on, counterclockwise around the corner. -/
def advance : (n : Nat) → Wedge → Wedge
  | 0, w => w
  | n + 1, w => advance n w.next

end Wedge

end GeoDispatch
