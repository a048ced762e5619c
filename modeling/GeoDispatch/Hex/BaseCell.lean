import GeoDispatch.Hex.Icosahedron

/-!
# The cells of the coarsest grid

The coarsest grid has 122 cells: a pentagon at each of the twelve corners of the
icosahedron, and hexagons around the centres of the faces, inside them and on their
sides.  Cells are numbered from north to south.  Each has a home, the face and place that
orient its children; `BaseCell.occupant` finds the cell at any place of any face, and
`BaseCell.neighbor` the cell next to a cell, both with the turn between the two
orientations.
-/

namespace GeoDispatch

/-- The home of a cell of the coarsest grid. -/
inductive Home where
  /-- A hexagon at the centre of a face or next to it. -/
  | hexagon (face : Face) (place : Direction)
  /-- A pentagon, always at the first corner of its home face. -/
  | pentagon (face : Face)
deriving DecidableEq

namespace Home

/-- The home face. -/
def face : Home → Face
  | hexagon f _ => f
  | pentagon f => f

/-- The place on the home face. -/
def coord : Home → Coord
  | hexagon _ d => d.unit
  | pentagon _ => Corner.i.coord

end Home

/-- A cell of the coarsest grid. -/
abbrev BaseCell := Fin 122

/-- A cell of the coarsest grid and the sixths of a turn, counterclockwise, that lead
from the orientation one comes with to the orientation of its home. -/
structure Arrival where
  cell : BaseCell
  turns : Nat
deriving DecidableEq

namespace BaseCell

/-- The homes of the cells, in their order. -/
def homes : Vector Home 122 :=
  #v[
    .hexagon 1 .i, .hexagon 2 .ij, .hexagon 1 .center, .hexagon 2 .i, .pentagon 0,
    .hexagon 1 .ij, .hexagon 1 .k, .hexagon 2 .center, .hexagon 0 .i, .hexagon 2 .j,
    .hexagon 1 .j, .hexagon 1 .jk, .hexagon 3 .i, .hexagon 3 .ij, .pentagon 11,
    .hexagon 4 .i, .hexagon 0 .center, .hexagon 6 .j, .hexagon 0 .k, .hexagon 2 .jk,
    .hexagon 7 .k, .hexagon 2 .k, .hexagon 0 .ij, .hexagon 6 .k, .pentagon 10,
    .hexagon 6 .center, .hexagon 3 .center, .hexagon 11 .i, .hexagon 4 .ij, .hexagon 3 .j,
    .hexagon 0 .jk, .hexagon 4 .center, .hexagon 5 .j, .hexagon 0 .j, .hexagon 7 .j,
    .hexagon 11 .ij, .hexagon 7 .center, .hexagon 10 .i, .pentagon 12, .hexagon 6 .ik,
    .hexagon 7 .ik, .hexagon 4 .k, .hexagon 3 .k, .hexagon 3 .jk, .hexagon 4 .j,
    .hexagon 6 .i, .hexagon 11 .center, .hexagon 8 .k, .hexagon 5 .k, .pentagon 14,
    .hexagon 5 .center, .hexagon 12 .i, .hexagon 10 .ij, .hexagon 4 .jk, .hexagon 12 .ij,
    .hexagon 7 .i, .hexagon 11 .j, .hexagon 10 .center, .pentagon 13, .hexagon 10 .k,
    .hexagon 11 .k, .hexagon 9 .j, .hexagon 8 .j, .pentagon 6, .hexagon 8 .center,
    .hexagon 9 .k, .hexagon 14 .i, .hexagon 5 .ik, .hexagon 16 .jk, .hexagon 8 .ik,
    .hexagon 5 .i, .hexagon 12 .center, .pentagon 7, .hexagon 12 .j, .hexagon 10 .j,
    .hexagon 9 .center, .hexagon 13 .i, .hexagon 16 .k, .hexagon 15 .jk, .hexagon 15 .j,
    .hexagon 16 .j, .hexagon 14 .ij, .hexagon 13 .ij, .pentagon 5, .hexagon 8 .i,
    .hexagon 14 .center, .hexagon 9 .ik, .hexagon 14 .k, .hexagon 17 .k, .hexagon 12 .k,
    .hexagon 16 .center, .hexagon 17 .jk, .hexagon 15 .k, .hexagon 16 .ik, .hexagon 9 .i,
    .hexagon 15 .center, .hexagon 13 .center, .pentagon 8, .hexagon 13 .j, .hexagon 17 .ik,
    .hexagon 19 .j, .hexagon 14 .j, .hexagon 19 .jk, .hexagon 17 .j, .hexagon 13 .k,
    .hexagon 17 .center, .hexagon 16 .i, .pentagon 9, .hexagon 15 .ik, .hexagon 15 .i,
    .hexagon 18 .jk, .hexagon 18 .k, .hexagon 19 .k, .hexagon 17 .i, .hexagon 19 .center,
    .hexagon 18 .j, .hexagon 18 .ik, .pentagon 19, .hexagon 19 .i, .hexagon 18 .center,
    .hexagon 19 .ik, .hexagon 18 .i]

/-- The home of a cell. -/
def home (b : BaseCell) : Home := homes[b]

/-- Whether a cell lies at a corner of the icosahedron and has only five neighbours. -/
def isPentagon (b : BaseCell) : Bool :=
  match b.home with
  | .pentagon _ => true
  | .hexagon .. => false

/-- The cell whose home is a place on a face. -/
def ofHome? (f : Face) (x : Coord) : Option BaseCell :=
  (List.finRange 122).find? fun b => b.home.face == f && b.home.coord == x

/-- The wedge of a pentagon at its home. -/
def wedge (b : BaseCell) : Wedge := ⟨b.home.face, .i⟩

/-- Whether a cell is one of the two pentagons, in the far north and the far south, that
lie at the first corner of all five faces around them. -/
def isPolar (b : BaseCell) : Bool :=
  b.isPentagon && (List.range 5).all fun n => (b.wedge.advance n).corner == .i

/-- The directions of a pentagon's neighbours, counterclockwise from its home face. -/
def spokes : List Direction := [.jk, .ik, .i, .ij, .j]

/-- The pentagon at a corner of a face.  It is looked for at the homes of the faces that
one meets when walking counterclockwise around the corner; each face on the way, and each
spoke by which the face's own spoke lags behind, is one turn. -/
def atCorner (w : Wedge) : Option Arrival :=
  (List.range 5).findSome? fun n =>
    let v := w.advance n
    if v.corner = .i then
      (ofHome? v.face v.corner.coord).map fun b =>
        ⟨b, (10 - n - spokes.idxOf w.corner.inward) % 5⟩
    else none

/-- The cell at a place inside a face or on its sides. -/
def onFace (f : Face) (x : Coord) : Option Arrival :=
  match Corner.ofCoord? x with
  | some c => atCorner ⟨f, c⟩
  | none =>
    match ofHome? f x with
    | some b => some ⟨b, 0⟩
    | none =>
      let c := f.across x.side
      (ofHome? c.face (c.carry 1 x)).map fun b => ⟨b, c.turns⟩

/-- The cell at a place that belongs to a face or lies one step beyond a side of it. -/
def occupant (f : Face) (x : Coord) : Option Arrival :=
  if x.spread ≤ 2 then onFace f x
  else
    let c := f.across x.side
    (onFace c.face (c.carry 1 x)).map fun a => ⟨a.cell, (c.turns + a.turns) % 6⟩

/-- The sixths of a turn, counterclockwise, from one direction to another. -/
def turnsBetween (d e : Direction) : Nat :=
  ((List.range 6).find? fun n => d.turnBy n == e).getD 0

/-- The cell next to a cell in a direction.  A pentagon has no neighbour in direction `k`;
its other neighbours lie one on each of the five faces around it. -/
def neighbor (b : BaseCell) (d : Direction) : Option Arrival :=
  if d = .center then some ⟨b, 0⟩
  else if b.isPentagon then
    if d = .k then none
    else
      let w := b.wedge.advance (spokes.idxOf d)
      (ofHome? w.face w.corner.inner).map fun n => ⟨n, turnsBetween d w.corner.inward⟩
  else occupant b.home.face (b.home.coord + d.unit)

/-- The direction in which one cell borders another. -/
def directionTo? (b n : BaseCell) : Option Direction :=
  Direction.all.find? fun d => (b.neighbor d).map Arrival.cell == some n

/-- Whether walking from a face into the missing child of a pentagon leads clockwise
around it: so it is on the faces that have the pentagon at their second corner. -/
def missingIsClockwise (f : Face) (b : BaseCell) : Bool :=
  (atCorner ⟨f, .j⟩).map Arrival.cell == some b

end BaseCell

end GeoDispatch
