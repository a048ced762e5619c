import GeoDispatch.Hex.Placement

/-!
# Outlines of cells

The outline of a cell is drawn on the plane of the face where its centre lies, six corners
for a hexagon and five for a pentagon, counterclockwise.  A corner beyond a side of the
face is moved to the face behind it, whose plane has another slope; in the grids that are
not aligned with the sides, an edge that crosses a side gets one more vertex there.
-/

namespace GeoDispatch

/-- The corners of a hexagon, seen from its centre, in thirds of a step of the aligned
grid.  A cell of an odd level is wider by `√7` than one of the aligned grid. -/
def hexagonCorners (level : Nat) : List Coord :=
  if level % 2 = 1 then [⟨5, 4⟩, ⟨1, 5⟩, ⟨-4, 1⟩, ⟨-5, -4⟩, ⟨-1, -5⟩, ⟨4, -1⟩]
  else [⟨2, 1⟩, ⟨1, 2⟩, ⟨-1, 1⟩, ⟨-2, -1⟩, ⟨-1, -2⟩, ⟨1, -1⟩]

namespace FacePoint

/-- Where the way from `p` to `q`, on the plane of one face, meets the line of a side. -/
def meet (p q : FacePoint) (s : Side) : Point Float :=
  let hp := s.height p.coord
  let hq := s.height q.coord
  let t := Float.ofInt (2 * (p.scale : Int) - hp) / Float.ofInt (hq - hp)
  let unit := Float.ofNat p.scale
  let part (x y : Int) : Float := (Float.ofInt x + t * Float.ofInt (y - x)) / unit
  p.face.toSphere (part p.coord.a q.coord.a) (part p.coord.b q.coord.b)

/-- The side behind which a face lies. -/
def sideToward? (f g : Face) : Option Side :=
  Side.all.find? fun s => (f.across s).face == g

/-- The vertex that an edge of a hexagon needs where it crosses a side. -/
def crossing? (p q : FacePoint) : Option (Point Float) :=
  if p.isInside && q.isOutside then some (p.meet q q.coord.side)
  else if p.isOutside && q.isInside then some (p.meet q p.coord.side)
  else none

/-- The vertex that an edge of a pentagon needs between two faces: `p` and `q` lie on
neighbouring faces, and `q` is first brought to the plane of the face of `p`. -/
def bend? (p q : FacePoint) : Option (Point Float) :=
  match sideToward? q.face p.face, sideToward? p.face q.face with
  | some back, some forth => some (p.meet (q.through back) forth)
  | _, _ => none

end FacePoint

namespace Address

/-- The corners of a cell on the plane of the face of its centre. -/
def planeCorners (c : Address) : List FacePoint :=
  let p := c.place
  let corners := hexagonCorners c.level
  (if c.isPentagon then corners.take 5 else corners).map fun v =>
    ⟨p.face, p.coord.scale 3 + v, 3 * p.scale⟩

/-- Corner after corner, each followed by the vertex on the edge to the next one. -/
def withVertices (between : FacePoint → FacePoint → Option (Point Float))
    (corners : List FacePoint) : List (Point Float) :=
  (corners.zip (corners.rotateLeft 1)).flatMap fun (p, q) =>
    (p.settle 4).toSphere :: (between p q).toList

/-- The outline of a cell, counterclockwise. -/
def outline (c : Address) : List (Point Float) :=
  let corners := c.planeCorners
  if c.level % 2 = 0 then withVertices (fun _ _ => none) corners
  else if c.isPentagon then
    withVertices (fun p q => (p.settle 4).bend? (q.settle 4)) corners
  else withVertices FacePoint.crossing? corners

end Address

end GeoDispatch
