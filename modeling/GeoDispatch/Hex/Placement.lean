import GeoDispatch.Hex.Address
import GeoDispatch.Hex.Projection

/-!
# Where cells lie

`Address.place` finds the centre of a cell on a face, `Address.center` on the sphere, and
`Address.locate` the cell that holds a point of the sphere.  All three pass through lattice
points on faces (`FacePoint`), whose coordinates are whole numbers of a grid that is
aligned with the face's sides; every second grid is, so a cell of another level is placed
in the next finer one.
-/

namespace GeoDispatch

/-- A point of a lattice of unit `1 / scale` on a face. -/
structure FacePoint where
  face : Face
  coord : Coord
  scale : Nat
deriving DecidableEq

namespace FacePoint

/-- Whether a point lies strictly beyond a side of the face. -/
def isOutside (p : FacePoint) : Bool := 2 * (p.scale : Int) < p.coord.spread

/-- Whether a point lies strictly within the face. -/
def isInside (p : FacePoint) : Bool := p.coord.spread < 2 * (p.scale : Int)

/-- The point on the face beyond a side. -/
def through (p : FacePoint) (s : Side) : FacePoint :=
  let c := p.face.across s
  ⟨c.face, c.carry p.scale p.coord, p.scale⟩

/-- The point on the face that it lies on, found by crossing a side at most `n` times. -/
def settle : (n : Nat) → FacePoint → FacePoint
  | 0, p => p
  | n + 1, p => if p.isOutside then settle n (p.through p.coord.side) else p

/-- The point of the sphere. -/
def toSphere (p : FacePoint) : Point Float :=
  let s := Float.ofNat p.scale
  p.face.toSphere (Float.ofInt p.coord.a / s) (Float.ofInt p.coord.b / s)

end FacePoint

/-- The steps of the grid of a level, or of the next finer one if its level is odd, that
make one step of the coarsest grid. -/
def alignedScale (level : Nat) : Nat := Nat.pow 7 ((level + 1) / 2)

/-- A lattice point of a level in the grid aligned with the sides of the face. -/
def Coord.align (level : Nat) (x : Coord) : Coord :=
  if level % 2 = 1 then x * spiral (level + 1) else x

/-- The lattice point nearest to a place given by its two coordinates. -/
def Coord.nearest (a b : Float) : Coord :=
  let p := a - b
  let rp := p.round
  let rq := b.round
  let rs := (-a).round
  let dp := (rp - p).abs
  let dq := (rq - b).abs
  let ds := (rs + a).abs
  let int (x : Float) : Int := x.toInt64.toInt
  if dq < dp && ds < dp then ⟨-int rs, int rq⟩
  else if ds < dq then ⟨-int rs, -int rp - int rs⟩
  else ⟨int rp + int rq, int rq⟩

/-- A place on a face in units of the grid of a level. -/
def toLevel (level : Nat) (a b : Float) : Float × Float :=
  let s := Float.ofNat (alignedScale level)
  let a := a * s
  let b := b * s
  if level % 2 = 1 then ((2 * a + b) / 7, (3 * b - a) / 7) else (a, b)

namespace Address

open Direction

/-- The cell of a level that holds a point of the sphere. -/
def locate (level : Nat) (p : Point Float) : Address :=
  let v := Vec3.ofPoint p
  let f := v.nearestFace
  let (a, b) := v.planar f
  let (a, b) := toLevel level a b
  ofFacePoint level f (Coord.nearest a b)

@[simp] theorem level_locate (level : Nat) (p : Point Float) :
    (locate level p).level = level := by
  simp [locate]

/-- The digits of a cell on the plane of its home face.  Around a pentagon the plane has
a gap in direction `k`, and the children of direction `ik` lie behind it. -/
def planeDigits (c : Address) : List Direction :=
  if c.base.isPentagon && c.lead == .ik then c.digits.map turnBack else c.digits

/-- The centre of a cell on the plane of its home face.  Around a pentagon, children of
direction `i` that lie beyond side `ki` are reached through the gap. -/
def homePlace (c : Address) : FacePoint :=
  let scale := alignedScale c.level
  let x := (descendFrom 0 c.base.home.coord c.planeDigits).align c.level
  let p : FacePoint := ⟨c.base.home.face, x, scale⟩
  if c.base.isPentagon && c.lead == .i && p.isOutside && x.side == .ki then
    let corner := Corner.i.coord.scale scale
    { p with coord := (x - corner).turnBy 5 + corner }
  else p

/-- The centre of a cell on the face where it lies. -/
def place (c : Address) : FacePoint := c.homePlace.settle 4

/-- The centre of a cell. -/
def center (c : Address) : Point Float := c.place.toSphere

end Address

end GeoDispatch
