import GeoDispatch.Hex.Icosahedron
import GeoDispatch.Sphere.Point

/-!
# Projecting the sphere on the faces

Each face has a plane that touches the unit sphere at the face's centre, and a point of
the sphere is projected from the centre of the sphere.  `Vec3.planar` gives the place of a
unit vector on the plane of a face in lattice coordinates, `Face.toSphere` goes back.
-/

namespace GeoDispatch

/-- A vector of space. -/
structure Vec3 where
  x : Float
  y : Float
  z : Float

namespace Vec3

instance : Add Vec3 := ⟨fun u v => ⟨u.x + v.x, u.y + v.y, u.z + v.z⟩⟩

/-- A multiple of a vector. -/
def scale (c : Float) (v : Vec3) : Vec3 := ⟨c * v.x, c * v.y, c * v.z⟩

/-- The inner product. -/
def dot (u v : Vec3) : Float := u.x * v.x + u.y * v.y + u.z * v.z

/-- The unit vector of a latitude and a longitude in radians. -/
def ofAngles (lat lng : Float) : Vec3 :=
  ⟨lat.cos * lng.cos, lat.cos * lng.sin, lat.sin⟩

/-- The unit vector toward a point of the sphere. -/
def ofPoint (p : Point Float) : Vec3 :=
  ofAngles (Scalar.toRadians p.lat) (Scalar.toRadians p.lng)

/-- The point of the sphere in the direction of a vector. -/
def toPoint (v : Vec3) : Point Float :=
  ⟨Trigonometric.toDegrees (Float.atan2 v.z (v.x * v.x + v.y * v.y).sqrt),
    Trigonometric.toDegrees (Float.atan2 v.y v.x)⟩

end Vec3

/-- Where a face touches the sphere, and the bearing there of its first axis, in
radians. -/
structure FaceSetting where
  lat : Float
  lng : Float
  bearing : Float

/-- The settings of the twenty faces. -/
def faceSettings : Vector FaceSetting 20 :=
  #v[
    ⟨0.803582649718989942, 1.248397419617396099, 5.619958268523939882⟩,
    ⟨1.307747883455638156, 2.536945009877921159, 5.760339081714187279⟩,
    ⟨1.054751253523952054, -1.347517358900396623, 0.780213654393430055⟩,
    ⟨0.600191595538186799, -0.450603909469755746, 0.430469363979999913⟩,
    ⟨0.491715428198773866, 0.401988202911306943, 6.130269123335111400⟩,
    ⟨0.172745327415618701, 1.678146885280433686, 2.692877706530642877⟩,
    ⟨0.605929321571350690, 2.953923329812411617, 2.982963003477243874⟩,
    ⟨0.427370518328979641, -1.888876200336285401, 3.532912002790141181⟩,
    ⟨-0.079066118549212831, -0.733429513380867741, 3.494305004259568154⟩,
    ⟨-0.230961644455383637, 0.506495587332349035, 3.003214169499538391⟩,
    ⟨0.079066118549212831, 2.408163140208925497, 5.930472956509811562⟩,
    ⟨0.230961644455383637, -2.635097066257444203, 0.138378484090254847⟩,
    ⟨-0.172745327415618701, -1.463445768309359553, 0.448714947059150361⟩,
    ⟨-0.605929321571350690, -0.187669323777381622, 0.158629650112549365⟩,
    ⟨-0.427370518328979641, 1.252716453253507838, 5.891865957979238535⟩,
    ⟨-0.600191595538186799, 2.690988744120037492, 2.711123289609793325⟩,
    ⟨-0.491715428198773866, -2.739604450678486295, 3.294508837434268316⟩,
    ⟨-0.803582649718989942, -1.893195233972397139, 3.804819692245439833⟩,
    ⟨-1.307747883455638156, -0.604647643711872080, 3.664438879055192436⟩,
    ⟨-1.054751253523952054, 1.794075294689396615, 2.361378999196363184⟩]

/-- The axes of a face: out of the sphere, along the first axis of the lattice, and a
quarter of a turn counterclockwise from there. -/
structure FaceFrame where
  normal : Vec3
  along : Vec3
  across : Vec3

/-- The frame of a face with a given setting. -/
def FaceSetting.frame (s : FaceSetting) : FaceFrame :=
  let north : Vec3 := ⟨-(s.lat.sin * s.lng.cos), -(s.lat.sin * s.lng.sin), s.lat.cos⟩
  let east : Vec3 := ⟨-s.lng.sin, s.lng.cos, 0⟩
  { normal := Vec3.ofAngles s.lat s.lng
    along := north.scale s.bearing.cos + east.scale s.bearing.sin
    across := north.scale s.bearing.sin + east.scale (-s.bearing.cos) }

/-- The frames of the faces. -/
def faceFrames : Vector FaceFrame 20 := faceSettings.map FaceSetting.frame

/-- The frame of a face. -/
def Face.frame (f : Face) : FaceFrame := faceFrames[f]

/-- The length of a step of the coarsest grid on the plane of a face. -/
def coarseStep : Float := 0.38196601125010500003

/-- The height of a triangle with sides of length one. -/
def triangleHeight : Float := 0.8660254037844386

/-- The face whose centre is nearest to a unit vector, the first of several. -/
def Vec3.nearestFace (v : Vec3) : Face :=
  (List.finRange 20).foldl
    (fun best f => if best.frame.normal.dot v < f.frame.normal.dot v then f else best) 0

/-- The place on a face's plane of a unit vector, as a pair of coordinates along the first
two axes of the coarsest lattice. -/
def Vec3.planar (v : Vec3) (f : Face) : Float × Float :=
  let d := f.frame.normal.dot v * coarseStep
  let x := f.frame.along.dot v / d
  let y := f.frame.across.dot v / d
  let b := y / triangleHeight
  (x + b / 2, b)

/-- The point of the sphere behind a place on a face's plane. -/
def Face.toSphere (f : Face) (a b : Float) : Point Float :=
  let x := a - b / 2
  let y := b * triangleHeight
  (f.frame.normal + f.frame.along.scale (coarseStep * x) +
    f.frame.across.scale (coarseStep * y)).toPoint

end GeoDispatch
