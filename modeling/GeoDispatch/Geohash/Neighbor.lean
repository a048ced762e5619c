import GeoDispatch.Geohash.Basic
import GeoDispatch.Sphere.Compass

/-!
# Neighbouring hashes

The hash next to a hash has another last digit, which a table tells; where the step
leaves the box of the digits before, those digits take the same step.  The tables depend
on the parity of the length, since with each digit the axes change places.  A step past
the antimeridian comes back on the other side, and a step past a pole is not taken.
-/

namespace GeoDispatch

/-- The four directions of a step. -/
inductive Cardinal where
  | north | south | east | west
deriving DecidableEq, Repr

namespace Cardinal

/-- Place `i` of the table holds the digit whose neighbour is `i`, for the last digit of
a hash of odd or even length. -/
def table : Cardinal → (odd : Bool) → List Digit32
  | north, false | east, true =>
    [21, 0, 23, 2, 1, 4, 3, 6, 29, 8, 31, 10, 9, 12, 11, 14,
      5, 16, 7, 18, 17, 20, 19, 22, 13, 24, 15, 26, 25, 28, 27, 30]
  | north, true | east, false =>
    [10, 11, 0, 1, 14, 15, 4, 5, 2, 3, 8, 9, 6, 7, 12, 13,
      26, 27, 16, 17, 30, 31, 20, 21, 18, 19, 24, 25, 22, 23, 28, 29]
  | south, false | west, true =>
    [1, 4, 3, 6, 5, 16, 7, 18, 9, 12, 11, 14, 13, 24, 15, 26,
      17, 20, 19, 22, 21, 0, 23, 2, 25, 28, 27, 30, 29, 8, 31, 10]
  | south, true | west, false =>
    [2, 3, 8, 9, 6, 7, 12, 13, 10, 11, 0, 1, 14, 15, 4, 5,
      18, 19, 24, 25, 22, 23, 28, 29, 26, 27, 16, 17, 30, 31, 20, 21]

/-- The last digits from which a step leaves the box of the digits before. -/
def border : Cardinal → (odd : Bool) → List Digit32
  | north, false | east, true => [21, 23, 29, 31]
  | north, true | east, false => [10, 11, 14, 15, 26, 27, 30, 31]
  | south, false | west, true => [0, 2, 8, 10]
  | south, true | west, false => [0, 1, 4, 5, 16, 17, 20, 21]

/-- The neighbour of a last digit. -/
def digit (c : Cardinal) (odd : Bool) (d : Digit32) : Digit32 :=
  Fin.ofNat 32 ((c.table odd).idxOf d)

/-- One step in a direction, on the digits from the last to the first. -/
def stepReversed (c : Cardinal) : List Digit32 → List Digit32
  | [] => []
  | d :: before =>
    let odd := before.length % 2 == 0
    c.digit odd d ::
      if (c.border odd).contains d then c.stepReversed before else before

end Cardinal

/-- The part of a heading along the meridian. -/
def Compass.latStep? : Compass → Option Cardinal
  | .north | .northEast | .northWest => some .north
  | .south | .southEast | .southWest => some .south
  | .east | .west => none

/-- The part of a heading along the parallel. -/
def Compass.lngStep? : Compass → Option Cardinal
  | .east | .northEast | .southEast => some .east
  | .west | .northWest | .southWest => some .west
  | .north | .south => none

namespace Geohash

/-- One step in a direction, around the antimeridian and around the poles. -/
def step (h : Geohash) (c : Cardinal) : Geohash :=
  ⟨(c.stepReversed h.digits.reverse).reverse⟩

/-- Whether a step would leave the world at a pole: the box of a hash touches the north
pole when every latitude bit is set, and the south pole when none is. -/
def atPole (h : Geohash) : Cardinal → Bool
  | .north => h.latBits.all (· == true)
  | .south => h.latBits.all (· == false)
  | .east | .west => false

/-- The hash next to a hash.  Where a step crosses a pole, only the part of the heading
along the parallel is taken. -/
def adjacent (h : Geohash) (c : Compass) : Geohash :=
  let meridian := (c.latStep?.filter fun m => !h.atPole m).elim h h.step
  c.lngStep?.elim meridian meridian.step

/-- The eight neighbours of a hash, clockwise from north. -/
def neighbors (h : Geohash) : List Geohash := Compass.all.map h.adjacent

/-- A hash and its eight neighbours. -/
def block (h : Geohash) : List Geohash := h :: h.neighbors

end Geohash

end GeoDispatch
