import GeoDispatch.Sphere.GreatCircle

/-!
# Compass headings

The eight headings of the compass.  Each owns the sector of 45 degrees around it, so
north owns the bearings from 337.5 up to 22.5.
-/

namespace GeoDispatch

open Scalar Trigonometric

/-- The eight headings, clockwise from north. -/
inductive Compass where
  | north | northEast | east | southEast | south | southWest | west | northWest
deriving DecidableEq, Repr

namespace Compass

/-- All headings, clockwise from north. -/
def all : List Compass :=
  [north, northEast, east, southEast, south, southWest, west, northWest]

/-- The letters of a heading. -/
def letters : Compass → String
  | north => "N"
  | northEast => "NE"
  | east => "E"
  | southEast => "SE"
  | south => "S"
  | southWest => "SW"
  | west => "W"
  | northWest => "NW"

/-- The heading with the given letters. -/
def ofLetters? (s : String) : Option Compass :=
  all.find? fun c => c.letters == s

@[simp] theorem ofLetters?_letters (c : Compass) : ofLetters? c.letters = some c := by
  cases c <;> decide

/-- The heading whose sector holds a bearing; north for an undefined one. -/
def ofBearing {α : Type} [Trigonometric α] (deg : α) : Compass :=
  let sector := truncate ((normalizeBearing deg + decimal 225 1) / num 45) % 8
  all.getD sector north

end Compass

end GeoDispatch
