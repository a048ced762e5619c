import GeoDispatch.Json.Codec
import GeoDispatch.Number.Scalar
import GeoDispatch.Settings

/-!
# Surge

The more requests there are to a driver, the higher the surge of a cell: 1, 1.25, 1.5 or 2.
Scores put the numbers of requests and of drivers in relation to the numbers at which a
cell is full, and a colour shows the surge on a map.
-/

namespace GeoDispatch

open Json

/-- The surge of a cell without excess demand. -/
def baseSurge : Float := 1

/-- The surge of a cell: 2 for requests without drivers and for more than three requests to
a driver, 1.5 for more than two, 1.25 for more than one and a half. -/
def surgeLevel (drivers requests : Nat) : Float :=
  if drivers = 0 then if 0 < requests then 2 else baseSurge
  else
    let ratio := Float.ofNat requests / Float.ofNat drivers
    if 3 < ratio then 2
    else if 2 < ratio then 1.5
    else if 1.5 < ratio then 1.25
    else baseSurge

/-- The demand of a cell, from 0 to 1. -/
def demandScore (requests : Nat) (s : HeatmapSettings) : Float :=
  Scalar.minNum (Float.ofNat requests / s.demandNormalization) 1

/-- The supply of a cell, from 0 to 1. -/
def supplyScore (drivers : Nat) (s : HeatmapSettings) : Float :=
  Scalar.minNum (Float.ofNat drivers / s.supplyNormalization) 1

/-- The colours of cells on a map. -/
inductive SurgeColor where
  | red | orange | yellow | green | blue | gray
deriving DecidableEq, Repr

namespace SurgeColor

/-- All colours. -/
def all : List SurgeColor := [red, orange, yellow, green, blue, gray]

/-- The name of a colour. -/
def name : SurgeColor → String
  | red => "red"
  | orange => "orange"
  | yellow => "yellow"
  | green => "green"
  | blue => "blue"
  | gray => "gray"

/-- The colour with a name. -/
def ofName? (s : String) : Option SurgeColor := all.find? fun c => c.name == s

@[simp] theorem ofName?_name (c : SurgeColor) : ofName? c.name = some c := by
  cases c <;> decide

/-- The colour of a surge in a cell with some drivers and requests; a cell with neither is
gray. -/
def ofSurge (surge : Float) (drivers requests : Nat) : SurgeColor :=
  if drivers = 0 ∧ requests = 0 then gray
  else if 2 ≤ surge then red
  else if 1.5 ≤ surge then orange
  else if 1.25 ≤ surge then yellow
  else if 1 ≤ surge then green
  else blue

end SurgeColor

instance : Codec SurgeColor :=
  ⟨fun c => .ofString c.name, Decoder.alternative SurgeColor.ofName?⟩

end GeoDispatch
