/-!
# Resolutions

The platform uses three of the grids: a coarse one for cities, one for neighbourhoods and
a fine one for blocks.
-/

namespace GeoDispatch

/-- A resolution of the hexagonal grid. -/
inductive Resolution where
  /-- Edges of about 1.22 kilometres. -/
  | city
  /-- Edges of about 0.46 kilometres. -/
  | neighborhood
  /-- Edges of about 0.17 kilometres. -/
  | block
deriving DecidableEq, Repr

namespace Resolution

/-- All resolutions, coarsest first. -/
def all : List Resolution := [city, neighborhood, block]

/-- The level of the grid. -/
def level : Resolution → Nat
  | city => 7
  | neighborhood => 8
  | block => 9

/-- The resolution of a level, if it is served. -/
def ofLevel? (n : Nat) : Option Resolution := all.find? fun r => r.level == n

/-- The length of a hexagon's edge in kilometres. -/
def edgeLength : Resolution → Float
  | city => 1.22
  | neighborhood => 0.46
  | block => 0.17

/-- The name of a resolution in documents. -/
def name : Resolution → String
  | city => "city"
  | neighborhood => "neighborhood"
  | block => "block"

/-- The resolution with a name. -/
def ofName? (s : String) : Option Resolution := all.find? fun r => r.name == s

/-- The name of a resolution in messages. -/
def label : Resolution → String
  | city => "City"
  | neighborhood => "Neighborhood"
  | block => "Block"

instance : Inhabited Resolution := ⟨neighborhood⟩

@[simp] theorem ofLevel?_level (r : Resolution) : ofLevel? r.level = some r := by
  cases r <;> rfl

@[simp] theorem ofName?_name (r : Resolution) : ofName? r.name = some r := by
  cases r <;> decide

theorem level_eq_of_ofLevel? {n : Nat} {r : Resolution} (h : ofLevel? n = some r) :
    r.level = n := by
  simpa using List.find?_some h

end Resolution

end GeoDispatch
