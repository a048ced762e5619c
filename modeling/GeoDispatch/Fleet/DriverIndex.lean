import GeoDispatch.Fleet.Roster
import GeoDispatch.Grid.HexGrid
import GeoDispatch.Journal

/-!
# The index of drivers

The index puts every driver into the cell of the last valid place that was reported for
that driver, and finds the drivers in the disk around a pickup.  Updates are also values
(`FleetEvent`), so that a history of the index is a list of them.
-/

namespace GeoDispatch

/-- A change of the fleet. -/
inductive FleetEvent where
  /-- A driver reports a place. -/
  | update (driver : String) (place : Point Float)
  /-- A driver goes off duty. -/
  | remove (driver : String)
  /-- All drivers go off duty. -/
  | clear

/-- Where the drivers are. -/
structure DriverIndex (C : Type) [BEq C] [Hashable C] where
  grid : Grid C
  roster : Roster C

/-- What a search found, in the order of identifiers, with the index and the journal after
it. -/
structure Search (C : Type) [BEq C] [Hashable C] where
  found : List (String × C)
  index : DriverIndex C
  records : List (Record C)

namespace DriverIndex

variable {C : Type} [DecidableEq C] [Hashable C]

/-- An index over a grid, without drivers. -/
def ofGrid (g : Grid C) : DriverIndex C := ⟨g, .empty⟩

/-- A driver reports a place.  A place out of range is passed over, and a driver who is
still in the same cell changes nothing. -/
def update (x : DriverIndex C) (d : String) (p : Point Float) :
    DriverIndex C × List (Record C) :=
  match x.grid.cellOf p with
  | .error e => (x, [.updateIgnored d e])
  | .ok c =>
    let previous := x.roster.cellOf? d
    if previous = some c then (x, [])
    else ({ x with roster := x.roster.place d c }, [.driverMoved d previous c])

/-- A driver goes off duty. -/
def remove (x : DriverIndex C) (d : String) : DriverIndex C × List (Record C) :=
  match x.roster.cellOf? d with
  | some c => ({ x with roster := x.roster.remove d }, [.driverRemoved d c])
  | none => (x, [])

/-- All drivers go off duty. -/
def clear (x : DriverIndex C) : DriverIndex C := { x with roster := .empty }

/-- One change of the fleet. -/
def apply (x : DriverIndex C) : FleetEvent → DriverIndex C × List (Record C)
  | .update d p => x.update d p
  | .remove d => x.remove d
  | .clear => (x.clear, [])

/-- The index and the journal after a history. -/
def run (x : DriverIndex C) : List FleetEvent → DriverIndex C × List (Record C)
  | [] => (x, [])
  | e :: es =>
    let (x, first) := x.apply e
    let (x, rest) := x.run es
    (x, first ++ rest)

/-- The number of drivers. -/
def size (x : DriverIndex C) : Nat := x.roster.size

/-- The cell of a driver. -/
def cellOf? (x : DriverIndex C) (d : String) : Option C := x.roster.cellOf? d

/-- The drivers of a cell by identifier. -/
def driversIn (x : DriverIndex C) (c : C) : List String :=
  (x.roster.driversOf c).mergeSort fun a b => a ≤ b

/-- The cells that have drivers, with their number. -/
def counts (x : DriverIndex C) : List (C × Nat) := x.roster.counts

/-- The drivers in some cells, each with the cell, by identifier. -/
def driversAmong (r : Roster C) (cells : List C) : List (String × C) :=
  (cells.flatMap fun c => (r.driversOf c).map fun d => (d, c)).mergeSort
    fun a b => a.1 ≤ b.1

/-- The drivers at most `k` steps, and at most ten, from the cell of a pickup.  There are
none for a pickup out of range. -/
def search (x : DriverIndex C) (pickup : Point Float) (k : Nat) : Search C :=
  match x.grid.cellOf pickup with
  | .error e => ⟨[], x, [.searchRejected e]⟩
  | .ok c =>
    let (cells, grid) := x.grid.disk c (min k maxRings)
    { found := driversAmong x.roster cells
      index := { x with grid }
      records := if maxRings < k then [.searchClamped k maxRings] else [] }

/-- The identifiers of the drivers near a pickup. -/
def nearby (x : DriverIndex C) (pickup : Point Float) (k : Nat) : List String :=
  (x.search pickup k).found.map Prod.fst

end DriverIndex

end GeoDispatch
