import Std.Data.HashMap
import Std.Data.HashSet

/-!
# Rosters

A roster says in which cell each driver is.  It is kept twice, as the cell of every driver
and as the drivers of every cell, so that both questions are answered at once; `place` and
`remove` keep the two in step, and a cell that loses its last driver is forgotten.
-/

namespace GeoDispatch

/-- Which driver is in which cell. -/
structure Roster (C : Type) [BEq C] [Hashable C] where
  /-- The cell of every driver. -/
  cells : Std.HashMap String C
  /-- The drivers of every cell that has any. -/
  drivers : Std.HashMap C (Std.HashSet String)

namespace Roster

variable {C : Type} [BEq C] [Hashable C]

/-- The roster without drivers. -/
def empty : Roster C := ⟨∅, ∅⟩

/-- The cell of a driver. -/
def cellOf? (r : Roster C) (d : String) : Option C := r.cells[d]?

/-- The drivers of a cell, in no particular order. -/
def driversOf (r : Roster C) (c : C) : List String :=
  match r.drivers[c]? with
  | some s => s.toList
  | none => []

/-- The number of drivers. -/
def size (r : Roster C) : Nat := r.cells.size

/-- Takes a driver out of the drivers of a cell, and forgets the cell if none is left. -/
def detach (m : Std.HashMap C (Std.HashSet String)) (d : String) (c : C) :
    Std.HashMap C (Std.HashSet String) :=
  match m[c]? with
  | some s =>
    let rest := s.erase d
    if rest.isEmpty then m.erase c else m.insert c rest
  | none => m

/-- Adds a driver to the drivers of a cell. -/
def attach (m : Std.HashMap C (Std.HashSet String)) (d : String) (c : C) :
    Std.HashMap C (Std.HashSet String) :=
  m.insert c ((m[c]?.getD ∅).insert d)

/-- Takes a driver from the roster. -/
def remove (r : Roster C) (d : String) : Roster C :=
  match r.cellOf? d with
  | some c => ⟨r.cells.erase d, detach r.drivers d c⟩
  | none => r

/-- Puts a driver into a cell, out of another one if need be. -/
def place (r : Roster C) (d : String) (c : C) : Roster C :=
  let drivers :=
    match r.cellOf? d with
    | some old => detach r.drivers d old
    | none => r.drivers
  ⟨r.cells.insert d c, attach drivers d c⟩

/-- The cells that have drivers, with their number, in no particular order. -/
def counts (r : Roster C) : List (C × Nat) := r.drivers.toList.map fun e => (e.1, e.2.size)

end Roster

end GeoDispatch
