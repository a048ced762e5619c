import GeoDispatch.GeoError
import GeoDispatch.Hex.Resolution

/-!
# The journal

Operations keep a journal of what they changed and of input that they passed over.  A
record is a value; `Record.line` words it.  Changes are told at level `DEBUG`, input that
is passed over at level `WARN`.
-/

namespace GeoDispatch

/-- How much a record matters. -/
inductive Level where
  | warn | debug
deriving DecidableEq, Repr

/-- The name of a level. -/
def Level.name : Level → String
  | warn => "WARN"
  | debug => "DEBUG"

/-- An entry of the journal, about cells of type `C`. -/
inductive Record (C : Type) where
  /-- The place of a driver was no valid point. -/
  | updateIgnored (driver : String) (cause : GeoError)
  /-- A driver came to a cell, from another one or from nowhere. -/
  | driverMoved (driver : String) (previous : Option C) (cell : C)
  /-- A driver left. -/
  | driverRemoved (driver : String) (cell : C)
  /-- The centre of a search was no valid point. -/
  | searchRejected (cause : GeoError)
  /-- A search was wider than the widest one. -/
  | searchClamped (rings most : Nat)
  /-- The pickup of a request was no valid point. -/
  | requestSkipped (request : String) (cause : GeoError)
  /-- The driver whom a request wanted was taken. -/
  | requestDropped (request driver : String)
  /-- A batch of requests was matched. -/
  | batchMatched (results requests candidates : Nat)
  /-- The address in an update of a heatmap was no cell. -/
  | heatIgnored (cause : GeoError)
  /-- The cell in an update of a heatmap was of another resolution. -/
  | heatForeign (cell : C) (resolution expected : Resolution)
  /-- The counts of a cell of a heatmap were set. -/
  | heatUpdated (cell : C) (drivers requests : Nat) (surge : Float)

namespace Record

variable {C : Type}

/-- The level of a record. -/
def level : Record C → Level
  | driverMoved .. | driverRemoved .. | requestDropped .. | batchMatched ..
  | heatUpdated .. => .debug
  | _ => .warn

variable [ToString C]

/-- The wording of a cell that may be absent. -/
def quotedCell : Option C → String
  | none => "None"
  | some c => "Some(\"" ++ toString c ++ "\")"

/-- The wording of a record. -/
def message : Record C → String
  | updateIgnored d e => "Ignoring location update for driver " ++ d ++ ": " ++ e.message
  | driverMoved d previous c =>
    "Driver " ++ d ++ " moved " ++ quotedCell previous ++ " -> " ++ toString c
  | driverRemoved d c => "Driver " ++ d ++ " removed from " ++ toString c
  | searchRejected e => "Rejecting nearby query: " ++ e.message
  | searchClamped k most =>
    "Clamping nearby query from " ++ toString k ++ " to " ++ toString most ++ " rings"
  | requestSkipped r e => "Skipping request " ++ r ++ ": " ++ e.message
  | requestDropped r d => "Dropping request " ++ r ++ ": driver " ++ d ++ " already claimed"
  | batchMatched m r c =>
    "Batch matched " ++ toString m ++ " of " ++ toString r ++ " requests from " ++
      toString c ++ " candidates"
  | heatIgnored e => "Dropping heatmap update: " ++ e.message
  | heatForeign c r expected =>
    "Dropping heatmap update for " ++ toString c ++ ": resolution " ++ r.label ++
      ", heatmap uses " ++ expected.label
  | heatUpdated c d r s =>
    "Heatmap cell " ++ toString c ++ " drivers=" ++ toString d ++ " requests=" ++
      toString r ++ " surge=" ++ Shortest.plain s

/-- A record with its level. -/
def line (r : Record C) : String := r.level.name ++ " " ++ r.message

end Record

end GeoDispatch
