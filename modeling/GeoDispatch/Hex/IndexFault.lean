/-!
# Why a number is no cell index

A 64-bit cell index has reserved bits, a mode, a resolution, a base cell and fifteen
digits.  An `IndexFault` names the first of these that is wrong.
-/

namespace GeoDispatch

/-- The first fault of a 64-bit number that is no cell index. -/
inductive IndexFault where
  /-- A reserved bit is set. -/
  | reservedBits
  /-- The mode is not that of a cell. -/
  | mode
  /-- There is no base cell of this number. -/
  | baseCell
  /-- A digit beyond the resolution is not blank. -/
  | unusedDigit
  /-- A digit up to the resolution is blank. -/
  | blankDigit
  /-- The index lies in the child that a pentagon does not have. -/
  | deletedChild
deriving DecidableEq, Repr

/-- The wording of a fault. -/
def IndexFault.message : IndexFault → String
  | reservedBits => "tainted reserved bits"
  | mode => "invalid index mode"
  | baseCell => "invalid base cell"
  | unusedDigit => "invalid unused direction pattern"
  | blankDigit => "unexpected unused direction"
  | deletedChild => "pentagonal cell index with a deleted subsequence"

end GeoDispatch
