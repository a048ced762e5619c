import GeoDispatch.GeoError
import GeoDispatch.Hex.Index
import GeoDispatch.Hex.Resolution

/-!
# Cells

A cell is an address in the grid of one of the three resolutions.  It has a 64-bit number
and a text, the number in small hexadecimal digits.  `Cell.ofNumber` and `Cell.parse`
accept exactly the numbers and texts that denote cells, and say what is wrong with others.
-/

namespace GeoDispatch

/-- A cell of one of the served grids. -/
structure Cell where
  address : Address
  resolution : Resolution
  level_eq : address.level = resolution.level
deriving DecidableEq

namespace Cell

/-- The cell of an address, if its level is served. -/
def ofAddress? (c : Address) : Option Cell :=
  match h : Resolution.ofLevel? c.level with
  | some r => some ⟨c, r, (Resolution.level_eq_of_ofLevel? h).symm⟩
  | none => none

/-- The number of a cell. -/
def number (c : Cell) : UInt64 := c.address.index.toUInt64

/-- The text of a cell: its number in hexadecimal digits, without leading zeros. -/
def text (c : Cell) : String := Hexadecimal.text c.number.toNat

instance : ToString Cell := ⟨text⟩

instance : Hashable Cell := ⟨fun c => hash c.number⟩

/-- Cells by their numbers. -/
def le (c d : Cell) : Bool := c.number ≤ d.number

/-- The cells of a list in increasing order. -/
def sort (cs : List Cell) : List Cell := cs.mergeSort le

/-- The cell with a number, or what is wrong with it. -/
def ofNumber (n : UInt64) : Except GeoError Cell :=
  match Address.ofIndex? n.toNat with
  | .error fault => .error (.invalidCellFormat (.invalid n.toNat fault))
  | .ok c =>
    match ofAddress? c with
    | some cell => .ok cell
    | none => .error (.invalidCellFormat (.unsupported n.toNat c.level))

/-- Reads one to sixteen hexadecimal digits. -/
def parseNumber? (s : String) : Option UInt64 :=
  if s.isEmpty || 16 < s.length then none
  else (Hexadecimal.read? s.toList).map Nat.toUInt64

/-- The cell that a text denotes, or what is wrong with it. -/
def parse (s : String) : Except GeoError Cell :=
  match parseNumber? s with
  | some n => ofNumber n
  | none => .error (.invalidCellFormat (.malformed s))

/-- The ancestor of a cell at a resolution that is not finer. -/
def parent? (c : Cell) (r : Resolution) : Option Cell :=
  (c.address.ancestor? r.level).bind ofAddress?

end Cell

end GeoDispatch
