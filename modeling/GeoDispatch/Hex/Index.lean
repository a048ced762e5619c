import GeoDispatch.Hex.Address
import GeoDispatch.Hex.IndexFault

/-!
# Cell indices

A cell is written as a 64-bit number.  From the highest bit on it holds one reserved bit,
four bits of mode, which is 1 for cells, three reserved bits, four bits of level, seven
bits of base cell and fifteen digits of three bits, of which those beyond the level are
blank.  `Address.index` writes a cell, and `Address.ofIndex?` reads one or names the first
fault.
-/

namespace GeoDispatch

namespace Address

open Direction

/-- The most digits of an index. -/
def maxLevel : Nat := 15

/-- The value of an index digit beyond the level. -/
def blank : Nat := 7

/-- The number that the base-8 digits spell. -/
def ofOctal (ds : List Nat) : Nat := ds.foldl (fun n d => 8 * n + d) 0

/-- The last `n` base-8 digits of a number. -/
def octal (n : Nat) (value : Nat) : List Nat :=
  ((List.range n).map fun i => value >>> (3 * i) % 8).reverse

/-- The index of a cell. -/
def index (c : Address) : Nat :=
  1 <<< 59 + c.level <<< 52 + c.base.val <<< 45 +
    ofOctal (c.digits.map Direction.toNat ++ List.replicate (maxLevel - c.level) blank)

/-- Whether one of the reserved bits of a number is set. -/
def reservedBits (value : Nat) : Bool :=
  value >>> 63 % 2 != 0 || value >>> 56 % 8 != 0

/-- The cell of an index, or the first fault. -/
def ofIndex? (value : Nat) : Except IndexFault Address :=
  if reservedBits value then .error .reservedBits
  else if value >>> 59 % 16 ≠ 1 then .error .mode
  else
    let level := value >>> 52 % 16
    let digits := octal maxLevel value
    if h : value >>> 45 % 128 < 122 then
      if (digits.drop level).any (· != blank) then .error .unusedDigit
      else
        match (digits.take level).mapM Direction.ofNat? with
        | none => .error .blankDigit
        | some ds =>
          match ofParts? ⟨value >>> 45 % 128, h⟩ ds with
          | none => .error .deletedChild
          | some c => .ok c
    else .error .baseCell

end Address

end GeoDispatch
