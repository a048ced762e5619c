/-!
# Hexadecimal digits

A digit is read in either case and written small.  `Hexadecimal.text` writes a number
without leading zeros, and `Hexadecimal.read?` gives the number that a run of digits
spells, however many zeros it starts with.
-/

namespace GeoDispatch

namespace Hexadecimal

/-- The value of a digit, if the character is one. -/
def digit? (c : Char) : Option Nat :=
  if '0' ≤ c ∧ c ≤ '9' then some (c.toNat - '0'.toNat)
  else if 'a' ≤ c ∧ c ≤ 'f' then some (c.toNat - 'a'.toNat + 10)
  else if 'A' ≤ c ∧ c ≤ 'F' then some (c.toNat - 'A'.toNat + 10)
  else none

/-- The number that digits spell. -/
def value (ds : List Nat) : Nat := ds.foldl (fun n d => 16 * n + d) 0

/-- The number that characters spell, if all of them are digits. -/
def read? (cs : List Char) : Option Nat := (cs.mapM digit?).map value

/-- The digits of a number, without leading zeros. -/
def text (n : Nat) : String := String.ofList (Nat.toDigits 16 n)

end Hexadecimal

end GeoDispatch
