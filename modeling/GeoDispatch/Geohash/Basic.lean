import GeoDispatch.GeoError

/-!
# Geohashes

A geohash is a list of base-32 digits.  Each digit stands for five bits, and the bits of
a hash halve the world in turn by longitude and by latitude, longitude first.  This
module holds the digits, their letters and their bits, the two alternating bit strings
of a hash, and reading and writing of hashes.
-/

namespace GeoDispatch

/-- A base-32 digit. -/
abbrev Digit32 := Fin 32

/-- Numbers below 32 are written as digits. -/
instance Digit32.neZero : @NeZero Nat Zero.ofOfNat0 32 := ⟨by decide⟩

namespace Digit32

/-- The letters of the digits, in order: the decimal digits and the small letters
without `a`, `i`, `l` and `o`. -/
def alphabet : List Char :=
  ['0', '1', '2', '3', '4', '5', '6', '7', '8', '9', 'b', 'c', 'd', 'e', 'f', 'g',
    'h', 'j', 'k', 'm', 'n', 'p', 'q', 'r', 's', 't', 'u', 'v', 'w', 'x', 'y', 'z']

/-- The letter of a digit. -/
def letter (d : Digit32) : Char := alphabet.getD d.val '0'

/-- The digit of a letter in either case. -/
def ofChar? (c : Char) : Option Digit32 :=
  (List.finRange 32).find? fun d => letter d == c.toLower

/-- The five bits of a digit, the highest first. -/
def bits (d : Digit32) : List Bool :=
  [4, 3, 2, 1, 0].map d.val.testBit

/-- The digit with the given bits, the highest first. -/
def ofBits (a b c d e : Bool) : Digit32 :=
  Fin.ofNat 32 (16 * a.toNat + 8 * b.toNat + 4 * c.toNat + 2 * d.toNat + e.toNat)

end Digit32

/-- A list of base-32 digits, coarsest first. -/
structure Geohash where
  digits : List Digit32
deriving DecidableEq

namespace Geohash

/-- The fewest digits of an encoded hash. -/
def minPrecision : Nat := 1

/-- The most digits of an encoded hash. -/
def maxPrecision : Nat := 12

/-- The number of digits. -/
def length (h : Geohash) : Nat := h.digits.length

/-- All bits of a hash, coarsest first. -/
def bits (h : Geohash) : List Bool := h.digits.flatMap Digit32.bits

/-- The digits spelled by a bit string whose length is a multiple of five. -/
def digitsOfBits : List Bool → List Digit32
  | a :: b :: c :: d :: e :: rest => Digit32.ofBits a b c d e :: digitsOfBits rest
  | _ => []

/-- The elements of a list at even places and those at odd places. -/
def alternate {β : Type} : List β → List β × List β
  | [] => ([], [])
  | x :: xs =>
    let (even, odd) := alternate xs
    (x :: odd, even)

/-- The bits that halve longitudes. -/
def lngBits (h : Geohash) : List Bool := (alternate h.bits).1

/-- The bits that halve latitudes. -/
def latBits (h : Geohash) : List Bool := (alternate h.bits).2

/-- The text of a hash. -/
def text (h : Geohash) : String := String.ofList (h.digits.map Digit32.letter)

/-- The digits among the characters of a text; other characters are skipped. -/
def digitsIn (s : String) : List Digit32 := s.toList.filterMap Digit32.ofChar?

/-- Reads a hash of one to twelve letters of the alphabet, in either case. -/
def parse (s : String) : Except GeoError Geohash :=
  match s.toList.mapM Digit32.ofChar? with
  | some ds =>
    if ds.isEmpty || maxPrecision < ds.length then .error (.invalidGeohash s)
    else .ok ⟨ds⟩
  | none => .error (.invalidGeohash s)

/-- The lexicographic order of hashes, which is the order of their texts. -/
def le (h k : Geohash) : Bool := !List.lex k.digits h.digits fun a b => a.val.blt b.val

/-- The distinct hashes of a list in increasing order. -/
def sorted (hs : List Geohash) : List Geohash := (hs.mergeSort le).eraseReps

end Geohash

end GeoDispatch
