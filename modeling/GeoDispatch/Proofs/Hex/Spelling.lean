import GeoDispatch.Hex.Cell
import GeoDispatch.Proofs.Hex.Index
import GeoDispatch.Proofs.Number.Hexadecimal

/-! # Spellings of a cell

A cell has many spellings: up to sixteen hexadecimal digits in either case whose value is the
number of the cell (`Cell.SpelledBy`).  Its text is one of them, and so are the text in capitals
and the text behind zeros.  Every spelling is read as the cell (`Cell.parse_of_spelledBy`), so the
text of a cell tells it apart from all other cells (`Cell.text_injective`).
-/

namespace GeoDispatch

namespace Cell

/-- A text spells a cell when it consists of one to sixteen hexadecimal digits, in either case,
whose value is the number of the cell. -/
def SpelledBy (c : Cell) (s : String) : Prop :=
  0 < s.length ∧ s.length ≤ 16 ∧ Hexadecimal.read? s.toList = some c.number.toNat

theorem level_le (c : Cell) : c.address.level ≤ Address.maxLevel := by
  rw [c.level_eq]
  cases c.resolution <;> decide

theorem toNat_number (c : Cell) : c.number.toNat = c.address.index := by
  have fits : c.address.index < 2 ^ 64 :=
    Nat.lt_trans (Address.index_lt c.level_le) (by decide)
  rw [number, Nat.toUInt64_eq, UInt64.toNat_ofNat_of_lt' fits]

theorem ofAddress?_address (c : Cell) : ofAddress? c.address = some c := by
  have served : Resolution.ofLevel? c.address.level = some c.resolution := by
    rw [c.level_eq, Resolution.ofLevel?_level]
  unfold ofAddress?
  split
  · rename_i r hr
    obtain rfl : r = c.resolution := Option.some.inj (hr.symm.trans served)
    rfl
  · rename_i hr
    rw [hr] at served
    cases served

/-- The number of a cell denotes it. -/
theorem ofNumber_number (c : Cell) : ofNumber c.number = .ok c := by
  rw [ofNumber, toNat_number, Address.ofIndex?_index c.level_le]
  simp only [ofAddress?_address]

variable {c : Cell} {s : String}

theorem parse_of_spelledBy (h : c.SpelledBy s) : parse s = .ok c := by
  obtain ⟨pos, short, hread⟩ := h
  have fits : (s.isEmpty || decide (16 < s.length)) = false := by
    rw [Bool.or_eq_false_iff, decide_eq_false_iff_not]
    refine ⟨Bool.eq_false_iff.mpr fun empty => ?_, by omega⟩
    rw [String.isEmpty_iff.mp empty] at pos
    exact absurd pos (by decide)
  have number : parseNumber? s = some c.number := by
    rw [parseNumber?, fits, if_neg Bool.false_ne_true, hread, Option.map_some,
      Nat.toUInt64_eq, UInt64.ofNat_toNat]
  rw [parse, number]
  exact ofNumber_number c

theorem spelledBy_text (c : Cell) : c.SpelledBy c.text := by
  have hlength : c.text.length = (Nat.toDigits 16 c.number.toNat).length := by
    rw [text, Hexadecimal.text, String.length_ofList]
  refine ⟨?_, ?_, ?_⟩
  · rw [hlength]
    exact Nat.length_toDigits_pos
  · rw [hlength, Nat.length_toDigits_le_iff (by decide) (by decide)]
    exact c.number.toNat_lt
  · rw [text, Hexadecimal.text, String.toList_ofList]
    exact Hexadecimal.read?_toDigits _

theorem SpelledBy.toUpper (h : c.SpelledBy s) : c.SpelledBy s.toUpper := by
  obtain ⟨pos, short, hread⟩ := h
  refine ⟨?_, ?_, ?_⟩
  · rwa [String.toUpper, String.length_map]
  · rwa [String.toUpper, String.length_map]
  · rw [String.toUpper, String.toList_map]
    exact Hexadecimal.read?_toUpper hread

theorem SpelledBy.zeros (h : c.SpelledBy s) {zeros : Nat} (short : zeros + s.length ≤ 16) :
    c.SpelledBy (String.ofList (List.replicate zeros '0') ++ s) := by
  obtain ⟨pos, -, hread⟩ := h
  have length : (String.ofList (List.replicate zeros '0') ++ s).length = zeros + s.length := by
    rw [String.length_append, String.length_ofList, List.length_replicate]
  refine ⟨by omega, by omega, ?_⟩
  rw [String.toList_append, String.toList_ofList]
  exact Hexadecimal.read?_zeros hread zeros

theorem parse_text (c : Cell) : parse c.text = .ok c := parse_of_spelledBy c.spelledBy_text

theorem text_injective : Function.Injective text := by
  intro c d same
  have hc := c.parse_text
  rw [same, d.parse_text] at hc
  exact (Except.ok.inj hc).symm

end Cell

end GeoDispatch
