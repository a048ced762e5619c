import Mathlib.Data.String.Basic

/-! # Strings in the order of their bytes

Strings are compared by the codes of their characters, one after the other.  In UTF-8 the bytes
of a character with a lesser code come before those of one with a greater code, whatever follows
either of them (`utf8EncodeChar_append_lt`).  So strings have the order of their bytes
(`lt_iff_utf8_lt`), and a list that is sorted in one order is sorted in the other.
-/

namespace GeoDispatch

open String

theorem toList_toUTF8 (s : String) : s.toUTF8.data.toList = s.toList.flatMap utf8EncodeChar := by
  conv_lhs => rw [← ofList_toList (s := s)]
  change (s.toList.flatMap utf8EncodeChar).toByteArray.data.toList = _
  simp

theorem utf8EncodeChar_append_lt {c d : Char} (h : c < d) (x y : List UInt8) :
    utf8EncodeChar c ++ x < utf8EncodeChar d ++ y := by
  have less : c.val.toNat < d.val.toNat := h
  have range : d.val.toNat < 0x110000 := by
    rcases d.valid with low | ⟨-, high⟩
    · exact Nat.lt_trans low (by decide)
    · exact high
  -- the first bytes tell the lengths apart; at equal lengths some byte decides
  have twelve (n : Nat) : n / 4096 = n / 64 / 64 := by omega
  have eighteen (n : Nat) : n / 262144 = n / 64 / 64 / 64 := by omega
  dsimp only [utf8EncodeChar]
  split_ifs <;>
    simp only [List.cons_append, List.nil_append, List.cons_lt_cons_iff, UInt8.lt_iff_toNat_lt,
      ← UInt8.toNat_inj, UInt8.toNat_ofNat', twelve, eighteen] <;>
    omega

theorem flatMap_utf8EncodeChar_lt {cs ds : List Char} (h : cs < ds) :
    cs.flatMap utf8EncodeChar < ds.flatMap utf8EncodeChar := by
  induction h with
  | @nil d ds =>
    obtain ⟨b, bs, hd⟩ := List.exists_cons_of_ne_nil (utf8EncodeChar_ne_nil (c := d))
    rw [List.flatMap_nil, List.flatMap_cons, hd]
    exact List.nil_lt_cons b _
  | cons _ ih => exact List.append_left_lt ih
  | rel less => exact utf8EncodeChar_append_lt less _ _

/-- **Strings have the order of their bytes.** -/
theorem lt_iff_utf8_lt {s t : String} : s < t ↔ s.toUTF8.data.toList < t.toUTF8.data.toList := by
  have forward {s t : String} (h : s < t) :
      s.toUTF8.data.toList < t.toUTF8.data.toList := by
    rw [toList_toUTF8, toList_toUTF8]
    exact flatMap_utf8EncodeChar_lt h
  refine ⟨forward, fun h => ?_⟩
  rcases lt_trichotomy s t with less | rfl | greater
  · exact less
  · exact absurd h (List.lt_irrefl _)
  · exact absurd h (List.lt_asymm (forward greater))

end GeoDispatch
