import GeoDispatch.Geohash.Codec
import GeoDispatch.Geohash.Neighbor
import Mathlib.Tactic.ByContra
import Mathlib.Tactic.Push

/-!
# Reading and writing hashes

The letter of a digit is read back as that digit, and a character is read as a digit exactly
when its small form is in the alphabet.  So `Geohash.parse` accepts exactly the texts of one
to twelve such characters (`IsHashText`), and the box of an accepted text is the box of the
hash that was read (`decodeBounds_eq_ok`).
-/

namespace GeoDispatch

namespace Digit32

theorem alphabet_eq_map_letter : alphabet = (List.finRange 32).map letter := by decide

theorem letter_mem_alphabet (d : Digit32) : d.letter ∈ alphabet := by
  rw [alphabet_eq_map_letter]
  exact List.mem_map_of_mem (List.mem_finRange d)

@[simp] theorem ofChar?_letter (d : Digit32) : ofChar? d.letter = some d := by
  revert d
  decide

/-- A character is a digit exactly when its small form is in the alphabet. -/
theorem isSome_ofChar? (a : Char) : (ofChar? a).isSome ↔ a.toLower ∈ alphabet := by
  rw [ofChar?, List.find?_isSome, alphabet_eq_map_letter, List.mem_map]
  simp only [beq_iff_eq]

theorem letter_of_ofChar?_eq_some {a : Char} {d : Digit32} (h : ofChar? a = some d) :
    d.letter = a.toLower := by
  have hfound : (d.letter == a.toLower) = true :=
    List.find?_some (p := fun d => letter d == a.toLower) h
  exact beq_iff_eq.mp hfound

end Digit32

namespace Geohash

/-- A text of one to twelve letters of the alphabet, each in either case. -/
def IsHashText (s : String) : Prop :=
  1 ≤ s.length ∧ s.length ≤ 12 ∧ ∀ a ∈ s.toList, a.toLower ∈ Digit32.alphabet

instance (s : String) : Decidable (IsHashText s) := inferInstanceAs (Decidable (_ ∧ _ ∧ _))

/-- Reading all characters of a list succeeds when none of them is to be skipped. -/
theorem mapM_ofChar? {as : List Char} (h : ∀ a ∈ as, (Digit32.ofChar? a).isSome) :
    as.mapM Digit32.ofChar? = some (as.filterMap Digit32.ofChar?) ∧
      (as.filterMap Digit32.ofChar?).length = as.length := by
  induction as with
  | nil => exact ⟨rfl, rfl⟩
  | cons a as ih =>
    obtain ⟨hsome, hlength⟩ := ih fun b hb => h b (List.mem_cons_of_mem a hb)
    obtain ⟨d, hd⟩ := Option.isSome_iff_exists.mp (h a List.mem_cons_self)
    rw [List.mapM_cons, List.filterMap_cons_some hd, hd, hsome]
    exact ⟨rfl, congrArg (· + 1) hlength⟩

theorem mapM_ofChar?_eq_none {as : List Char} {a : Char} (ha : a ∈ as)
    (h : Digit32.ofChar? a = none) : as.mapM Digit32.ofChar? = none := by
  induction as with
  | nil => cases ha
  | cons b as ih =>
    rw [List.mapM_cons]
    rcases List.mem_cons.mp ha with rfl | ha
    · rw [h]
      rfl
    · rw [ih ha]
      cases Digit32.ofChar? b <;> rfl

/-- A text of letters is read as the digits of its letters. -/
theorem parse_eq_ok {s : String} (h : IsHashText s) :
    parse s = .ok ⟨digitsIn s⟩ ∧ (digitsIn s).length = s.length := by
  obtain ⟨hpos, hmost, hletters⟩ := h
  obtain ⟨hsome, hlength⟩ := mapM_ofChar? fun a ha =>
    (Digit32.isSome_ofChar? a).mpr (hletters a ha)
  have hlength' : (digitsIn s).length = s.length := hlength.trans s.length_toList
  refine ⟨?_, hlength'⟩
  have hne : ¬ ((digitsIn s).isEmpty || maxPrecision < (digitsIn s).length) := by
    rw [Bool.or_eq_true, List.isEmpty_iff_length_eq_zero, decide_eq_true_iff, hlength']
    unfold maxPrecision
    omega
  rw [parse, hsome]
  exact if_neg hne

/-- A text that is no hash is an error that carries the text. -/
theorem parse_eq_error {s : String} (h : ¬ IsHashText s) :
    parse s = .error (.invalidGeohash s) := by
  by_cases hletters : ∀ a ∈ s.toList, a.toLower ∈ Digit32.alphabet
  · obtain ⟨hsome, hlength⟩ := mapM_ofChar? fun a ha =>
      (Digit32.isSome_ofChar? a).mpr (hletters a ha)
    have hlength' : (digitsIn s).length = s.length := hlength.trans s.length_toList
    have hwrong : (digitsIn s).isEmpty || maxPrecision < (digitsIn s).length := by
      rw [Bool.or_eq_true, List.isEmpty_iff_length_eq_zero, decide_eq_true_iff, hlength']
      unfold maxPrecision
      by_contra hrange
      exact h ⟨by omega, by omega, hletters⟩
    rw [parse, hsome]
    exact if_pos hwrong
  · push Not at hletters
    obtain ⟨a, ha, hnot⟩ := hletters
    rw [← Digit32.isSome_ofChar?, Option.not_isSome_iff_eq_none] at hnot
    rw [parse, mapM_ofChar?_eq_none ha hnot]

theorem digitsIn_text (h : Geohash) : digitsIn h.text = h.digits := by
  have hread : Digit32.ofChar? ∘ Digit32.letter = some := funext Digit32.ofChar?_letter
  rw [digitsIn, text, String.toList_ofList, List.filterMap_map, hread, List.filterMap_some]

theorem length_text (h : Geohash) : h.text.length = h.length := by
  rw [text, String.length_ofList, List.length_map, length]

theorem mem_alphabet_of_mem_text {h : Geohash} {a : Char} (ha : a ∈ h.text.toList) :
    a ∈ Digit32.alphabet := by
  rw [text, String.toList_ofList, List.mem_map] at ha
  obtain ⟨d, -, rfl⟩ := ha
  exact d.letter_mem_alphabet

/-- The box of a text that has a letter is the box of the digits of its letters. -/
theorem decodeBounds_eq_ok {α : Type} [Scalar α] {s : String} (h : digitsIn s ≠ []) :
    decodeBounds α s = .ok (bounds α ⟨digitsIn s⟩) := by
  unfold decodeBounds
  split
  · contradiction
  · rfl

end Geohash

end GeoDispatch
