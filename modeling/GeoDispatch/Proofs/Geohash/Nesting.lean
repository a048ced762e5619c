import GeoDispatch.Proofs.Geohash.Encoding
import GeoDispatch.Proofs.Geohash.Order

/-!
# Longer texts, smaller boxes

A box is halved within itself, so a further letter leaves a box inside the one before
(`Geohash.bounds_append_isWithin`); a point that two boxes of one length surround has led to
both, so they are the same (`eq_of_surrounds`).  Of a text only its letters matter, which are
the digits read from it, written in small letters (`map_letter_digitsIn`): the box of a text is
a function of them, and a text without letters has none (`boxes_nest_along_letters`).
-/

namespace GeoDispatch

/-! ## Boxes inside boxes -/

namespace BoundingBox

/-- Whether a box lies inside another one. -/
def IsWithin (b c : BoundingBox ℚ) : Prop := ∀ a, c.low a ≤ b.low a ∧ b.high a ≤ c.high a

/-- Whether a point lies inside a box and not on its edges. -/
def Surrounds (b : BoundingBox ℚ) (p : Point ℚ) : Prop :=
  ∀ a, b.low a < p.along a ∧ p.along a < b.high a

theorem IsWithin.trans {b c d : BoundingBox ℚ} (hbc : b.IsWithin c) (hcd : c.IsWithin d) :
    b.IsWithin d :=
  fun a => ⟨(hcd a).1.trans (hbc a).1, (hbc a).2.trans (hcd a).2⟩

theorem refine_append {α : Type} [Scalar α] (b : BoundingBox α) (first : Axis)
    (xs ys : List Bool) :
    b.refine first (xs ++ ys) = (b.refine first xs).refine (first.after xs.length) ys := by
  induction xs generalizing b first with
  | nil => rfl
  | cons x xs ih => rw [List.cons_append, refine, refine, ih, List.length_cons, Axis.after_succ]

/-- The bits of a shorter descent are the first ones of a longer descent. -/
theorem take_descend {α : Type} [Scalar α] (b : BoundingBox α) (p : Point α) (first : Axis)
    {m n : Nat} (h : m ≤ n) : (b.descend p first n).take m = b.descend p first m := by
  induction m generalizing b first n with
  | zero => rfl
  | succ m ih =>
    obtain ⟨n, rfl⟩ := Nat.exists_eq_add_one_of_ne_zero (show n ≠ 0 by omega)
    rw [descend, descend, List.take_succ_cons, ih _ _ (by omega)]

section

variable {b : BoundingBox ℚ} (h : b.IsProper)
include h

theorem IsProper.half_isWithin (first : Axis) (upper : Bool) :
    (b.half first upper).IsWithin b := by
  intro a
  obtain ⟨hleft, hright⟩ := h.mid_bounds a
  rw [low_half, high_half]
  constructor
  · split
    · exact hleft.le
    · exact le_rfl
  · split
    · exact hright.le
    · exact le_rfl

theorem IsProper.refine_isWithin (first : Axis) (xs : List Bool) :
    (b.refine first xs).IsWithin b := by
  induction xs generalizing b first with
  | nil => exact fun a => ⟨le_rfl, le_rfl⟩
  | cons x xs ih => exact (ih (h.half first x) first.other).trans (h.half_isWithin first x)

/-- A box within the world owns the points that it surrounds. -/
theorem IsProper.owns_of_surrounds {p : Point ℚ} (hp : b.Surrounds p) : b.Owns p.clamped := by
  intro a
  obtain ⟨hlow, -, hhigh⟩ := h a
  obtain ⟨habove, hbelow⟩ := hp a
  have hclamped : p.clamped.along a = p.along a := by
    rw [p.along_clamped, min_eq_left (by linarith), max_eq_right (by linarith)]
  rw [OwnsAlong, hclamped]
  exact ⟨habove.le, .inl hbelow⟩

end

end BoundingBox

namespace Geohash

/-! ## Prefixes of hashes -/

theorem digitsOfBits_take {m : Nat} {xs : List Bool} (h : 5 * m ≤ xs.length) :
    digitsOfBits (xs.take (5 * m)) = (digitsOfBits xs).take m := by
  induction m generalizing xs with
  | zero => rfl
  | succ m ih =>
    match xs, h with
    | a :: b :: c :: d :: e :: rest, h =>
      have hrest : 5 * m ≤ rest.length := by
        simp only [List.length_cons] at h
        omega
      exact congrArg (Digit32.ofBits a b c d e :: ·) (ih hrest)

/-- **The digits of a point at a lower precision are its first digits at a higher one.** -/
theorem digits_encode_take {α : Type} [Scalar α] (p : Point α) {m n : Nat}
    (h : clampPrecision m ≤ clampPrecision n) :
    (encode p n).digits.take (clampPrecision m) = (encode p m).digits := by
  rw [encode, encode, ← digitsOfBits_take, BoundingBox.take_descend]
  · omega
  · rw [BoundingBox.length_descend]
    omega

/-- **The text of a point at a lower precision begins its text at a higher one.** -/
theorem toList_text_encode {α : Type} [Scalar α] (p : Point α) {m n : Nat} (hm : 1 ≤ m)
    (hmn : m ≤ n) (hn : n ≤ 12) :
    (encode p m).text.toList = (encode p n).text.toList.take m := by
  have hclamp {n : Nat} (hpos : 1 ≤ n) (hmost : n ≤ 12) : clampPrecision n = n := by
    rw [clampPrecision, minPrecision, maxPrecision]
    omega
  have hmclamp := hclamp hm (hmn.trans hn)
  have hnclamp := hclamp (hm.trans hmn) hn
  have htake := digits_encode_take p (m := m) (n := n) (by rwa [hmclamp, hnclamp])
  rw [hmclamp] at htake
  rw [text, text, String.toList_ofList, String.toList_ofList, ← List.map_take, htake]

/-- **Further digits leave a box inside the one before.** -/
theorem bounds_append_isWithin (ds es : List Digit32) :
    (bounds ℚ ⟨ds ++ es⟩).IsWithin (bounds ℚ ⟨ds⟩) := by
  have hbits : bits ⟨ds ++ es⟩ = bits ⟨ds⟩ ++ bits ⟨es⟩ := List.flatMap_append
  rw [bounds, hbits, BoundingBox.refine_append]
  exact (isProper_bounds ⟨ds⟩).refine_isWithin _ _

/-- **Two hashes of one length whose boxes surround the same point are the same.** -/
theorem eq_of_surrounds {h k : Geohash} (hlen : h.length = k.length) {p : Point ℚ}
    (hh : (bounds ℚ h).Surrounds p) (hk : (bounds ℚ k).Surrounds p) : h = k := by
  have bits_eq {h : Geohash} (hp : (bounds ℚ h).Surrounds p) :
      h.bits = BoundingBox.world.descend p .lng (5 * h.length) := by
    have hown := h.isProper_bounds.owns_of_surrounds hp
    rw [bounds, BoundingBox.isProper_world.owns_refine_iff] at hown
    rw [← length_bits]
    exact hown.2
  have hbits : h.bits = k.bits := by
    rw [bits_eq hh, bits_eq hk, hlen]
  have hdigits := congrArg digitsOfBits hbits
  rw [digitsOfBits_bits, digitsOfBits_bits] at hdigits
  exact congrArg Geohash.mk hdigits

/-! ## The letters of a text -/

/-- The letters of the alphabet in a text, in small letters. -/
def letters (s : String) : List Char :=
  (s.toList.map Char.toLower).filter (· ∈ Digit32.alphabet)

theorem map_letter_digitsIn (s : String) : (digitsIn s).map Digit32.letter = letters s := by
  rw [digitsIn, letters]
  induction s.toList with
  | nil => rfl
  | cons a as ih =>
    rw [List.map_cons]
    cases ha : Digit32.ofChar? a with
    | none =>
      have hnot : a.toLower ∉ Digit32.alphabet := by
        rw [← Digit32.isSome_ofChar?, ha]
        exact Bool.false_ne_true
      rw [List.filterMap_cons_none ha, List.filter_cons_of_neg (by simpa using hnot), ih]
    | some d =>
      have hletter := Digit32.letter_of_ofChar?_eq_some ha
      have hmem : a.toLower ∈ Digit32.alphabet := hletter ▸ d.letter_mem_alphabet
      rw [List.filterMap_cons_some ha, List.filter_cons_of_pos (by simpa using hmem),
        List.map_cons, ih, hletter]

theorem letters_eq_nil_iff (s : String) : letters s = [] ↔ digitsIn s = [] := by
  rw [← map_letter_digitsIn, List.map_eq_nil_iff]

/-- Texts with the same letters have the same digits. -/
theorem letters_eq_iff (s t : String) : letters s = letters t ↔ digitsIn s = digitsIn t := by
  rw [← map_letter_digitsIn, ← map_letter_digitsIn]
  exact Digit32.letter_injective.list_map.eq_iff

theorem length_letters (s : String) : (letters s).length = (digitsIn s).length := by
  rw [← map_letter_digitsIn, List.length_map]

theorem digitsIn_append (s t : String) : digitsIn (s ++ t) = digitsIn s ++ digitsIn t := by
  rw [digitsIn, String.toList_append, List.filterMap_append]
  rfl

/-- The box of a text that has a letter is the box of its digits, and a text without letters has
none. -/
theorem decodeBounds_eq (α : Type) [Scalar α] (s : String) :
    decodeBounds α s =
      if letters s = [] then .error (.invalidGeohash s) else .ok (bounds α ⟨digitsIn s⟩) := by
  by_cases h : letters s = []
  · rw [if_pos h, decodeBounds, (letters_eq_nil_iff s).mp h]
  · rw [if_neg h, decodeBounds_eq_ok (mt (letters_eq_nil_iff s).mpr h)]

theorem decodeBounds_eq_ok_iff {s : String} {b : BoundingBox ℚ} :
    decodeBounds ℚ s = .ok b ↔ letters s ≠ [] ∧ bounds ℚ ⟨digitsIn s⟩ = b := by
  rw [decodeBounds_eq]
  by_cases h : letters s = []
  · simp [h]
  · simp [h]

/-- **Prefixes nest, and characters that are no letters do not matter.**  The hash of a point at
a lower precision is the beginning of its hash at a higher one.  The box of a text with letters
holds that of every longer text.  Texts with as many letters have the same box if the letters
agree, and boxes that surround no common point otherwise.  The box is a function of the letters,
and exactly the texts without letters are errors, which carry the text. -/
theorem boxes_nest_along_letters :
    (∀ (α : Type) [Scalar α] (p : Point α) (m n : Nat), 1 ≤ m → m ≤ n → n ≤ 12 →
      (encode p m).text.toList = (encode p n).text.toList.take m) ∧
    (∀ s t : String, letters s ≠ [] → ∃ b c, decodeBounds ℚ s = .ok b ∧
      decodeBounds ℚ (s ++ t) = .ok c ∧ c.IsWithin b) ∧
    (∀ (s t : String) (b c : BoundingBox ℚ), decodeBounds ℚ s = .ok b →
      decodeBounds ℚ t = .ok c → (letters s).length = (letters t).length →
      if letters s = letters t then b = c else ∀ p, ¬ (b.Surrounds p ∧ c.Surrounds p)) ∧
    (∀ s t : String, letters s = letters t →
      (decodeBounds ℚ s).toOption = (decodeBounds ℚ t).toOption) ∧
    ∀ s : String, if letters s = [] then decodeBounds ℚ s = .error (.invalidGeohash s)
      else ∃ b, decodeBounds ℚ s = .ok b := by
  refine ⟨fun α _ p m n hm hmn hn => ?_, fun s t hs => ?_, fun s t b c hb hc hlen => ?_,
    fun s t heq => ?_, fun s => ?_⟩
  · exact toList_text_encode p hm hmn hn
  · have hst : letters (s ++ t) ≠ [] := by
      rw [Ne, letters_eq_nil_iff, digitsIn_append, List.append_eq_nil_iff, ← letters_eq_nil_iff]
      exact fun hnil => hs hnil.1
    refine ⟨_, _, decodeBounds_eq_ok_iff.mpr ⟨hs, rfl⟩, decodeBounds_eq_ok_iff.mpr ⟨hst, rfl⟩, ?_⟩
    rw [digitsIn_append]
    exact bounds_append_isWithin _ _
  · obtain ⟨-, rfl⟩ := decodeBounds_eq_ok_iff.mp hb
    obtain ⟨-, rfl⟩ := decodeBounds_eq_ok_iff.mp hc
    rw [length_letters, length_letters] at hlen
    split
    · rename_i heq
      rw [(letters_eq_iff s t).mp heq]
    · rename_i hne
      rintro p ⟨hs, ht⟩
      have hsame := eq_of_surrounds (h := ⟨digitsIn s⟩) (k := ⟨digitsIn t⟩) hlen hs ht
      exact hne ((letters_eq_iff s t).mpr (congrArg Geohash.digits hsame))
  · rw [decodeBounds_eq, decodeBounds_eq, heq, (letters_eq_iff s t).mp heq]
    split <;> rfl
  · rw [decodeBounds_eq]
    split
    · rfl
    · exact ⟨_, rfl⟩

/-- Texts with capitals and with characters that are no letters of a hash: one that is lengthened,
two that lie apart, and two of the same letters. -/
theorem noisy_texts_nest :
    (encode (⟨37, -122⟩ : Point ℚ) 3).text.toList =
        (encode (⟨37, -122⟩ : Point ℚ) 6).text.toList.take 3 ∧
      (∃ b c, decodeBounds ℚ "9Q-8" = .ok b ∧ decodeBounds ℚ ("9Q-8" ++ "yy!k") = .ok c ∧
        c.IsWithin b) ∧
      (∃ b c, decodeBounds ℚ "9Q-8" = .ok b ∧ decodeBounds ℚ "9q9" = .ok c ∧
        ∀ p, ¬ (b.Surrounds p ∧ c.Surrounds p)) ∧
      (decodeBounds ℚ "9Q-8").toOption = (decodeBounds ℚ "!9q8a").toOption := by
  obtain ⟨prefixes, within, apart, ofLetters, defined⟩ := boxes_nest_along_letters
  have hs : letters "9Q-8" ≠ [] := by decide
  have ht : letters "9q9" ≠ [] := by decide
  refine ⟨prefixes ℚ _ 3 6 (by decide) (by decide) (by decide), within _ "yy!k" hs, ?_,
    ofLetters _ _ (by decide)⟩
  have hfirst := defined "9Q-8"
  have hsecond := defined "9q9"
  rw [if_neg hs] at hfirst
  rw [if_neg ht] at hsecond
  obtain ⟨b, hb⟩ := hfirst
  obtain ⟨c, hc⟩ := hsecond
  have hboxes := apart _ _ b c hb hc (by decide)
  rw [if_neg (by decide)] at hboxes
  exact ⟨b, c, hb, hc, hboxes⟩

end Geohash

end GeoDispatch
