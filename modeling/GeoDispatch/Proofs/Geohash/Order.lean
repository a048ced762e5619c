import GeoDispatch.Geohash.Basic
import Mathlib.Data.String.Basic

/-!
# The order of hashes

The letters of the digits increase with the digits, so hashes are in the order of their texts
(`Geohash.le_iff_text_le`), which is total and tells any two hashes apart.  A list of hashes
that was brought into this order and freed of repetitions has the same members
(`Geohash.mem_sorted`), and their texts increase strictly (`Geohash.pairwise_sorted`).
-/

namespace GeoDispatch

namespace Digit32

theorem letter_lt_letter_iff (d e : Digit32) : d.letter < e.letter ↔ d.val.blt e.val := by
  revert d e
  decide +kernel

theorem letter_injective : Function.Injective letter := by
  have hall : ∀ d e : Digit32, d.letter = e.letter → d = e := by decide +kernel
  exact fun d e => hall d e

end Digit32

namespace Geohash

theorem text_injective : Function.Injective text := by
  rintro ⟨ds⟩ ⟨es⟩ h
  have hletters := congrArg String.toList h
  rw [text, text, String.toList_ofList, String.toList_ofList] at hletters
  exact congrArg Geohash.mk (Digit32.letter_injective.list_map hletters)

/-- Digits are before other digits exactly when their letters are. -/
theorem lex_iff_map_letter_lt (ds es : List Digit32) :
    List.Lex (fun d e => d.val.blt e.val) ds es ↔
      ds.map Digit32.letter < es.map Digit32.letter := by
  induction ds generalizing es with
  | nil => cases es <;> simp
  | cons d ds ih =>
    cases es with
    | nil => simp
    | cons e es =>
      rw [List.cons_lex_cons_iff, List.map_cons, List.map_cons, List.cons_lt_cons_iff, ih,
        Digit32.letter_lt_letter_iff, Digit32.letter_injective.eq_iff]

/-- **Hashes are in the order of their texts.** -/
theorem le_iff_text_le (h k : Geohash) : h.le k ↔ h.text ≤ k.text := by
  have hlt : k.text < h.text ↔ k.digits.map Digit32.letter < h.digits.map Digit32.letter := by
    rw [text, text, String.lt_iff, String.toList_ofList, String.toList_ofList]
  rw [le, Bool.not_eq_true', List.lex_eq_false_iff_not_lex, lex_iff_map_letter_lt, ← hlt, not_lt]

/-! ## Lists in increasing order -/

theorem mem_eraseRepsBy_loop {h k : Geohash} {hs seen : List Geohash} :
    k ∈ List.eraseRepsBy.loop (· == ·) h hs seen ↔ k = h ∨ k ∈ hs ∨ k ∈ seen := by
  induction hs generalizing h seen with
  | nil => simp [List.eraseRepsBy.loop, or_comm]
  | cons h' hs ih =>
    unfold List.eraseRepsBy.loop
    split
    · rename_i hsame
      rw [ih, beq_iff_eq.mp hsame, List.mem_cons]
      tauto
    · rw [ih, List.mem_cons, List.mem_cons]
      tauto

theorem mem_sorted {k : Geohash} {hs : List Geohash} : k ∈ sorted hs ↔ k ∈ hs := by
  have mem_eraseReps (hs : List Geohash) : k ∈ hs.eraseReps ↔ k ∈ hs := by
    cases hs with
    | nil => exact Iff.rfl
    | cons h hs =>
      rw [List.eraseReps, List.eraseRepsBy, mem_eraseRepsBy_loop]
      simp
  rw [sorted, mem_eraseReps, List.mem_mergeSort]

/-- The kept entries decrease from the last one back, and a further entry is kept only when it
is after the last one. -/
theorem pairwise_eraseRepsBy_loop {h : Geohash} {hs seen : List Geohash}
    (hseen : (h :: seen).Pairwise fun h k => k.text < h.text)
    (hrest : (h :: hs).Pairwise fun h k => h.text ≤ k.text) :
    (List.eraseRepsBy.loop (· == ·) h hs seen).Pairwise fun h k => h.text < k.text := by
  induction hs generalizing h seen with
  | nil => exact List.pairwise_reverse.mpr hseen
  | cons h' hs ih =>
    obtain ⟨hle, hrest'⟩ := List.pairwise_cons.mp hrest
    unfold List.eraseRepsBy.loop
    split
    · rename_i hsame
      obtain rfl := beq_iff_eq.mp hsame
      exact ih hseen hrest'
    · rename_i hdiffer
      have hlt : h.text < h'.text :=
        lt_of_le_of_ne (hle h' List.mem_cons_self)
          (text_injective.ne (beq_eq_false_iff_ne.mp hdiffer))
      refine ih (List.pairwise_cons.mpr ⟨fun k hk => ?_, hseen⟩) hrest'
      rcases List.mem_cons.mp hk with rfl | hk
      · exact hlt
      · exact (List.rel_of_pairwise_cons hseen hk).trans hlt

/-- **The texts of a sorted list increase strictly.** -/
theorem pairwise_sorted (hs : List Geohash) : ((sorted hs).map text).Pairwise (· < ·) := by
  have hmerged : (hs.mergeSort le).Pairwise fun h k => h.text ≤ k.text := by
    refine (List.pairwise_mergeSort (fun h k l => ?_) (fun h k => ?_) hs).imp
      (fun {h k} => (le_iff_text_le h k).mp)
    · rw [le_iff_text_le, le_iff_text_le, le_iff_text_le]
      exact le_trans
    · rw [Bool.or_eq_true, le_iff_text_le, le_iff_text_le]
      exact le_total _ _
  rw [List.pairwise_map, sorted]
  cases hsorted : hs.mergeSort le with
  | nil => exact List.Pairwise.nil
  | cons h hs =>
    rw [hsorted] at hmerged
    exact pairwise_eraseRepsBy_loop (List.pairwise_singleton _ h) hmerged

end Geohash

end GeoDispatch
