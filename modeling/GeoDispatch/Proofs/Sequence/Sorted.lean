import Mathlib.Data.List.Sort

/-! # Stable sorts

`List.mergeSort` brings a list into the order of a comparison and leaves those that compare equal
in the order in which they stood (`pairwise_mergeSort_stable`).
-/

namespace GeoDispatch

/-- A stable sort keeps the order of those that compare equal. -/
theorem pairwise_mergeSort_stable {κ : Type} {le : κ → κ → Bool} {R : κ → κ → Prop}
    (trans : ∀ a b c, le a b → le b c → le a c) (total : ∀ a b, le a b || le b a)
    {ks : List κ} (sorted : ks.Pairwise R) :
    (ks.mergeSort le).Pairwise fun a b => le a b ∧ (le b a → R a b) := by
  induction ks with
  | nil => simp
  | cons k ks ih =>
    obtain ⟨first, sorted⟩ := List.pairwise_cons.mp sorted
    -- the head comes to stand after what is strictly above it and before all its equals
    obtain ⟨front, back, whole, rest, above⟩ := List.mergeSort_cons trans total k ks
    have ordered := List.pairwise_mergeSort trans total (k :: ks)
    have ih := ih sorted
    rw [whole] at ordered ⊢
    rw [rest, List.pairwise_append] at ih
    obtain ⟨ihFront, ihBack, ihCross⟩ := ih
    have hk := List.pairwise_cons.mp (List.pairwise_append.mp ordered).2.1
    refine List.pairwise_append.mpr ⟨ihFront, List.pairwise_cons.mpr ⟨?_, ihBack⟩, ?_⟩
    · intro b hb
      refine ⟨hk.1 b hb, fun _ => first b ?_⟩
      exact List.mem_mergeSort.mp (rest ▸ List.mem_append_right _ hb)
    · intro a ha b hb
      rcases List.mem_cons.mp hb with rfl | hb
      · have hlt := above a ha
        have hle := total b a
        simp only [Bool.not_eq_true'] at hlt
        rw [hlt, Bool.false_or] at hle
        exact ⟨hle, fun h => by rw [hlt] at h; contradiction⟩
      · exact ihCross a ha b hb

end GeoDispatch
