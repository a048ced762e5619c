import GeoDispatch.Zone.Fence
import Mathlib.Data.String.Basic

/-! # Notes of fences

Notes stand for a map: what counts is the value under a key, not the order in which the keys are
listed.  A note that is put in is found under its key and leaves those of other keys alone
(`Fence.lookup_insertNote`).  So the notes that are made of pairs with distinct keys have the values
of these pairs (`Fence.lookup_notesOf`), and pairs that are listed by increasing keys are notes as
they are (`Fence.notesOf_of_pairwise`).
-/

namespace GeoDispatch

namespace Fence

theorem lookup_cons_eq (k v : String) (notes : List (String × String)) (key : String) :
    ((k, v) :: notes).lookup key = if key = k then some v else notes.lookup key := by
  by_cases h : key = k
  · rw [if_pos h, h, List.lookup_cons_self]
  · rw [if_neg h, List.lookup_cons, beq_eq_false_iff_ne.mpr h]

theorem lookup_insertNote (k v : String) (notes : List (String × String)) (key : String) :
    (insertNote k v notes).lookup key = if key = k then some v else notes.lookup key := by
  induction notes with
  | nil => exact lookup_cons_eq k v [] key
  | cons note notes ih =>
    obtain ⟨k', v'⟩ := note
    rw [insertNote]
    by_cases before : k < k'
    · rw [if_pos before]
      exact lookup_cons_eq k v _ key
    by_cases same : k = k'
    · rw [if_neg before, if_pos same, lookup_cons_eq, lookup_cons_eq, ← same]
      by_cases h : key = k
      · rw [if_pos h, if_pos h]
      · rw [if_neg h, if_neg h, if_neg h]
    · rw [if_neg before, if_neg same, lookup_cons_eq, ih, lookup_cons_eq]
      by_cases h : key = k'
      · rw [if_pos h, if_pos h, if_neg fun h' => same (h'.symm.trans h)]
      · rw [if_neg h, if_neg h]

/-- Pairs with distinct keys that are put in replace what was under their keys. -/
theorem lookup_foldl_insertNote {pairs : List (String × String)}
    (distinct : (pairs.map Prod.fst).Nodup) (notes : List (String × String)) (key : String) :
    (pairs.foldl (fun notes m => insertNote m.1 m.2 notes) notes).lookup key =
      (pairs.lookup key).or (notes.lookup key) := by
  induction pairs generalizing notes with
  | nil => rfl
  | cons m pairs ih =>
    obtain ⟨k, v⟩ := m
    rw [List.map_cons, List.nodup_cons] at distinct
    rw [List.foldl_cons, ih distinct.2, lookup_insertNote, lookup_cons_eq]
    by_cases h : key = k
    · have later : pairs.lookup key = none := by
        rw [List.lookup_eq_none_iff]
        intro m hm
        rw [bne_iff_ne, h]
        intro same
        exact distinct.1 (List.mem_map.mpr ⟨m, hm, same.symm⟩)
      rw [later, if_pos h, if_pos h]
      rfl
    · rw [if_neg h, if_neg h]

theorem lookup_notesOf {pairs : List (String × String)} (distinct : (pairs.map Prod.fst).Nodup)
    (key : String) : (notesOf pairs).lookup key = pairs.lookup key :=
  (lookup_foldl_insertNote distinct [] key).trans Option.or_none

/-- A note whose key comes after those of all notes is put at the end. -/
theorem insertNote_of_forall_lt {k v : String} {notes : List (String × String)}
    (after : ∀ m ∈ notes, m.1 < k) : insertNote k v notes = notes ++ [(k, v)] := by
  induction notes with
  | nil => rfl
  | cons note notes ih =>
    obtain ⟨k', v'⟩ := note
    obtain ⟨first, others⟩ := List.forall_mem_cons.mp after
    replace first : k' < k := first
    rw [insertNote, if_neg first.not_gt, if_neg first.ne', ih others, List.cons_append]

theorem foldl_insertNote_of_pairwise {notes pairs : List (String × String)}
    (sorted : (notes ++ pairs).Pairwise fun m m' => m.1 < m'.1) :
    pairs.foldl (fun notes m => insertNote m.1 m.2 notes) notes = notes ++ pairs := by
  induction pairs generalizing notes with
  | nil => exact (List.append_nil notes).symm
  | cons m pairs ih =>
    have after : ∀ m' ∈ notes, m'.1 < m.1 := fun m' hm' =>
      (List.pairwise_append.mp sorted).2.2 m' hm' m List.mem_cons_self
    rw [List.append_cons] at sorted
    rw [List.foldl_cons, insertNote_of_forall_lt after, ih sorted, ← List.append_cons]

/-- Pairs that are listed by increasing keys are notes as they are. -/
theorem notesOf_of_pairwise {pairs : List (String × String)}
    (sorted : pairs.Pairwise fun m m' => m.1 < m'.1) : notesOf pairs = pairs := by
  show pairs.foldl _ [] = [] ++ pairs
  exact foldl_insertNote_of_pairwise sorted

end Fence

end GeoDispatch
