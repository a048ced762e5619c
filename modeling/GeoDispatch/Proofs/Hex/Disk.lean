import GeoDispatch.Hex.Neighbor
import GeoDispatch.Hex.Path
import Mathlib.Data.List.Basic

/-! # Disks and distances

A disk grows by layers.  A layer takes from the neighbours of the one before the cells that
were not seen yet, and marks them as seen; so no cell comes twice, in one layer or in two
(`Cell.nodup_disk`).

Every cell has a place on the plane around itself, whatever pentagon is near, and so it is no
steps away from itself (`Cell.steps?_self`).
-/

namespace GeoDispatch

namespace Cell

/-! ## A disk holds each cell once -/

theorem mem_collect_snd {seen : Std.HashSet Cell} {cs : List Cell} {c : Cell} :
    c ∈ (collect seen cs).2 ↔ c ∈ seen ∨ c ∈ cs := by
  induction cs generalizing seen with
  | nil => simp [collect]
  | cons c' cs ih =>
    rw [collect, List.mem_cons]
    split
    · rename_i hseen
      rw [ih]
      constructor
      · rintro (h | h)
        · exact .inl h
        · exact .inr (.inr h)
      · rintro (h | rfl | h)
        · exact .inl h
        · exact .inl (Std.HashSet.mem_iff_contains.mpr hseen)
        · exact .inr h
    · dsimp only
      rw [ih, Std.HashSet.mem_insert, beq_iff_eq, eq_comm (a := c'), or_assoc, or_left_comm]

theorem mem_collect_fst {seen : Std.HashSet Cell} {cs : List Cell} {c : Cell} :
    c ∈ (collect seen cs).1 ↔ c ∈ cs ∧ c ∉ seen := by
  induction cs generalizing seen with
  | nil => simp [collect]
  | cons c' cs ih =>
    rw [collect, List.mem_cons]
    split <;> rename_i hseen <;> rw [← Std.HashSet.mem_iff_contains] at hseen
    · rw [ih]
      constructor
      · rintro ⟨h, hs⟩
        exact ⟨.inr h, hs⟩
      · rintro ⟨rfl | h, hs⟩
        · exact absurd hseen hs
        · exact ⟨h, hs⟩
    · dsimp only
      rw [List.mem_cons, ih, Std.HashSet.mem_insert, beq_iff_eq]
      by_cases same : c = c'
      · simp [same, hseen]
      · simp [same, Ne.symm same]

theorem nodup_collect (seen : Std.HashSet Cell) (cs : List Cell) : (collect seen cs).1.Nodup := by
  induction cs generalizing seen with
  | nil => exact .nil
  | cons c cs ih =>
    rw [collect]
    split
    · exact ih seen
    · refine List.nodup_cons.mpr ⟨fun h => ?_, ih _⟩
      exact (mem_collect_fst.mp h).2 Std.HashSet.mem_insert_self

/-- The cells of further layers were not seen before. -/
theorem not_mem_of_mem_grow {k : Nat} {layer : List Cell} {seen : Std.HashSet Cell} {c : Cell}
    (h : c ∈ grow k layer seen) : c ∉ seen := by
  induction k generalizing layer seen with
  | zero => exact absurd h List.not_mem_nil
  | succ k ih =>
    rcases List.mem_append.mp h with h | h
    · exact (mem_collect_fst.mp h).2
    · exact fun hs => ih h (mem_collect_snd.mpr (.inl hs))

theorem nodup_grow (k : Nat) (layer : List Cell) (seen : Std.HashSet Cell) :
    (grow k layer seen).Nodup := by
  induction k generalizing layer seen with
  | zero => exact .nil
  | succ k ih =>
    refine List.nodup_append.mpr ⟨nodup_collect _ _, ih _ _, fun c hc c' hc' same => ?_⟩
    subst same
    exact not_mem_of_mem_grow hc' (mem_collect_snd.mpr (.inr (mem_collect_fst.mp hc).1))

/-- **A disk holds each cell once.** -/
theorem nodup_disk (c : Cell) (k : Nat) : (c.disk k).Nodup := by
  refine List.nodup_cons.mpr ⟨fun h => ?_, nodup_grow _ _ _⟩
  exact not_mem_of_mem_grow h Std.HashSet.mem_insert_self

theorem mem_disk_self (c : Cell) (k : Nat) : c ∈ c.disk k := List.mem_cons_self

end Cell

/-! ## A cell and itself -/

theorem BaseCell.directionTo?_self (b : BaseCell) : b.directionTo? b = some .center := by
  rw [directionTo?, Direction.all, List.find?_cons_of_pos]
  simp [neighbor]

theorem isTorn_self (d : Direction) : isTorn d d = false := by
  cases d <;> rfl

theorem Coord.length_sub_self (x : Coord) : (x - x).length = 0 := by
  have hzero : x - x = zero := by
    change Coord.mk (x.a - x.a) (x.b - x.b) = zero
    rw [Int.sub_self, Int.sub_self, zero]
  rw [hzero]
  rfl

theorem Address.exists_planeOf?_self (c : Address) : ∃ x, c.planeOf? c = some x := by
  simp only [planeOf?, BaseCell.directionTo?_self, isTorn_self]
  by_cases h : c.base.isPentagon <;> simp [h]

theorem Address.steps?_self (c : Address) : c.steps? c = some 0 := by
  obtain ⟨x, hx⟩ := c.exists_planeOf?_self
  simp [steps?, hx, Coord.length_sub_self]

theorem Cell.steps?_self (c : Cell) : c.steps? c = some 0 := c.address.steps?_self

end GeoDispatch
