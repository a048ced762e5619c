import GeoDispatch.GeoError
import GeoDispatch.Sphere.Point

/-!
# Tilings of the sphere

What the index of drivers, the heatmap and the matcher need of a grid: the cell of a point,
the centre of a cell, the disk of a radius around a cell, and the number of steps between
two cells where the grid knows it.  Nothing else is asked of the cells.
-/

namespace GeoDispatch

/-- A division of the sphere into cells. -/
structure Tiling (C : Type) where
  /-- The cell of a point, where there is one. -/
  locate? : Point Float → Option C
  /-- The centre of a cell. -/
  center : C → Point Float
  /-- The cells at most so many steps away from a cell. -/
  disk : C → Nat → List C
  /-- The number of steps between two cells, where it is known. -/
  steps? : C → C → Option UInt32

namespace Tiling

variable {C : Type}

/-- The cell of a point; a point out of range or without a cell is an error. -/
def cellOf (t : Tiling C) (p : Point Float) : Except GeoError C :=
  match if p.isValid then t.locate? p else none with
  | some c => .ok c
  | none => .error (.invalidCoordinates p.lat p.lng)

/-- A point out of range has no cell. -/
theorem cellOf_of_not_valid (t : Tiling C) {p : Point Float} (invalid : p.isValid = false) :
    t.cellOf p = .error (.invalidCoordinates p.lat p.lng) := by
  rw [cellOf, invalid, if_neg Bool.false_ne_true]

/-- A point in range has a cell, if the tiling leaves no such point out. -/
theorem exists_cellOf_of_valid {t : Tiling C} (located : ∀ p, p.isValid → (t.locate? p).isSome)
    {p : Point Float} (valid : p.isValid) : ∃ c, t.cellOf p = .ok c := by
  obtain ⟨c, hc⟩ := Option.isSome_iff_exists.mp (located p valid)
  exact ⟨c, by rw [cellOf, if_pos valid, hc]⟩

end Tiling

end GeoDispatch
