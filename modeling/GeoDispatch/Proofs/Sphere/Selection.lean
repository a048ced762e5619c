import GeoDispatch.Proofs.Number.Order
import GeoDispatch.Proofs.Sequence.Sorted
import GeoDispatch.Proofs.Sphere.Nearest

/-! # The answer of a search in order

A search numbers the points before it drops those that fail one of its two tests, and sorts the
rest stably by the total order of doubles.  So no two of its hits share an index, and they stand in
a strict order, by distance first and by index second (`NearPoint.Precedes`).  A list in a strict
order is known by its members, and these are known from the two tests (`mem_nearest`): the order
leaves no choice where the hits of further points go (`filter_nearest_append`).

A distance that passes the second test is not NaN.  Among such distances the total order is the
order of the numbers, but for `-0`, which it puts before `0`.
-/

namespace GeoDispatch

/-! ## Hits under their indices -/

section

variable {α : Type} [Trigonometric α] {center : Point α} {radius : α} {points : List (Point α)}

/-- The points in a box are in the order of the list. -/
theorem pairwise_within {box : BoundingBox α} :
    (within box center radius points).Pairwise fun a b => a.index < b.index := by
  have rising : points.zipIdx.Pairwise fun a b => a.2 < b.2 := by
    rw [← List.pairwise_map, List.zipIdx_map_snd]
    exact List.pairwise_lt_range'
  refine List.pairwise_filterMap.mpr (rising.imp ?_)
  rintro ⟨p, i⟩ ⟨q, j⟩ hlt a ha b hb
  simp only [Option.ite_none_right_eq_some, Option.some.injEq] at ha hb
  obtain ⟨-, -, rfl⟩ := ha
  obtain ⟨-, -, rfl⟩ := hb
  exact hlt

theorem nodup_index_nearest : ((nearest center points radius).map NearPoint.index).Nodup := by
  rw [nearest, ((List.mergeSort_perm _ _).map _).nodup_iff]
  exact List.pairwise_map.mpr (pairwise_within.imp Nat.ne_of_lt)

/-- The indices of the hits are those of the points that pass both tests. -/
theorem mem_index_nearest {i : Nat} :
    i ∈ (nearest center points radius).map NearPoint.index ↔
      ∃ p, points[i]? = some p ∧ (BoundingBox.around center radius).contains p ∧
        center.distance p ≤ radius := by
  rw [List.mem_map]
  constructor
  · rintro ⟨hit, hmem, rfl⟩
    obtain ⟨hget, hbox, heq, hdist⟩ := mem_nearest.mp hmem
    exact ⟨hit.point, hget, hbox, heq ▸ hdist⟩
  · rintro ⟨p, hget, hbox, hdist⟩
    exact ⟨⟨i, p, center.distance p⟩, mem_nearest.mpr ⟨hget, hbox, rfl, hdist⟩, rfl⟩

end

/-! ## The order of the hits -/

variable {center : Point Float} {radius : Float} {points : List (Point Float)}

/-- One hit precedes another when its distance is before the other's in the total order, or is the
same and its index is less. -/
def NearPoint.Precedes (a b : NearPoint Float) : Prop :=
  totalKey a.distance.toBits < totalKey b.distance.toBits ∨
    a.distance = b.distance ∧ a.index < b.index

theorem NearPoint.precedes_asymm (a b : NearPoint Float) (h : a.Precedes b) : ¬b.Precedes a := by
  rintro (h' | ⟨same, h'⟩) <;> rcases h with h | ⟨same', h⟩
  · omega
  · rw [same'] at h'
    omega
  · rw [same] at h
    omega
  · omega

theorem pairwise_nearest : (nearest center points radius).Pairwise NearPoint.Precedes := by
  refine (pairwise_mergeSort_stable ?_ ?_ pairwise_within).imp ?_
  · intro a b c hab hbc
    exact decide_eq_true (Int.le_trans (of_decide_eq_true hab) (of_decide_eq_true hbc))
  · intro a b
    rw [Bool.or_eq_true]
    exact (Int.le_total _ _).imp decide_eq_true decide_eq_true
  · rintro a b ⟨hle, tie⟩
    rcases Int.lt_or_eq_of_le (of_decide_eq_true hle) with hlt | same
    · exact .inl hlt
    · have hback : Scalar.totalLe b.distance a.distance := decide_eq_true (Int.le_of_eq same.symm)
      exact .inr ⟨Float.toBits_inj.mp (totalKey_inj.mp same), tie hback⟩

/-- Further points at the end of the list leave the hits among the others as they are. -/
theorem filter_nearest_append {more : List (Point Float)} :
    (nearest center (points ++ more) radius).filter (·.index < points.length) =
      nearest center points radius := by
  have : Std.Irrefl NearPoint.Precedes := ⟨fun a h => a.precedes_asymm a h h⟩
  have : Std.Antisymm NearPoint.Precedes := ⟨fun a b h h' => absurd h' (a.precedes_asymm b h)⟩
  refine (pairwise_nearest.filter _).eq_of_mem_iff pairwise_nearest fun hit => ?_
  rw [List.mem_filter, mem_nearest, mem_nearest, decide_eq_true_eq]
  constructor
  · rintro ⟨⟨hget, passes⟩, hlt⟩
    exact ⟨List.getElem?_append_left hlt ▸ hget, passes⟩
  · rintro ⟨hget, passes⟩
    have hlt : hit.index < points.length := (List.getElem?_eq_some_iff.mp hget).1
    exact ⟨⟨(List.getElem?_append_left hlt).trans hget, passes⟩, hlt⟩

/-- **A search in full.**  No index occurs twice; every hit is the point at its index with its
distance, at most the radius; the indices are those of the points in the box and within the
radius; hits come by rising distance, at the same distance by rising index; and further points at
the end of the list only put further hits between the old ones.  Coordinates and radius may be any
doubles, NaN and infinities among them, and the distance any double that the two points determine:
none of this depends on how it is computed. -/
theorem nearest_by_distance_then_index (center : Point Float) (points more : List (Point Float))
    (radius : Float) :
    ((nearest center points radius).map NearPoint.index).Nodup ∧
      (∀ hit ∈ nearest center points radius, points[hit.index]? = some hit.point ∧
        hit.distance = center.distance hit.point ∧ hit.distance ≤ radius) ∧
      (∀ i, i ∈ (nearest center points radius).map NearPoint.index ↔
        ∃ p, points[i]? = some p ∧ (BoundingBox.around center radius).contains p ∧
          center.distance p ≤ radius) ∧
      ((nearest center points radius).Pairwise fun a b =>
        a.distance < b.distance ∨ a.distance = -0 ∧ b.distance = 0 ∨
          a.distance = b.distance ∧ a.index < b.index) ∧
      (nearest center (points ++ more) radius).filter (·.index < points.length) =
        nearest center points radius := by
  refine ⟨nodup_index_nearest, fun hit hmem => ?_, fun i => mem_index_nearest, ?_,
    filter_nearest_append⟩
  · obtain ⟨hget, -, hdist⟩ := mem_nearest.mp hmem
    exact ⟨hget, hdist⟩
  · refine pairwise_nearest.imp_of_mem fun {a b} ha hb precedes => ?_
    obtain ⟨-, -, -, hle⟩ := mem_nearest.mp ha
    obtain ⟨-, -, -, hle'⟩ := mem_nearest.mp hb
    refine or_assoc.mp (precedes.imp_left ?_)
    exact (Double.totalKey_lt_iff (Double.isNaN_of_le hle).1 (Double.isNaN_of_le hle').1).mp

end GeoDispatch
