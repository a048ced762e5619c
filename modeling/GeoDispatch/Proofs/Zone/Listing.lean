import GeoDispatch.Proofs.Zone.Segment
import Mathlib.Data.List.Rotate

/-! # Listings of one figure

The vertices of a figure can be listed from any one of them on, in either direction, with the first
one again at the end, and with further points of the edges between their ends.  None of this matters
to the points that the figure contains (`Polygon.contains_of_relisting`): a path is crossed as often
backwards as forwards (`Polygon.oddCrossings_reverse`), and a point set into the gap between the
last and the first vertex parts the edge there (`Polygon.contains_concat_of_isBetween`).  A gap
anywhere else is brought there by a turn of the list.
-/

namespace GeoDispatch

namespace Polygon

open Point

variable {p : Point ℚ}

/-! ## Turned and reversed lists -/

theorem contains_rotate (vs : List (Point ℚ)) (k : ℕ) :
    (Polygon.mk (vs.rotate k)).contains p = (Polygon.mk vs).contains p := by
  rw [List.rotate_eq_drop_append_take_mod, contains_append_comm, List.take_append_drop]

/-- A path is crossed as often backwards as forwards. -/
theorem oddCrossings_reverse (path : List (Point ℚ)) :
    oddCrossings p path.reverse = oddCrossings p path := by
  induction path with
  | nil => rfl
  | cons u path ih =>
    cases path with
    | nil => rfl
    | cons v path =>
      have last : (u :: v :: path).reverse = path.reverse ++ v :: [u] := by simp
      have others : path.reverse ++ [v] = (v :: path).reverse := by simp
      show oddCrossings p (u :: v :: path).reverse = (crosses p u v ^^ oddCrossings p (v :: path))
      rw [last, oddCrossings_append, others, ih, oddCrossings_pair, crosses_comm p v u,
        Bool.xor_comm]

theorem contains_reverse (vs : List (Point ℚ)) :
    (Polygon.mk vs.reverse).contains p = (Polygon.mk vs).contains p := by
  cases vs with
  | nil => rfl
  | cons v vs =>
    -- both closed paths start and end at `v`
    have closed : v :: vs.reverse ++ [v] = (v :: vs ++ [v]).reverse := by simp
    rw [List.reverse_cons, contains_append_comm, List.singleton_append, contains_eq, contains_eq]
    show (decide (3 ≤ (v :: vs.reverse).length) && oddCrossings p (v :: vs.reverse ++ [v])) =
      (decide (3 ≤ (v :: vs).length) && oddCrossings p (v :: vs ++ [v]))
    rw [closed, oddCrossings_reverse, List.length_cons, List.length_reverse, List.length_cons]

/-! ## Further points of the edges -/

/-- A point between the last and the first vertex may be listed after the last one. -/
theorem contains_concat_of_isBetween {vs : List (Point ℚ)} (large : 3 ≤ vs.length) {a b m : Point ℚ}
    (last : vs.getLast? = some a) (first : vs.head? = some b) (between : IsBetween a b m) :
    (Polygon.mk (vs ++ [m])).contains p = (Polygon.mk vs).contains p := by
  obtain ⟨front, rfl⟩ := List.getLast?_eq_some_iff.mp last
  have start : (front ++ [a]).take 1 = [b] := by rw [List.take_one, first, Option.toList_some]
  have start' : (front ++ [a] ++ [m]).take 1 = [b] := by
    rw [List.take_append_of_le_length (by omega), start]
  have larger : 3 ≤ (front ++ [a] ++ [m]).length := by
    rw [List.length_append]
    omega
  -- the closed paths differ in their ends: from `a` straight to `b`, and from `a` over `m` to `b`
  have direct : front ++ [a] ++ [b] = front ++ a :: [b] := by simp
  have detour : front ++ [a] ++ [m] ++ [b] = front ++ a :: [m, b] := by simp
  rw [contains_eq, contains_eq, decide_eq_true large, decide_eq_true larger, start, start', direct,
    detour, oddCrossings_append, oddCrossings_append front a [b], oddCrossings_pair]
  show (true && (_ ^^ (crosses p a m ^^ oddCrossings p [m, b]))) = _
  rw [oddCrossings_pair, crosses_of_isBetween between]

/-- **Containment does not depend on the listing.**  Of a figure with three vertices or more the
same points are contained when its vertices are listed from another one on, when they are listed
backwards, when the first one is listed again at the end, and when a point of the segment between
two vertices that follow each other around the figure, such as one of these two, is listed between
them. -/
theorem contains_of_relisting (g : Polygon ℚ) (large : 3 ≤ g.size) (p : Point ℚ) :
    (∀ k, (Polygon.mk (g.points.rotate k)).contains p = g.contains p) ∧
    (Polygon.mk g.points.reverse).contains p = g.contains p ∧
    (Polygon.mk (g.points ++ g.points.take 1)).contains p = g.contains p ∧
    ∀ (front back : List (Point ℚ)) (a b m : Point ℚ), g.points = front ++ back →
      (back ++ front).getLast? = some a → (back ++ front).head? = some b → IsBetween a b m →
      (Polygon.mk (front ++ m :: back)).contains p = g.contains p := by
  obtain ⟨vs⟩ := g
  replace large : 3 ≤ vs.length := large
  refine ⟨contains_rotate vs, contains_reverse vs, ?_, ?_⟩
  · have nonempty : vs ≠ [] := List.ne_nil_of_length_pos (by omega)
    have last := List.getLast?_eq_some_getLast nonempty
    have first := List.head?_eq_some_head nonempty
    show (Polygon.mk (vs ++ vs.take 1)).contains p = _
    rw [List.take_one, first, Option.toList_some]
    exact contains_concat_of_isBetween large last first (isBetween_right _ _)
  · rintro front back a b m rfl last first between
    have longer : 3 ≤ (back ++ front).length := by
      rw [List.length_append] at large ⊢
      omega
    calc (Polygon.mk (front ++ m :: back)).contains p
      _ = (Polygon.mk (m :: back ++ front)).contains p := contains_append_comm front (m :: back)
      _ = (Polygon.mk (back ++ front ++ [m])).contains p := contains_append_comm [m] (back ++ front)
      _ = (Polygon.mk (back ++ front)).contains p :=
          contains_concat_of_isBetween longer last first between
      _ = (Polygon.mk (front ++ back)).contains p := contains_append_comm back front

/-- A triangle and a point inside it, level with one of its vertices, before and after its vertices
are listed otherwise; a vertex in the middle of the edge back to the first one is listed at either
end. -/
theorem triangle_contains_in_each_listing :
    let triangle : Polygon ℚ := ⟨[⟨0, 0⟩, ⟨2, 4⟩, ⟨4, 0⟩]⟩
    let p : Point ℚ := ⟨2, 1⟩
    triangle.contains p = true ∧
      (Polygon.mk (triangle.points.rotate 2)).contains p = true ∧
      (Polygon.mk triangle.points.reverse).contains p = true ∧
      (Polygon.mk (triangle.points ++ triangle.points.take 1)).contains p = true ∧
      (Polygon.mk (⟨2, 0⟩ :: triangle.points)).contains p = true ∧
      (Polygon.mk (triangle.points ++ [⟨2, 0⟩])).contains p = true := by
  intro triangle p
  have inside : triangle.contains p = true := by decide +kernel
  obtain ⟨turned, reversed, closed, parted⟩ := contains_of_relisting triangle (by decide) p
  have middle : IsBetween (⟨4, 0⟩ : Point ℚ) ⟨0, 0⟩ ⟨2, 0⟩ :=
    ⟨1 / 2, by norm_num, by norm_num, by norm_num, by norm_num⟩
  refine ⟨inside, (turned 2).trans inside, reversed.trans inside, closed.trans inside, ?_, ?_⟩
  · exact (parted [] triangle.points _ _ _ rfl rfl rfl middle).trans inside
  · exact (parted triangle.points [] _ _ _ rfl rfl rfl middle).trans inside

end Polygon

end GeoDispatch
