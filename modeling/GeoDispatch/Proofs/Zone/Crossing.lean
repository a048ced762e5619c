import GeoDispatch.Proofs.Number.Rational
import GeoDispatch.Zone.Polygon
import Mathlib.Tactic.FieldSimp
import Mathlib.Tactic.Ring

/-! # Crossings along paths

Whether a point lies in a polygon is the parity of the edges that the ray from it crosses.  The
edges are those of the closed path along the vertices and back to the first one
(`Polygon.contains_eq`), and along paths parities add up (`Polygon.oddCrossings_append`).  So the
vertex at which the closed path starts does not matter (`Polygon.contains_append_comm`), and as
an edge is crossed from both sides alike (`Polygon.crosses_comm`), a detour along an edge and
back drops out: a polygon cut along a diagonal contains what just one of the pieces contains
(`Polygon.contains_cut`).
-/

namespace GeoDispatch

namespace Polygon

section

variable {α : Type} [Scalar α]

/-- Whether the ray from `p` crosses an odd number of the edges of a path. -/
def oddCrossings (p : Point α) : List (Point α) → Bool
  | u :: v :: path => crosses p u v ^^ oddCrossings p (v :: path)
  | _ => false

/-- The vertices of a polygon from the `i`-th to the `j`-th. -/
def piece (g : Polygon α) (i j : Nat) : Polygon α := ⟨(g.points.drop i).take (j - i + 1)⟩

/-- The vertices of a polygon from the `j`-th past the last one to the `i`-th. -/
def rest (g : Polygon α) (i j : Nat) : Polygon α := ⟨g.points.drop j ++ g.points.take (i + 1)⟩

variable {p : Point α}

@[simp] theorem oddCrossings_singleton (u : Point α) : oddCrossings p [u] = false := rfl

@[simp] theorem oddCrossings_pair (u v : Point α) : oddCrossings p [u, v] = crosses p u v :=
  Bool.xor_false _

/-- Parities add up where one path ends and the next one starts. -/
theorem oddCrossings_append (us : List (Point α)) (w : Point α) (vs : List (Point α)) :
    oddCrossings p (us ++ w :: vs) =
      (oddCrossings p (us ++ [w]) ^^ oddCrossings p (w :: vs)) := by
  induction us with
  | nil => exact (Bool.false_xor _).symm
  | cons u us ih =>
    cases us with
    | nil =>
      change (crosses p u w ^^ oddCrossings p (w :: vs)) = _
      rw [List.singleton_append, oddCrossings_pair]
    | cons u' us =>
      change (crosses p u u' ^^ oddCrossings p (u' :: us ++ w :: vs)) =
        ((crosses p u u' ^^ oddCrossings p (u' :: us ++ [w])) ^^ _)
      rw [ih, Bool.xor_assoc]

/-- The edges of a path toggle a flag by the parity of the path. -/
theorem foldl_zip_crosses (inside : Bool) (u : Point α) (vs : List (Point α)) (w : Point α) :
    ((u :: vs).zip (vs ++ [w])).foldl (fun inside e => inside != crosses p e.1 e.2) inside =
      (inside ^^ oddCrossings p (u :: (vs ++ [w]))) := by
  induction vs generalizing u inside with
  | nil =>
    rw [List.nil_append, oddCrossings_pair, ← Bool.bne_eq_xor]
    rfl
  | cons v vs ih =>
    rw [List.cons_append, List.zip_cons_cons, List.foldl_cons, ih, Bool.bne_eq_xor, Bool.xor_assoc]
    rfl

omit [Scalar α] in
theorem edges_cons (v : Point α) (vs : List (Point α)) :
    (Polygon.mk (v :: vs)).edges = (v :: vs).zip (vs ++ [v]) := by
  cases vs with
  | nil => rfl
  | cons w vs =>
    have wrap : 1 % (v :: w :: vs).length = 1 := Nat.mod_eq_of_lt (by simp)
    have short : ¬ (v :: w :: vs).length ≤ 1 := by simp
    simp only [edges, List.rotateLeft, wrap, if_neg short]
    rfl

/-- Containment is the parity of the closed path along the vertices. -/
theorem contains_eq (vs : List (Point α)) :
    (Polygon.mk vs).contains p =
      (decide (3 ≤ vs.length) && oddCrossings p (vs ++ vs.take 1)) := by
  cases vs with
  | nil => rfl
  | cons v vs => rw [contains, edges_cons, foldl_zip_crosses, Bool.false_xor]; rfl

/-- It does not matter where the closed path starts. -/
theorem contains_append_comm (us vs : List (Point α)) :
    (Polygon.mk (us ++ vs)).contains p = (Polygon.mk (vs ++ us)).contains p := by
  cases us with
  | nil => rw [List.append_nil, List.nil_append]
  | cons u us =>
    cases vs with
    | nil => rw [List.append_nil, List.nil_append]
    | cons v vs =>
      have there : u :: us ++ v :: vs ++ [u] = (u :: us) ++ v :: (vs ++ [u]) := by simp
      have back : v :: vs ++ u :: us ++ [v] = (v :: vs) ++ u :: (us ++ [v]) := by simp
      rw [contains_eq, contains_eq, List.length_append, List.length_append, Nat.add_comm]
      change (_ && oddCrossings p (u :: us ++ v :: vs ++ [u])) =
        (_ && oddCrossings p (v :: vs ++ u :: us ++ [v]))
      rw [there, back, oddCrossings_append, oddCrossings_append (v :: vs), Bool.xor_comm]
      rfl

end

/-! ## Cutting along a diagonal -/

variable {p : Point ℚ}

/-- An edge is crossed in both directions alike. -/
theorem crosses_comm (p u v : Point ℚ) : crosses p u v = crosses p v u := by
  by_cases apart : u.lat = v.lat
  · simp [crosses, apart]
  · have hu : u.lat - v.lat ≠ 0 := sub_ne_zero.mpr apart
    have hv : v.lat - u.lat ≠ 0 := sub_ne_zero.mpr (Ne.symm apart)
    have meet : (u.lng - v.lng) * (p.lat - v.lat) / (u.lat - v.lat) + v.lng =
        (v.lng - u.lng) * (p.lat - u.lat) / (v.lat - u.lat) + u.lng := by
      field_simp
      ring
    rw [crosses, crosses, meet, bne_comm]

/-- The parity of a closed path is that of the two closed paths which a diagonal cuts it into. -/
theorem contains_append_of_diagonal (u : Point ℚ) {us : List (Point ℚ)} (w : Point ℚ)
    {ws : List (Point ℚ)} (hus : us ≠ []) (hws : ws ≠ []) :
    (Polygon.mk (u :: us ++ w :: ws)).contains p =
      ((Polygon.mk (u :: us ++ [w])).contains p ^^ (Polygon.mk (w :: ws ++ [u])).contains p) := by
  have large : 3 ≤ (u :: us ++ w :: ws).length ∧ 3 ≤ (u :: us ++ [w]).length ∧
      3 ≤ (w :: ws ++ [u]).length := by
    have := List.length_pos_iff.mpr hus
    have := List.length_pos_iff.mpr hws
    simp only [List.length_append, List.length_cons, List.length_nil]
    omega
  obtain ⟨whole, first, second⟩ := large
  have around : oddCrossings p (u :: us ++ w :: ws ++ [u]) =
      (oddCrossings p (u :: us ++ [w]) ^^ oddCrossings p (w :: ws ++ [u])) := by
    rw [List.append_assoc]
    exact oddCrossings_append (u :: us) w (ws ++ [u])
  have there : oddCrossings p (u :: us ++ [w] ++ [u]) =
      (oddCrossings p (u :: us ++ [w]) ^^ crosses p w u) := by
    rw [List.append_assoc, List.singleton_append, oddCrossings_append, oddCrossings_pair]
  have back : oddCrossings p (w :: ws ++ [u] ++ [w]) =
      (oddCrossings p (w :: ws ++ [u]) ^^ crosses p u w) := by
    rw [List.append_assoc, List.singleton_append, oddCrossings_append, oddCrossings_pair]
  rw [contains_eq, contains_eq, contains_eq, decide_eq_true whole, decide_eq_true first,
    decide_eq_true second, Bool.true_and, Bool.true_and, Bool.true_and]
  change oddCrossings p (u :: us ++ w :: ws ++ [u]) =
    (oddCrossings p (u :: us ++ [w] ++ [u]) ^^ oddCrossings p (w :: ws ++ [u] ++ [w]))
  -- the diagonal is walked once in each direction
  rw [around, there, back, crosses_comm p w u]
  cases crosses p u w <;> simp

/-- A list is parted at two of its positions. -/
theorem exists_parts {κ : Type} {vs : List κ} {i j : Nat} (hij : i < j) (hj : j < vs.length) :
    ∃ front u us w back, vs = front ++ (u :: us ++ w :: back) ∧ i = front.length ∧
      j = front.length + us.length + 1 := by
  have hi : i < vs.length := Nat.lt_trans hij hj
  have middle : (vs.drop (i + 1)).take (j - i - 1) ++ vs.drop j = vs.drop (i + 1) := by
    have hdrop : vs.drop j = (vs.drop (i + 1)).drop (j - i - 1) := by
      rw [List.drop_drop]
      congr 1
      omega
    rw [hdrop, List.take_append_drop]
  refine ⟨vs.take i, vs[i], (vs.drop (i + 1)).take (j - i - 1), vs[j], vs.drop (j + 1), ?_,
    (List.length_take_of_le (Nat.le_of_lt hi)).symm, ?_⟩
  · rw [List.getElem_cons_drop, List.cons_append, middle, List.getElem_cons_drop,
      List.take_append_drop]
  · rw [List.length_take_of_le (Nat.le_of_lt hi), List.length_take_of_le]
    · omega
    · rw [List.length_drop]
      omega

section

variable (front us back : List (Point ℚ)) (u w : Point ℚ)

theorem piece_parts :
    (Polygon.mk (front ++ (u :: us ++ w :: back))).piece front.length
      (front.length + us.length + 1) = ⟨u :: us ++ [w]⟩ := by
  have count : front.length + us.length + 1 - front.length + 1 = (u :: us).length + 1 := by
    rw [List.length_cons]
    omega
  rw [piece, List.drop_left, count, List.take_length_add_append]
  rfl

theorem rest_parts :
    (Polygon.mk (front ++ (u :: us ++ w :: back))).rest front.length
      (front.length + us.length + 1) = ⟨w :: (back ++ front) ++ [u]⟩ := by
  have skip : (front ++ (u :: us ++ w :: back)).drop (front.length + us.length + 1) =
      w :: back := by
    have count : front.length + us.length + 1 = (front ++ (u :: us)).length := by
      rw [List.length_append, List.length_cons]
      omega
    rw [count, ← List.append_assoc, List.drop_left]
  have keep : (front ++ (u :: us ++ w :: back)).take (front.length + 1) = front ++ [u] := by
    rw [List.take_length_add_append]
    rfl
  rw [rest, skip, keep, List.cons_append, List.cons_append, List.append_assoc]

end

/-- **Cutting a polygon splits what it contains.**  Let a polygon, convex or not and crossing
itself or not, be cut along the diagonal from its `i`-th to its `j`-th vertex, which are not
neighbours.  A point lies in the polygon exactly when it lies in just one of the two pieces, also
when it is on the cut or a vertex; so a point inside the polygon is inside exactly one of them. -/
theorem contains_cut (g : Polygon ℚ) {i j : Nat} (hij : i + 2 ≤ j) (hj : j < g.size)
    (hji : j + 2 ≤ i + g.size) (p : Point ℚ) :
    g.contains p = ((g.piece i j).contains p ^^ (g.rest i j).contains p) ∧
      (g.contains p → Xor ((g.piece i j).contains p = true) ((g.rest i j).contains p = true)) := by
  obtain ⟨vs⟩ := g
  have ordered : i < j := by omega
  obtain ⟨front, u, us, w, back, rfl, rfl, rfl⟩ := exists_parts ordered hj
  have near : us ≠ [] := List.ne_nil_of_length_pos (by omega)
  have far : back ++ front ≠ [] := by
    refine List.ne_nil_of_length_pos ?_
    simp only [size, List.length_append, List.length_cons] at hji ⊢
    omega
  have split : (Polygon.mk (front ++ (u :: us ++ w :: back))).contains p =
      ((Polygon.mk (u :: us ++ [w])).contains p ^^
        (Polygon.mk (w :: (back ++ front) ++ [u])).contains p) := by
    rw [contains_append_comm, List.append_assoc]
    exact contains_append_of_diagonal u w near far
  have exactlyOne : ∀ a b : Bool, (a ^^ b) = true → Xor (a = true) (b = true) := by decide
  rw [piece_parts, rest_parts]
  exact ⟨split, fun inside => exactlyOne _ _ (split.symm.trans inside)⟩

/-- A polygon with a notch, cut along a diagonal that leaves it, and a point on the diagonal. -/
theorem notched_cut_along_diagonal :
    let notched : Polygon ℚ := ⟨[⟨0, 0⟩, ⟨0, 4⟩, ⟨4, 4⟩, ⟨1, 2⟩, ⟨4, 0⟩]⟩
    notched.contains ⟨1, 1⟩ = true ∧
      Xor ((notched.piece 0 2).contains ⟨1, 1⟩ = true)
        ((notched.rest 0 2).contains ⟨1, 1⟩ = true) := by
  intro notched
  have inside : notched.contains ⟨1, 1⟩ = true := by decide +kernel
  exact ⟨inside, (contains_cut notched (by decide) (by decide) (by decide) ⟨1, 1⟩).2 inside⟩

end Polygon

end GeoDispatch
