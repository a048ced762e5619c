import GeoDispatch.Proofs.Zone.Convex
import Mathlib.Data.List.Chain

/-! # The area of a figure

A segment sweeps, as seen from an observer, the triangle between the observer and its two ends, and
a path sweeps what its segments do (`Polygon.swept`).  What a closed path sweeps does not depend on
the observer (`Polygon.swept_closed`); its magnitude is the area of the polygon, up to a factor
(`Polygon.area_eq`).

That the area belongs to the figure and not to its listing is seen from the best observer each time.
The vertex at which the closed path starts does not matter, backwards the path sweeps the opposite,
a segment parted by a point of it sweeps as much as before, and to shift the figure is to shift the
observer the other way.  A diagonal is swept once in each direction, so what the two pieces of a cut
polygon sweep adds up.  When the polygon is convex, an observer at an end of the diagonal sees all
its edges pass to the same side: both pieces sweep to this side, and so do their areas add up
(`Polygon.area_of_figure`).
-/

namespace GeoDispatch

open Point

namespace Point

variable {o u v w a b m : Point ℚ}

/-- The corners of a triangle may be named from any one of them on. -/
theorem turn_rotate (u v w : Point ℚ) : turn w u v = turn u v w := by
  rw [turn, turn]
  ring

theorem turn_comm (u v w : Point ℚ) : turn u w v = -turn u v w := by
  rw [← turn_rotate, turn_swap, turn_rotate]

/-- A point of a segment parts the triangle over it. -/
theorem turn_add_of_isBetween (between : IsBetween a b m) (o : Point ℚ) :
    turn o a m + turn o m b = turn o a b := by
  obtain ⟨t, -, -, hlat, hlng⟩ := between
  rw [turn, turn, turn, hlat, hlng]
  ring

end Point

namespace Hand

variable {s : Hand} {u v w : Point ℚ} {x y : ℚ}

/-- The sign of the triangles on a side of a line. -/
def sign : Hand → ℚ
  | left => 1
  | right => -1

theorem Holds.sign_mul_turn_pos (h : s.Holds u v w) : 0 < s.sign * turn u v w := by
  cases s with
  | left =>
    rw [sign, one_mul]
    exact h
  | right =>
    rw [sign, neg_one_mul]
    exact neg_pos.mpr h

/-- Where nothing has the other sign, magnitudes add up. -/
theorem abs_add_of_sign (hx : 0 ≤ s.sign * x) (hy : 0 ≤ s.sign * y) : |x + y| = |x| + |y| := by
  cases s with
  | left =>
    rw [sign, one_mul] at hx hy
    rw [abs_of_nonneg hx, abs_of_nonneg hy, abs_of_nonneg (add_nonneg hx hy)]
  | right =>
    rw [sign, neg_one_mul, neg_nonneg] at hx hy
    rw [abs_of_nonpos hx, abs_of_nonpos hy, abs_of_nonpos (add_nonpos hx hy), neg_add]

end Hand

namespace Polygon

variable {o : Point ℚ} {vs : List (Point ℚ)}

/-! ## What a path sweeps -/

/-- Twice the area that a path sweeps as seen from `o`, counted negative where the path passes `o`
clockwise. -/
def swept (o : Point ℚ) : List (Point ℚ) → ℚ
  | u :: v :: path => turn o u v + swept o (v :: path)
  | _ => 0

theorem swept_cons_cons (o u v : Point ℚ) (path : List (Point ℚ)) :
    swept o (u :: v :: path) = turn o u v + swept o (v :: path) := rfl

@[simp] theorem swept_pair (o u v : Point ℚ) : swept o [u, v] = turn o u v := add_zero _

/-- What is swept adds up where one path ends and the next one starts. -/
theorem swept_append (o : Point ℚ) (us : List (Point ℚ)) (w : Point ℚ) (vs : List (Point ℚ)) :
    swept o (us ++ w :: vs) = swept o (us ++ [w]) + swept o (w :: vs) := by
  induction us with
  | nil => exact (zero_add _).symm
  | cons u us ih =>
    cases us with
    | nil => rw [List.singleton_append, List.singleton_append, swept_pair, swept_cons_cons]
    | cons u' us =>
      rw [List.cons_append, List.cons_append, swept_cons_cons, ← List.cons_append, ih,
        ← add_assoc]
      rfl

/-- Backwards a path sweeps the opposite. -/
theorem swept_reverse (o : Point ℚ) (path : List (Point ℚ)) :
    swept o path.reverse = -swept o path := by
  induction path with
  | nil => exact neg_zero.symm
  | cons u path ih =>
    cases path with
    | nil => exact neg_zero.symm
    | cons v path =>
      have last : (u :: v :: path).reverse = path.reverse ++ v :: [u] := by simp
      have others : path.reverse ++ [v] = (v :: path).reverse := by simp
      rw [last, swept_append, others, ih, swept_pair, swept_cons_cons, turn_comm o u v, neg_add,
        add_comm]

/-- Another observer sees a path sweep more or less only by its ends. -/
theorem swept_observer (o o' u : Point ℚ) (path : List (Point ℚ)) (w : Point ℚ) :
    swept o (u :: (path ++ [w])) =
      swept o' (u :: (path ++ [w])) + (turn o o' w - turn o o' u) := by
  have step (u v : Point ℚ) : turn o u v = turn o' u v + (turn o o' v - turn o o' u) := by
    simp only [turn]
    ring
  induction path generalizing u with
  | nil => rw [List.nil_append, swept_pair, swept_pair, step]
  | cons v path ih =>
    rw [List.cons_append, swept_cons_cons, swept_cons_cons, ih, step u v]
    ring

/-- All observers see a closed path sweep the same. -/
theorem swept_closed (o o' : Point ℚ) (vs : List (Point ℚ)) :
    swept o (vs ++ vs.take 1) = swept o' (vs ++ vs.take 1) := by
  cases vs with
  | nil => rfl
  | cons v vs =>
    have closed := swept_observer o o' v vs v
    rwa [sub_self, add_zero] at closed

/-! ## What a polygon encloses -/

/-- Twice the area that the closed path along some vertices encloses, positive when the path leads
around it counterclockwise. -/
def enclosed (vs : List (Point ℚ)) : ℚ := swept ⟨0, 0⟩ (vs ++ vs.take 1)

theorem enclosed_eq (o : Point ℚ) (vs : List (Point ℚ)) :
    enclosed vs = swept o (vs ++ vs.take 1) := swept_closed _ o vs

theorem toRadians_rat (x : ℚ) : Scalar.toRadians x = x * Scalar.toRadians 1 := by
  show x * _ = x * (1 * _)
  rw [one_mul]

theorem shoelace_eq (u v : Point ℚ) :
    shoelace u v = Scalar.toRadians 1 ^ 2 * turn ⟨0, 0⟩ u v := by
  rw [shoelace, toRadians_rat u.lng, toRadians_rat u.lat, toRadians_rat v.lng,
    toRadians_rat v.lat, turn]
  ring

theorem foldl_zip_shoelace (s : ℚ) (u : Point ℚ) (vs : List (Point ℚ)) (w : Point ℚ) :
    ((u :: vs).zip (vs ++ [w])).foldl (fun s e => s + shoelace e.1 e.2) s =
      s + Scalar.toRadians 1 ^ 2 * swept ⟨0, 0⟩ (u :: (vs ++ [w])) := by
  induction vs generalizing u s with
  | nil =>
    rw [List.nil_append, swept_pair, ← shoelace_eq]
    rfl
  | cons v vs ih =>
    rw [List.cons_append, List.zip_cons_cons, List.foldl_cons, ih, swept_cons_cons, shoelace_eq]
    ring

/-- A square degree of the flat map, in square kilometres. -/
def squareDegree : ℚ := (Scalar.toRadians 1 * earthRadius ℚ) ^ 2

/-- The area is the magnitude of what the vertices enclose. -/
theorem area_eq (large : 3 ≤ vs.length) :
    (Polygon.mk vs).area = |enclosed vs| / 2 * squareDegree := by
  have enough : ¬ (Polygon.mk vs).size < 3 := not_lt.mpr large
  cases vs with
  | nil => cases large
  | cons v vs =>
    rw [area, if_neg enough, edges_cons, foldl_zip_shoelace]
    show |((0 : ℕ) : ℚ) + Scalar.toRadians (1 : ℚ) ^ 2 * enclosed (v :: vs)| / ((2 : ℕ) : ℚ) *
      earthRadius ℚ * earthRadius ℚ = _
    rw [Nat.cast_zero, zero_add, abs_mul, abs_of_nonneg (sq_nonneg _), squareDegree]
    push_cast
    ring

theorem enclosed_triangle (u v w : Point ℚ) : enclosed [u, v, w] = turn u v w := by
  rw [enclosed_eq u]
  show turn u u v + (turn u v w + (turn u w u + 0)) = _
  rw [turn_self, turn_first, zero_add, add_zero, add_zero]

/-- What encloses as much, in either direction, has the same area. -/
theorem area_congr {us vs : List (Point ℚ)} (hus : 3 ≤ us.length) (hvs : 3 ≤ vs.length)
    (same : |enclosed us| = |enclosed vs|) : (Polygon.mk us).area = (Polygon.mk vs).area := by
  rw [area_eq hus, area_eq hvs, same]

/-! ## Listings of one figure -/

/-- It does not matter where the closed path starts. -/
theorem enclosed_append_comm (us vs : List (Point ℚ)) :
    enclosed (us ++ vs) = enclosed (vs ++ us) := by
  cases us with
  | nil => rw [List.append_nil, List.nil_append]
  | cons u us =>
    cases vs with
    | nil => rw [List.append_nil, List.nil_append]
    | cons v vs =>
      have there : u :: us ++ v :: vs ++ [u] = (u :: us) ++ v :: (vs ++ [u]) := by simp
      have back : v :: vs ++ u :: us ++ [v] = (v :: vs) ++ u :: (us ++ [v]) := by simp
      show swept _ (u :: us ++ v :: vs ++ [u]) = swept _ (v :: vs ++ u :: us ++ [v])
      rw [there, back, swept_append, swept_append _ (v :: vs), add_comm]
      rfl

theorem enclosed_rotate (vs : List (Point ℚ)) (k : ℕ) : enclosed (vs.rotate k) = enclosed vs := by
  rw [List.rotate_eq_drop_append_take_mod, enclosed_append_comm, List.take_append_drop]

/-- Backwards the path encloses the figure in the opposite direction. -/
theorem enclosed_reverse (vs : List (Point ℚ)) : enclosed vs.reverse = -enclosed vs := by
  cases vs with
  | nil => exact neg_zero.symm
  | cons v vs =>
    -- both closed paths start and end at `v`
    have closed : v :: vs.reverse ++ [v] = (v :: vs ++ [v]).reverse := by simp
    rw [List.reverse_cons, enclosed_append_comm, List.singleton_append]
    show swept _ (v :: vs.reverse ++ [v]) = -swept _ (v :: vs ++ [v])
    rw [closed, swept_reverse]

/-- A point between the last and the first vertex may be listed after the last one. -/
theorem enclosed_concat_of_isBetween {a b m : Point ℚ} (last : vs.getLast? = some a)
    (first : vs.head? = some b) (between : IsBetween a b m) :
    enclosed (vs ++ [m]) = enclosed vs := by
  obtain ⟨front, rfl⟩ := List.getLast?_eq_some_iff.mp last
  have start : (front ++ [a]).take 1 = [b] := by rw [List.take_one, first, Option.toList_some]
  have start' : (front ++ [a] ++ [m]).take 1 = [b] := by
    rw [List.take_append_of_le_length (by simp), start]
  -- the closed paths differ in their ends: from `a` straight to `b`, and from `a` over `m` to `b`
  have direct : front ++ [a] ++ [b] = front ++ a :: [b] := by simp
  have detour : front ++ [a] ++ [m] ++ [b] = front ++ a :: [m, b] := by simp
  rw [enclosed, enclosed, start, start', direct, detour, swept_append, swept_append _ front a [b],
    swept_cons_cons, swept_pair, swept_pair, turn_add_of_isBetween between]

/-- To shift a path is to shift the observer the other way. -/
theorem swept_shift (o : Point ℚ) (north east : ℚ) (path : List (Point ℚ)) :
    swept o (path.map fun p => ⟨p.lat + north, p.lng + east⟩) =
      swept ⟨o.lat - north, o.lng - east⟩ path := by
  induction path with
  | nil => rfl
  | cons u path ih =>
    cases path with
    | nil => rfl
    | cons v path =>
      rw [List.map_cons] at ih ⊢
      rw [List.map_cons, swept_cons_cons, ih, swept_cons_cons, turn, turn]
      ring

theorem enclosed_shift (north east : ℚ) (vs : List (Point ℚ)) :
    enclosed (vs.map fun p => ⟨p.lat + north, p.lng + east⟩) = enclosed vs := by
  rw [enclosed, ← List.map_take, ← List.map_append, swept_shift, ← enclosed_eq]

/-! ## Cutting a convex polygon -/

/-- The diagonal is swept once in each direction, so that two pieces enclose what the whole does. -/
theorem enclosed_append_of_diagonal (u : Point ℚ) (us : List (Point ℚ)) (w : Point ℚ)
    (ws : List (Point ℚ)) :
    enclosed (u :: us ++ w :: ws) = enclosed (u :: us ++ [w]) + enclosed (w :: ws ++ [u]) := by
  have around : u :: us ++ w :: ws ++ [u] = u :: us ++ w :: (ws ++ [u]) := by simp
  have there : u :: us ++ [w] ++ [u] = u :: us ++ w :: [u] := by simp
  have back : w :: ws ++ [u] ++ [w] = w :: ws ++ u :: [w] := by simp
  show swept _ (u :: us ++ w :: ws ++ [u]) =
    swept _ (u :: us ++ [w] ++ [u]) + swept _ (w :: ws ++ [u] ++ [w])
  rw [around, there, back, swept_append, swept_append _ (u :: us) w [u],
    swept_append _ (w :: ws) u [w], swept_pair, swept_pair, turn_comm _ u w]
  show _ + swept _ (w :: ws ++ [u]) = _
  ring

/-- A path and the segment back to its start enclose what an observer on the line of that segment
sees the path sweep. -/
theorem enclosed_eq_swept {a b : Point ℚ} {path : List (Point ℚ)} (level : turn o b a = 0) :
    enclosed (a :: path ++ [b]) = swept o (a :: path ++ [b]) := by
  have closed : a :: path ++ [b] ++ [a] = a :: path ++ b :: [a] := by simp
  rw [enclosed_eq o]
  show swept o (a :: path ++ [b] ++ [a]) = _
  rw [closed, swept_append, swept_pair, level, add_zero]

/-- A path whose segments all pass the observer on one side sweeps to this side. -/
theorem sign_mul_swept_nonneg {s : Hand} {path : List (Point ℚ)}
    (sided : path.IsChain fun a b => 0 ≤ s.sign * turn o a b) : 0 ≤ s.sign * swept o path := by
  induction path with
  | nil => exact (mul_zero _).ge
  | cons u path ih =>
    cases path with
    | nil => exact (mul_zero _).ge
    | cons v path =>
      obtain ⟨first, others⟩ := List.isChain_cons_cons.mp sided
      rw [swept_cons_cons, mul_add]
      exact add_nonneg first (ih others)

theorem edges_rotate (vs : List (Point ℚ)) (k : ℕ) :
    (Polygon.mk (vs.rotate k)).edges = (Polygon.mk vs).edges.rotate k := by
  rw [edges_eq, edges_eq, List.zip_eq_zipWith, List.zip_eq_zipWith,
    List.zipWith_rotate_distrib _ _ _ _ (List.length_rotate _ _).symm, List.rotate_rotate,
    List.rotate_rotate, Nat.add_comm]

/-- What holds of all edges holds along the closed path. -/
theorem isChain_of_edges {R : Point ℚ → Point ℚ → Prop} {v : Point ℚ} {vs : List (Point ℚ)}
    (holds : ∀ e ∈ (Polygon.mk (v :: vs)).edges, R e.1 e.2) : (v :: (vs ++ [v])).IsChain R := by
  have along (u w : Point ℚ) (us : List (Point ℚ))
      (holds : ∀ e ∈ (u :: us).zip (us ++ [w]), R e.1 e.2) : (u :: (us ++ [w])).IsChain R := by
    induction us generalizing u with
    | nil => simpa using holds
    | cons u' us ih =>
      rw [List.cons_append, List.zip_cons_cons] at holds
      obtain ⟨first, others⟩ := List.forall_mem_cons.mp holds
      exact List.isChain_cons_cons.mpr ⟨first, ih u' others⟩
  exact along v v vs (edges_cons v vs ▸ holds)

/-- Every vertex of a convex polygon sees all edges pass on one side. -/
theorem IsConvex.sign_mul_turn_nonneg {g : Polygon ℚ} {s : Hand} (h : g.IsConvex s)
    {e : Point ℚ × Point ℚ} (he : e ∈ g.edges) {v : Point ℚ} (hv : v ∈ g.points) :
    0 ≤ s.sign * turn v e.1 e.2 := by
  rw [turn_rotate]
  rcases h.holds he hv with rfl | rfl | side
  · rw [turn_first, mul_zero]
  · rw [turn_second, mul_zero]
  · exact side.sign_mul_turn_pos.le

/-- Two pieces of a convex polygon enclose figures in the same direction. -/
theorem area_append_of_diagonal {s : Hand} {u w : Point ℚ} {us ws : List (Point ℚ)} (hus : us ≠ [])
    (hws : ws ≠ [])
    (sided : ∀ e ∈ (Polygon.mk (u :: us ++ w :: ws)).edges, 0 ≤ s.sign * turn u e.1 e.2) :
    3 ≤ (u :: us ++ [w]).length ∧ 3 ≤ (w :: ws ++ [u]).length ∧
      (Polygon.mk (u :: us ++ w :: ws)).area =
        (Polygon.mk (u :: us ++ [w])).area + (Polygon.mk (w :: ws ++ [u])).area := by
  have large : 3 ≤ (u :: us ++ w :: ws).length ∧ 3 ≤ (u :: us ++ [w]).length ∧
      3 ≤ (w :: ws ++ [u]).length := by
    have := List.length_pos_iff.mpr hus
    have := List.length_pos_iff.mpr hws
    simp only [List.length_append, List.length_cons, List.length_nil]
    omega
  obtain ⟨whole, first, second⟩ := large
  have around : u :: (us ++ w :: ws ++ [u]) = u :: us ++ w :: (ws ++ [u]) := by simp
  have chain : (u :: us ++ w :: (ws ++ [u])).IsChain fun a b => 0 ≤ s.sign * turn u a b := by
    rw [← around]
    exact isChain_of_edges sided
  rw [List.isChain_split] at chain
  -- from `u`, an end of the diagonal, both pieces are seen to pass on the side of the whole
  have near : 0 ≤ s.sign * enclosed (u :: us ++ [w]) := by
    rw [enclosed_eq_swept (turn_first u w)]
    exact sign_mul_swept_nonneg chain.1
  have far : 0 ≤ s.sign * enclosed (w :: ws ++ [u]) := by
    rw [enclosed_eq_swept (turn_self u w)]
    exact sign_mul_swept_nonneg chain.2
  refine ⟨first, second, ?_⟩
  rw [area_eq whole, area_eq first, area_eq second, enclosed_append_of_diagonal,
    Hand.abs_add_of_sign near far, add_div, add_mul]

/-- The areas of the two pieces of a convex polygon that is cut along a diagonal add up. -/
theorem IsConvex.area_cut {g : Polygon ℚ} {s : Hand} (convex : g.IsConvex s) {i j : ℕ}
    (hij : i + 2 ≤ j) (hj : j < g.size) (hji : j + 2 ≤ i + g.size) :
    3 ≤ (g.piece i j).size ∧ 3 ≤ (g.rest i j).size ∧
      g.area = (g.piece i j).area + (g.rest i j).area := by
  obtain ⟨vs⟩ := g
  have large : 3 ≤ vs.length := convex.large
  have ordered : i < j := by omega
  obtain ⟨front, u, us, w, back, rfl, rfl, rfl⟩ := exists_parts ordered hj
  have near : us ≠ [] := List.ne_nil_of_length_pos (by omega)
  have far : back ++ front ≠ [] := by
    refine List.ne_nil_of_length_pos ?_
    simp only [size, List.length_append, List.length_cons] at hji ⊢
    omega
  have turned : u :: us ++ w :: (back ++ front) = u :: us ++ w :: back ++ front := by simp
  have sided : ∀ e ∈ (Polygon.mk (u :: us ++ w :: (back ++ front))).edges,
      0 ≤ s.sign * turn u e.1 e.2 := by
    intro e he
    rw [turned, ← List.rotate_append_length_eq, edges_rotate, List.mem_rotate] at he
    exact convex.sign_mul_turn_nonneg he (by simp)
  obtain ⟨first, second, parts⟩ := area_append_of_diagonal near far sided
  have start : (Polygon.mk (front ++ (u :: us ++ w :: back))).area =
      (Polygon.mk (u :: us ++ w :: (back ++ front))).area := by
    refine area_congr large ?_ ?_
    · rw [turned, List.length_append, Nat.add_comm, ← List.length_append]
      exact large
    · rw [turned, enclosed_append_comm]
  rw [piece_parts, rest_parts]
  exact ⟨first, second, start.trans parts⟩

/-- **The area belongs to the figure.**  A triangle has half the magnitude of its turn as area, in
square degrees.  Of a figure with three vertices or more the area is the same when its vertices are
listed from another one on, when they are listed backwards, when the first one is listed again at
the end, when a point of the segment between two vertices that follow each other around the figure
is listed between them, and when the figure is shifted to the north and to the east.  When a convex
polygon is cut along the diagonal from its `i`-th to its `j`-th vertex, which are not neighbours,
the areas of the two pieces add up to the area of the polygon. -/
theorem area_of_figure (g : Polygon ℚ) (large : 3 ≤ g.size) :
    (∀ u v w, g.points = [u, v, w] → g.area = |turn u v w| / 2 * squareDegree) ∧
    (∀ k, (Polygon.mk (g.points.rotate k)).area = g.area) ∧
    (Polygon.mk g.points.reverse).area = g.area ∧
    (Polygon.mk (g.points ++ g.points.take 1)).area = g.area ∧
    (∀ (front back : List (Point ℚ)) (a b m : Point ℚ), g.points = front ++ back →
      (back ++ front).getLast? = some a → (back ++ front).head? = some b → IsBetween a b m →
      (Polygon.mk (front ++ m :: back)).area = g.area) ∧
    (∀ north east : ℚ,
      (Polygon.mk (g.points.map fun p => ⟨p.lat + north, p.lng + east⟩)).area = g.area) ∧
    ∀ (s : Hand) (i j : ℕ), g.IsConvex s → i + 2 ≤ j → j < g.size → j + 2 ≤ i + g.size →
      3 ≤ (g.piece i j).size ∧ 3 ≤ (g.rest i j).size ∧
        g.area = (g.piece i j).area + (g.rest i j).area := by
  obtain ⟨vs⟩ := g
  replace large : 3 ≤ vs.length := large
  refine ⟨?_, fun k => ?_, ?_, ?_, ?_, fun north east => ?_, ?_⟩
  · rintro u v w rfl
    rw [area_eq large, enclosed_triangle]
  · exact area_congr (by rwa [List.length_rotate]) large (congrArg _ (enclosed_rotate vs k))
  · refine area_congr (by rwa [List.length_reverse]) large ?_
    rw [enclosed_reverse, abs_neg]
  · have nonempty : vs ≠ [] := List.ne_nil_of_length_pos (by omega)
    have last := List.getLast?_eq_some_getLast nonempty
    have first := List.head?_eq_some_head nonempty
    have same : enclosed (vs ++ vs.take 1) = enclosed vs := by
      rw [List.take_one, first, Option.toList_some]
      exact enclosed_concat_of_isBetween last first (isBetween_right _ _)
    exact area_congr (large.trans (List.sublist_append_left _ _).length_le) large
      (congrArg _ same)
  · rintro front back a b m rfl last first between
    have same : enclosed (front ++ m :: back) = enclosed (front ++ back) := by
      calc enclosed (front ++ m :: back)
        _ = enclosed (m :: back ++ front) := enclosed_append_comm front (m :: back)
        _ = enclosed (back ++ front ++ [m]) := enclosed_append_comm [m] (back ++ front)
        _ = enclosed (back ++ front) := enclosed_concat_of_isBetween last first between
        _ = enclosed (front ++ back) := enclosed_append_comm back front
    refine area_congr ?_ large (congrArg _ same)
    rw [List.length_append] at large ⊢
    rw [List.length_cons]
    omega
  · exact area_congr (by rwa [List.length_map]) large (congrArg _ (enclosed_shift north east vs))
  · intro s i j convex hij hj hji
    exact convex.area_cut hij hj hji

/-- A quadrilateral whose vertices turn right, with one corner at the origin: listed from its third
vertex on, backwards, closed, and with a point in the middle of its last edge; shifted; and cut
along a diagonal. -/
theorem quadrilateral_keeps_area :
    let g : Polygon ℚ := ⟨[⟨0, 0⟩, ⟨4, 1⟩, ⟨5, 5⟩, ⟨0, 4⟩]⟩
    3 ≤ g.size ∧ (Polygon.mk (g.points.rotate 2)).area = g.area ∧
      (Polygon.mk g.points.reverse).area = g.area ∧
      (Polygon.mk (g.points ++ g.points.take 1)).area = g.area ∧
      (Polygon.mk (g.points ++ [⟨0, 2⟩])).area = g.area ∧
      (Polygon.mk (g.points.map fun p => ⟨p.lat + -7, p.lng + 3⟩)).area = g.area ∧
      g.IsConvex .right ∧ g.area = (g.piece 1 3).area + (g.rest 1 3).area := by
  intro g
  have large : 3 ≤ g.size := by decide
  have convex : g.IsConvex .right := ⟨large, by decide +kernel⟩
  obtain ⟨-, turned, reversed, closed, parted, shifted, cut⟩ := area_of_figure g large
  have middle : IsBetween (⟨0, 4⟩ : Point ℚ) ⟨0, 0⟩ ⟨0, 2⟩ :=
    ⟨1 / 2, by norm_num, by norm_num, by norm_num, by norm_num⟩
  exact ⟨large, turned 2, reversed, closed, parted g.points [] _ _ _ (by simp) rfl rfl middle,
    shifted (-7) 3, convex, (cut .right 1 3 convex (by decide) (by decide) (by decide)).2.2⟩

end Polygon

end GeoDispatch
