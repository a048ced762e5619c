import GeoDispatch.Proofs.Zone.Hull
import GeoDispatch.Proofs.Zone.Listing
import Mathlib.Data.Finset.Max
import Mathlib.Data.List.ProdSigma
import Mathlib.Data.List.Zip
import Mathlib.Tactic.LinearCombination

/-! # Convex polygons

A polygon is convex when all its vertices lie strictly on one side of every edge, the two ends of
the edge apart (`Polygon.IsConvex`).  Around a convex polygon that has its vertices on the left, a
parallel is passed northward at most once (`Polygon.TurnsLeft.rising_unique`), and exactly once when
it is the parallel of a point to the left of all edges, since such a point is neither north nor
south of all vertices (`Polygon.TurnsLeft.exists_rising`).  Of the edges that such a point has on
their left the ray from it crosses the one that rises (`Polygon.crosses_iff_rising`), so the point
is inside.  A point to the right of an edge is outside, because the left of the edge is a convex set
around the vertices.  A polygon with its vertices on the right is one with them on the left when its
vertices are listed backwards.
-/

namespace GeoDispatch

namespace Point

/-- Twice the area of the triangle with corners `u`, `v` and `w`, positive when `w` lies to the left
of the line from `u` to `v` and negative when it lies to the right. -/
def turn (u v w : Point ℚ) : ℚ :=
  (v.lng - u.lng) * (w.lat - u.lat) - (v.lat - u.lat) * (w.lng - u.lng)

variable {u v w m a b p : Point ℚ}

@[simp] theorem turn_first (u v : Point ℚ) : turn u v u = 0 := by
  rw [turn]
  ring

@[simp] theorem turn_second (u v : Point ℚ) : turn u v v = 0 := by
  rw [turn]
  ring

@[simp] theorem turn_self (u w : Point ℚ) : turn u u w = 0 := by
  rw [turn]
  ring

theorem turn_swap (u v w : Point ℚ) : turn v u w = -turn u v w := by
  rw [turn, turn]
  ring

/-- What lies to the right of a line lies to the left of the line back. -/
theorem turn_pos_iff : 0 < turn u v w ↔ turn v u w < 0 := by
  rw [turn_swap, neg_pos]

theorem turn_nonneg_of_isBetween (ha : 0 ≤ turn u v a) (hb : 0 ≤ turn u v b)
    (between : IsBetween a b m) : 0 ≤ turn u v m := by
  obtain ⟨t, ht, ht', hlat, hlng⟩ := between
  have mean : turn u v m = (1 - t) * turn u v a + t * turn u v b := by
    rw [turn, turn, turn, hlat, hlng]
    ring
  rw [mean]
  exact add_nonneg (mul_nonneg (by linarith) ha) (mul_nonneg ht hb)

end Point

open Point

/-- The hands of a line that goes from one point to another one: the sides on which a point can lie
off the line. -/
inductive Hand where
  | left | right

namespace Hand

/-- The hand across the line. -/
def other : Hand → Hand
  | left => right
  | right => left

/-- Whether `w` lies strictly on a side of the line from `u` to `v`. -/
def Holds (u v w : Point ℚ) : Hand → Prop
  | left => 0 < turn u v w
  | right => turn u v w < 0

instance (u v w : Point ℚ) : (s : Hand) → Decidable (s.Holds u v w)
  | left => inferInstanceAs (Decidable (0 < turn u v w))
  | right => inferInstanceAs (Decidable (turn u v w < 0))

variable {s : Hand} {u v w : Point ℚ}

/-- What lies strictly on a side of a line is no point of the line. -/
theorem Holds.turn_ne (h : s.Holds u v w) : turn u v w ≠ 0 := by
  cases s with
  | left => exact ne_of_gt h
  | right => exact ne_of_lt h

end Hand

namespace Polygon

/-- Whether the vertices turn to one side all around: every vertex lies strictly on this side of
every edge that it is not an end of.  Vertices and edges go by their numbers in the listing. -/
structure IsConvex (g : Polygon ℚ) (s : Hand) : Prop where
  large : 3 ≤ g.size
  turns : ∀ e ∈ g.edges.zipIdx, ∀ w ∈ g.points.zipIdx,
    w.2 ≠ e.2 → w.2 ≠ (e.2 + 1) % g.size → s.Holds e.1.1 e.1.2 w.1

/-- Whether the vertices are distinct and those off an edge lie strictly to its left. -/
structure TurnsLeft (g : Polygon ℚ) : Prop where
  nodup : g.points.Nodup
  left : ∀ e ∈ g.edges, ∀ w ∈ g.points, w = e.1 ∨ w = e.2 ∨ 0 < turn e.1 e.2 w

variable {g : Polygon ℚ} {p u v : Point ℚ} {e e' : Point ℚ × Point ℚ} {s : Hand}

/-! ## Numbers of edges -/

theorem getElem?_edges {i : ℕ} (h : g.edges[i]? = some e) :
    g.points[i]? = some e.1 ∧ g.points[(i + 1) % g.size]? = some e.2 := by
  rw [edges_eq, List.getElem?_zip_eq_some] at h
  obtain ⟨first, second⟩ := h
  have hi : i < g.points.length := (List.getElem?_eq_some_iff.mp first).1
  rw [List.getElem?_rotate hi] at second
  exact ⟨first, second⟩

theorem exists_getElem?_edges {i : ℕ} (hi : i < g.size) :
    ∃ e, g.edges[i]? = some e := by
  have count : g.edges.length = g.size := by
    rw [← List.length_map Prod.fst, map_fst_edges]
    rfl
  exact ⟨_, List.getElem?_eq_getElem (count ▸ hi)⟩

/-- What holds of one vertex and is carried along every edge holds of all vertices. -/
theorem forall_of_carried {P : Point ℚ → Prop} (carried : ∀ e ∈ g.edges, P e.1 → P e.2)
    (hv : v ∈ g.points) (holds : P v) : ∀ w ∈ g.points, P w := by
  obtain ⟨i, hi⟩ := List.mem_iff_getElem?.mp hv
  have small : i < g.size := (List.getElem?_eq_some_iff.mp hi).1
  have along (k : ℕ) : ∀ w, g.points[(i + k) % g.size]? = some w → P w := by
    induction k with
    | zero =>
      intro w hw
      rw [Nat.add_zero, Nat.mod_eq_of_lt small, hi] at hw
      exact Option.some.inj hw ▸ holds
    | succ k ih =>
      intro w hw
      obtain ⟨e, he⟩ := exists_getElem?_edges (Nat.mod_lt (i + k) (Nat.zero_lt_of_lt small))
      obtain ⟨first, second⟩ := getElem?_edges he
      rw [Nat.mod_add_mod, Nat.add_assoc, hw] at second
      rw [Option.some.inj second]
      exact carried e (List.mem_of_getElem? he) (ih e.1 first)
  intro w hw
  obtain ⟨j, hj⟩ := List.mem_iff_getElem?.mp hw
  have small' : j < g.size := (List.getElem?_eq_some_iff.mp hj).1
  have onward : (i + (g.size - i + j)) % g.size = j := by
    rw [← Nat.add_assoc, Nat.add_sub_cancel' small.le, Nat.add_mod_left, Nat.mod_eq_of_lt small']
  refine along (g.size - i + j) w ?_
  rw [onward, hj]

/-- A polygon with its vertices listed backwards, from the first one on. -/
def backwards (g : Polygon ℚ) : Polygon ℚ := ⟨(g.points.rotate 1).reverse⟩

theorem edges_backwards (g : Polygon ℚ) : g.backwards.edges = (g.edges.map Prod.swap).reverse := by
  obtain ⟨_ | ⟨v, vs⟩⟩ := g
  · rfl
  · have listed : (Polygon.mk (v :: vs)).backwards = ⟨v :: vs.reverse⟩ := by
      rw [backwards, List.rotate_cons_succ, List.rotate_zero, List.reverse_append,
        List.reverse_singleton, List.singleton_append]
    have count : (vs ++ [v]).length = (v :: vs).length := by
      rw [List.length_append, List.length_singleton, List.length_cons]
    rw [listed, edges_cons, edges_cons, List.zip_swap, List.zip_eq_zipWith, List.zip_eq_zipWith,
      List.reverse_zipWith count, List.reverse_append, List.reverse_singleton,
      List.singleton_append, List.reverse_cons]

theorem mem_edges_backwards : e ∈ g.backwards.edges ↔ e.swap ∈ g.edges := by
  rw [edges_backwards, List.mem_reverse]
  exact List.mem_map_swap e.2 e.1 g.edges

theorem contains_backwards (g : Polygon ℚ) (p : Point ℚ) :
    g.backwards.contains p = g.contains p := by
  rw [backwards, contains_reverse, contains_rotate]

/-! ## Convex polygons with their vertices on the left -/

theorem IsConvex.holds (h : g.IsConvex s) (he : e ∈ g.edges) {w : Point ℚ} (hw : w ∈ g.points) :
    w = e.1 ∨ w = e.2 ∨ s.Holds e.1 e.2 w := by
  obtain ⟨i, hi⟩ := List.mem_iff_getElem?.mp he
  obtain ⟨j, hj⟩ := List.mem_iff_getElem?.mp hw
  obtain ⟨first, second⟩ := getElem?_edges hi
  by_cases start : j = i
  · subst start
    exact .inl (Option.some.inj (hj.symm.trans first))
  by_cases goal : j = (i + 1) % g.size
  · subst goal
    exact .inr (.inl (Option.some.inj (hj.symm.trans second)))
  exact .inr (.inr (h.turns (e, i) (List.mem_zipIdx_iff_getElem?.mpr hi) (w, j)
    (List.mem_zipIdx_iff_getElem?.mpr hj) start goal))

theorem IsConvex.nodup (h : g.IsConvex s) : g.points.Nodup := by
  have large : 3 ≤ g.points.length := h.large
  rw [List.nodup_iff_getElem?_ne_getElem?]
  intro i j hij hj same
  obtain ⟨e, he⟩ := exists_getElem?_edges (hij.trans hj)
  obtain ⟨first, second⟩ := getElem?_edges he
  have turns {k : ℕ} {w : Point ℚ} (hw : g.points[k]? = some w) (start : k ≠ i)
      (goal : k ≠ (i + 1) % g.size) : turn e.1 e.2 w ≠ 0 :=
    (h.turns (e, i) (List.mem_zipIdx_iff_getElem?.mpr he) (w, k)
      (List.mem_zipIdx_iff_getElem?.mpr hw) start goal).turn_ne
  by_cases goal : j = (i + 1) % g.size
  · -- an edge without length has no side on which a third vertex could lie
    have empty : e.1 = e.2 := by
      rw [← goal, ← same, first] at second
      exact Option.some.inj second
    obtain ⟨k, hk, start, goal'⟩ : ∃ k, k < g.points.length ∧ k ≠ i ∧ k ≠ j := by
      by_cases zero : i = 0
      · exact ⟨if j = 1 then 2 else 1, by split <;> omega, by split <;> omega, by split <;> omega⟩
      · exact ⟨0, by omega, by omega, by omega⟩
    refine turns (List.getElem?_eq_getElem hk) start (goal ▸ goal') ?_
    rw [empty, turn_self]
  · refine turns (same.symm.trans first) (Nat.ne_of_gt hij) goal ?_
    exact turn_first _ _

theorem IsConvex.turnsLeft (h : g.IsConvex .left) : g.TurnsLeft :=
  ⟨h.nodup, fun _ he _ hw => h.holds he hw⟩

/-- Listed backwards, a polygon that has its vertices on the right has them on the left. -/
theorem IsConvex.turnsLeft_backwards (h : g.IsConvex .right) : g.backwards.TurnsLeft := by
  refine ⟨List.nodup_reverse.mpr (List.nodup_rotate.mpr h.nodup), ?_⟩
  intro e he w hw
  rcases h.holds (mem_edges_backwards.mp he) (List.mem_rotate.mp (List.mem_reverse.mp hw))
    with same | same | right
  · exact .inr (.inl same)
  · exact .inl same
  · exact .inr (.inr (turn_pos_iff.mpr right))

/-! ## Around a polygon with its vertices on the left -/

namespace TurnsLeft

theorem turn_nonneg (h : g.TurnsLeft) (he : e ∈ g.edges) {w : Point ℚ} (hw : w ∈ g.points) :
    0 ≤ turn e.1 e.2 w := by
  rcases h.left e he w hw with rfl | rfl | left
  · exact (turn_first _ _).ge
  · exact (turn_second _ _).ge
  · exact left.le

/-- The left of an edge holds all vertices, so nothing to the right of it is inside. -/
theorem contains_eq_false (h : g.TurnsLeft) (he : e ∈ g.edges) (right : turn e.1 e.2 p < 0) :
    g.contains p = false := by
  rw [Bool.eq_false_iff]
  intro inside
  refine not_le.mpr right ?_
  exact mem_of_contains (S := fun q => 0 ≤ turn e.1 e.2 q)
    (fun a b m => turn_nonneg_of_isBetween) (fun v hv => h.turn_nonneg he hv) inside

/-- A parallel is passed northward from one vertex only: where two edges pass it northward, neither
can meet it east of the other. -/
theorem rising_unique (h : g.TurnsLeft) (he : e ∈ g.edges) (he' : e' ∈ g.edges)
    (rising : isNorth p e.1 = false ∧ isNorth p e.2 = true)
    (rising' : isNorth p e'.1 = false ∧ isNorth p e'.2 = true) : e'.1 = e.1 := by
  have first := h.turn_nonneg he (fst_mem_of_mem_edges he')
  have second := h.turn_nonneg he (snd_mem_of_mem_edges he')
  have first' := h.turn_nonneg he' (fst_mem_of_mem_edges he)
  have second' := h.turn_nonneg he' (snd_mem_of_mem_edges he)
  simp only [isNorth_eq_false_iff, isNorth_eq_true_iff] at rising rising'
  obtain ⟨south, north⟩ := rising
  obtain ⟨south', north'⟩ := rising'
  have balance : (e'.2.lat - p.lat) * turn e.1 e.2 e'.1 + (p.lat - e'.1.lat) * turn e.1 e.2 e'.2 +
      ((e.2.lat - p.lat) * turn e'.1 e'.2 e.1 + (p.lat - e.1.lat) * turn e'.1 e'.2 e.2) = 0 := by
    simp only [turn]
    ring
  have on_line : turn e.1 e.2 e'.1 = 0 := by
    have term := mul_nonneg (sub_nonneg.mpr north'.le) first
    have term₂ := mul_nonneg (sub_nonneg.mpr south') second
    have term₃ := mul_nonneg (sub_nonneg.mpr north.le) first'
    have term₄ := mul_nonneg (sub_nonneg.mpr south) second'
    have zero : (e'.2.lat - p.lat) * turn e.1 e.2 e'.1 = 0 := by linarith
    exact (mul_eq_zero.mp zero).resolve_left (sub_pos.mpr north').ne'
  rcases h.left e he _ (fst_mem_of_mem_edges he') with same | same | left
  · exact same
  · -- the end of the one edge lies north of the parallel, the start of the other one does not
    rw [same] at south'
    exact absurd north (not_lt.mpr south')
  · exact absurd on_line left.ne'

end TurnsLeft

/-- On the left of an edge that passes its parallel, a point has the edge to its east just when the
edge passes northward. -/
theorem crosses_iff_rising (left : 0 < turn u v p) :
    crosses p u v = true ↔ isNorth p u = false ∧ isNorth p v = true := by
  rw [crosses_eq_true_iff]
  have width (apart : u.lat ≠ v.lat) :
      turn u v p = (v.lat - u.lat) * (meeting p u v - p.lng) := by
    have height : u.lat - v.lat ≠ 0 := sub_ne_zero.mpr apart
    rw [turn, meeting]
    field_simp
    ring
  constructor
  · rintro ⟨apart, east⟩
    rw [width (lat_ne_of_isNorth_ne apart)] at left
    have rise : u.lat < v.lat :=
      sub_pos.mp ((mul_pos_iff_of_pos_right (sub_pos.mpr east)).mp left)
    have south : isNorth p u = false := by
      rw [Bool.eq_false_iff]
      intro north
      have north' : isNorth p v = true := by
        rw [isNorth_eq_true_iff] at north ⊢
        exact north.trans rise
      exact apart (north.trans north'.symm)
    rw [south] at apart
    exact ⟨south, Bool.eq_true_of_not_eq_false apart.symm⟩
  · rintro ⟨south, north⟩
    have apart : isNorth p u ≠ isNorth p v := by
      rw [south, north]
      decide
    refine ⟨apart, ?_⟩
    rw [width (lat_ne_of_isNorth_ne apart)] at left
    rw [isNorth_eq_false_iff] at south
    rw [isNorth_eq_true_iff] at north
    have rise : 0 < v.lat - u.lat := by linarith
    exact sub_pos.mp ((mul_pos_iff_of_pos_left rise).mp left)

/-! ## Points to the left of all edges -/

theorem exists_edge_from (hv : v ∈ g.points) : ∃ w, (v, w) ∈ g.edges := by
  rw [← map_fst_edges g] at hv
  obtain ⟨⟨u, w⟩, he, rfl⟩ := List.mem_map.mp hv
  exact ⟨w, he⟩

theorem exists_edge_to (hv : v ∈ g.points) : ∃ u, (u, v) ∈ g.edges := by
  rw [← List.mem_rotate, ← map_snd_edges g] at hv
  obtain ⟨⟨u, w⟩, he, rfl⟩ := List.mem_map.mp hv
  exact ⟨u, he⟩

namespace TurnsLeft

/-- Seen from a corner, a point to the left of all edges lies between the vertices before and after
the corner. -/
theorem exists_corner (h : g.TurnsLeft) (inner : ∀ e ∈ g.edges, 0 < turn e.1 e.2 p) {m : Point ℚ}
    (hm : m ∈ g.points) : ∃ u ∈ g.points, ∃ w ∈ g.points, 0 < turn u m w ∧ 0 < turn u m p ∧
      0 < turn m w p ∧ turn u m w * (p.lat - m.lat) =
        turn m w p * (u.lat - m.lat) + turn u m p * (w.lat - m.lat) := by
  obtain ⟨u, incoming⟩ := exists_edge_to hm
  obtain ⟨w, outgoing⟩ := exists_edge_from hm
  have hu : 0 < turn u m p := inner (u, m) incoming
  have hw : 0 < turn m w p := inner (m, w) outgoing
  have corner : 0 < turn u m w := by
    rcases h.left (u, m) incoming w (snd_mem_of_mem_edges outgoing) with rfl | rfl | left
    · -- the edge would go back along the one before it
      rw [turn_swap] at hw
      linarith
    · rw [turn_self] at hw
      exact absurd hw (lt_irrefl 0)
    · exact left
  refine ⟨u, fst_mem_of_mem_edges incoming, w, snd_mem_of_mem_edges outgoing, corner, hu, hw, ?_⟩
  simp only [turn]
  ring

/-- Some vertex lies farther to the north (`σ = 1`), and some farther to the south (`σ = -1`), than
a point to the left of all edges: the farthest one, because its corner has a turn. -/
theorem exists_beyond (h : g.TurnsLeft) (inner : ∀ e ∈ g.edges, 0 < turn e.1 e.2 p)
    (nonempty : g.points ≠ []) {σ : ℚ} (proper : σ ≠ 0) :
    ∃ m ∈ g.points, 0 < σ * (m.lat - p.lat) := by
  obtain ⟨m, hm, farthest⟩ := g.points.toFinset.exists_max_image (fun v => σ * v.lat)
    ((List.toFinset_nonempty_iff _).mpr nonempty)
  rw [List.mem_toFinset] at hm
  refine ⟨m, hm, ?_⟩
  obtain ⟨u, hu, w, hw, corner, left, left', mean⟩ := h.exists_corner inner hm
  have before : σ * (u.lat - m.lat) ≤ 0 := by
    rw [mul_sub]
    exact sub_nonpos.mpr (farthest u (List.mem_toFinset.mpr hu))
  have behind : σ * (w.lat - m.lat) ≤ 0 := by
    rw [mul_sub]
    exact sub_nonpos.mpr (farthest w (List.mem_toFinset.mpr hw))
  have term := mul_nonpos_of_nonneg_of_nonpos left'.le before
  have term' := mul_nonpos_of_nonneg_of_nonpos left.le behind
  have balance : turn u m w * (σ * (m.lat - p.lat)) +
      (turn m w p * (σ * (u.lat - m.lat)) + turn u m p * (σ * (w.lat - m.lat))) = 0 := by
    linear_combination -σ * mean
  by_contra beyond
  -- the vertices before and after the corner would be level with it, and there would be no corner
  have short := mul_nonpos_of_nonneg_of_nonpos corner.le (not_lt.mp beyond)
  have level (d t : ℚ) (ht : t ≠ 0) (hd : t * (σ * d) = 0) : d = 0 :=
    (mul_eq_zero.mp ((mul_eq_zero.mp hd).resolve_left ht)).resolve_left proper
  have hu' : u.lat - m.lat = 0 := level _ _ left'.ne' (by linarith)
  have hw' : w.lat - m.lat = 0 := level _ _ left.ne' (by linarith)
  have straight : turn u m w = 0 := by
    rw [turn, sub_eq_zero.mp hu', sub_eq_zero.mp hw']
    ring
  exact corner.ne' straight

/-- The parallel of a point to the left of all edges is passed northward. -/
theorem exists_rising (h : g.TurnsLeft) (inner : ∀ e ∈ g.edges, 0 < turn e.1 e.2 p)
    (nonempty : g.points ≠ []) : ∃ e ∈ g.edges, isNorth p e.1 = false ∧ isNorth p e.2 = true := by
  obtain ⟨u, hu, south⟩ : ∃ m ∈ g.points, isNorth p m = false := by
    obtain ⟨m, hm, beyond⟩ := h.exists_beyond inner nonempty (neg_ne_zero.mpr one_ne_zero)
    exact ⟨m, hm, isNorth_eq_false_iff.mpr (by linarith)⟩
  obtain ⟨v, hv, north⟩ : ∃ m ∈ g.points, isNorth p m = true := by
    obtain ⟨m, hm, beyond⟩ := h.exists_beyond inner nonempty one_ne_zero
    exact ⟨m, hm, isNorth_eq_true_iff.mpr (by linarith)⟩
  by_contra none_rising
  have stays : ∀ e ∈ g.edges, isNorth p e.1 = false → isNorth p e.2 = false := by
    intro e he south
    rw [Bool.eq_false_iff]
    intro north
    exact none_rising ⟨e, he, south, north⟩
  have south' : isNorth p v = false :=
    forall_of_carried (P := fun q => isNorth p q = false) stays hu south v hv
  rw [south'] at north
  cases north

/-- The ray from a point to the left of all edges crosses just one of them. -/
theorem contains_eq_true (h : g.TurnsLeft) (large : 3 ≤ g.size)
    (inner : ∀ e ∈ g.edges, 0 < turn e.1 e.2 p) : g.contains p = true := by
  have nonempty : g.points ≠ [] := List.ne_nil_of_length_pos (Nat.zero_lt_of_lt large)
  obtain ⟨e, he, rising⟩ := h.exists_rising inner nonempty
  obtain ⟨before, after, parts⟩ := List.append_of_mem he
  have starts : (g.edges.map Prod.fst).Nodup := (map_fst_edges g).symm ▸ h.nodup
  rw [parts, List.map_append, List.map_cons, List.nodup_middle, List.nodup_cons,
    ← List.map_append] at starts
  have others : ∀ e' ∈ before ++ after, crosses p e'.1 e'.2 = false := by
    intro e' he'
    have edge : e' ∈ g.edges := by
      rw [parts]
      exact List.perm_middle.mem_iff.mpr (List.mem_cons_of_mem e he')
    rw [Bool.eq_false_iff]
    intro crossed
    have same := h.rising_unique he edge rising ((crosses_iff_rising (inner e' edge)).mp crossed)
    exact starts.1 (same ▸ List.mem_map_of_mem he')
  obtain ⟨others_before, others_after⟩ := List.forall_mem_append.mp others
  rw [contains, decide_eq_true large, Bool.true_and, parts, List.foldl_append,
    foldl_edges_of_none_crossed false others_before, List.foldl_cons,
    foldl_edges_of_none_crossed _ others_after, (crosses_iff_rising (inner e he)).mpr rising]
  rfl

end TurnsLeft

/-- **Convex polygons contain what lies inside all edges.**  Let the vertices of a polygon turn to
one side all around.  The polygon contains every point that lies strictly on this side of every
edge, and no point that lies strictly on the other side of some edge; the parallel of the point may
pass through vertices and along edges. -/
theorem convex_contains (g : Polygon ℚ) (s : Hand) (convex : g.IsConvex s) (p : Point ℚ) :
    ((∀ e ∈ g.edges, s.Holds e.1 e.2 p) → g.contains p = true) ∧
      ((∃ e ∈ g.edges, s.other.Holds e.1 e.2 p) → g.contains p = false) := by
  cases s with
  | left =>
    constructor
    · intro inner
      exact convex.turnsLeft.contains_eq_true convex.large inner
    · rintro ⟨e, he, right⟩
      exact convex.turnsLeft.contains_eq_false he right
  | right =>
    have large : 3 ≤ g.backwards.size := by
      rw [size, backwards, List.length_reverse, List.length_rotate]
      exact convex.large
    rw [← contains_backwards]
    constructor
    · intro inner
      refine convex.turnsLeft_backwards.contains_eq_true large ?_
      intro e he
      exact turn_pos_iff.mpr (inner e.swap (mem_edges_backwards.mp he))
    · rintro ⟨e, he, left⟩
      have he' : e.swap ∈ g.backwards.edges := mem_edges_backwards.mpr (e.swap_swap.symm ▸ he)
      exact convex.turnsLeft_backwards.contains_eq_false he' (turn_pos_iff.mp left)

/-- A hexagon whose vertices turn right, with two edges along parallels, a point inside it on the
parallel of two vertices, and a point outside on the parallel of an edge. -/
theorem hexagon_contains_inner_point :
    let hexagon : Polygon ℚ := ⟨[⟨0, 1⟩, ⟨2, 0⟩, ⟨4, 1⟩, ⟨4, 5⟩, ⟨2, 7⟩, ⟨0, 6⟩]⟩
    hexagon.IsConvex .right ∧
      (∀ e ∈ hexagon.edges, Hand.right.Holds e.1 e.2 ⟨2, 3⟩) ∧
      hexagon.contains ⟨2, 3⟩ = true ∧
      (∃ e ∈ hexagon.edges, Hand.left.Holds e.1 e.2 ⟨0, 0⟩) ∧
      hexagon.contains ⟨0, 0⟩ = false := by
  intro hexagon
  have convex : hexagon.IsConvex .right := ⟨by decide, by decide +kernel⟩
  have inner : ∀ e ∈ hexagon.edges, Hand.right.Holds e.1 e.2 ⟨2, 3⟩ := by decide +kernel
  have outer : ∃ e ∈ hexagon.edges, Hand.left.Holds e.1 e.2 ⟨0, 0⟩ := by decide +kernel
  exact ⟨convex, inner, (convex_contains hexagon .right convex ⟨2, 3⟩).1 inner, outer,
    (convex_contains hexagon .right convex ⟨0, 0⟩).2 outer⟩

end Polygon

end GeoDispatch
