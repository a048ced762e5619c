import GeoDispatch.Proofs.Sphere.LeastBox
import GeoDispatch.Proofs.Zone.Segment
import Mathlib.Algebra.Order.BigOperators.Group.List
import Mathlib.Data.List.Rotate

/-! # Polygons and the convex sets around them

The closed path along the vertices of a polygon comes back to the side of a parallel on which it
started, so it passes through the parallel an even number of times
(`Polygon.foldl_edges_of_all_crossed`).  An odd number of crossings to the east of a point therefore
leaves one at the point or to the west of it (`Polygon.exists_edges_of_contains`), and the point
lies between the two.  So a polygon, however it crosses itself, contains only points of the convex
sets that hold its vertices (`Polygon.mem_of_contains`).  The box around the vertices is such a set
(`Polygon.box_holds_polygon`).
-/

namespace GeoDispatch

open Point

theorem BoundingBox.contains_of_isBetween {box : BoundingBox ℚ} {a b m : Point ℚ}
    (ha : box.contains a = true) (hb : box.contains b = true) (between : IsBetween a b m) :
    box.contains m = true := by
  rw [contains_eq_true_iff] at ha hb ⊢
  obtain ⟨⟨southA, northA⟩, westA, eastA⟩ := ha
  obtain ⟨⟨southB, northB⟩, westB, eastB⟩ := hb
  obtain ⟨south, north⟩ := between.lat_bounds
  obtain ⟨west, east⟩ := between.lng_bounds
  exact ⟨⟨(le_min southA southB).trans south, north.trans (max_le northA northB)⟩,
    (le_min westA westB).trans west, east.trans (max_le eastA eastB)⟩

namespace Polygon

variable {g : Polygon ℚ} {p : Point ℚ} {e : Point ℚ × Point ℚ}

/-! ## Edges -/

theorem edges_eq (g : Polygon ℚ) : g.edges = g.points.zip (g.points.rotate 1) := by
  obtain ⟨_ | ⟨v, vs⟩⟩ := g
  · rfl
  · rw [edges_cons, List.rotate_cons_succ, List.rotate_zero]

theorem map_fst_edges (g : Polygon ℚ) : g.edges.map Prod.fst = g.points := by
  rw [edges_eq, List.map_fst_zip (List.length_rotate _ _).ge]

theorem map_snd_edges (g : Polygon ℚ) : g.edges.map Prod.snd = g.points.rotate 1 := by
  rw [edges_eq, List.map_snd_zip (List.length_rotate _ _).le]

theorem fst_mem_of_mem_edges (he : e ∈ g.edges) : e.1 ∈ g.points :=
  map_fst_edges g ▸ List.mem_map_of_mem he

theorem snd_mem_of_mem_edges (he : e ∈ g.edges) : e.2 ∈ g.points :=
  List.mem_rotate.mp (map_snd_edges g ▸ List.mem_map_of_mem he)

/-- Edges that are not crossed leave a flag as it is. -/
theorem foldl_edges_of_none_crossed {es : List (Point ℚ × Point ℚ)} (inside : Bool)
    (none_crossed : ∀ e ∈ es, crosses p e.1 e.2 = false) :
    es.foldl (fun inside e => inside != crosses p e.1 e.2) inside = inside := by
  induction es generalizing inside with
  | nil => rfl
  | cons e es ih =>
    obtain ⟨first, others⟩ := List.forall_mem_cons.mp none_crossed
    rw [List.foldl_cons, ih _ others, first, Bool.bne_false]

/-- When a path is crossed wherever it passes through the parallel, it toggles a flag if its ends
lie on different sides of the parallel. -/
theorem foldl_edges_of_all_crossed {u w : Point ℚ} {vs : List (Point ℚ)} (inside : Bool)
    (all_crossed : ∀ e ∈ (u :: vs).zip (vs ++ [w]),
      crosses p e.1 e.2 = (isNorth p e.1 != isNorth p e.2)) :
    ((u :: vs).zip (vs ++ [w])).foldl (fun inside e => inside != crosses p e.1 e.2) inside =
      (inside != (isNorth p u != isNorth p w)) := by
  induction vs generalizing u inside with
  | nil =>
    show (inside != crosses p u w) = _
    rw [all_crossed (u, w) List.mem_cons_self]
  | cons v vs ih =>
    rw [List.cons_append, List.zip_cons_cons] at all_crossed ⊢
    obtain ⟨first, others⟩ := List.forall_mem_cons.mp all_crossed
    rw [List.foldl_cons, ih _ others, first]
    cases inside <;> cases isNorth p u <;> cases isNorth p v <;> cases isNorth p w <;> rfl

/-- A polygon that contains a point has an edge that meets the parallel to the east of it and one
that does not. -/
theorem exists_edges_of_contains (inside : g.contains p = true) :
    (∃ e ∈ g.edges, isNorth p e.1 ≠ isNorth p e.2 ∧ p.lng < meeting p e.1 e.2) ∧
      ∃ e ∈ g.edges, isNorth p e.1 ≠ isNorth p e.2 ∧ meeting p e.1 e.2 ≤ p.lng := by
  have odd := (Bool.and_eq_true_iff.mp inside).2
  constructor
  · by_contra none_east
    have none_crossed : ∀ e ∈ g.edges, crosses p e.1 e.2 = false := by
      intro e he
      rw [Bool.eq_false_iff]
      intro crossed
      exact none_east ⟨e, he, crosses_eq_true_iff.mp crossed⟩
    rw [foldl_edges_of_none_crossed false none_crossed] at odd
    cases odd
  · by_contra none_west
    have all_crossed : ∀ e ∈ g.edges, crosses p e.1 e.2 = (isNorth p e.1 != isNorth p e.2) := by
      intro e he
      rw [Bool.eq_iff_iff, crosses_eq_true_iff, bne_iff_ne]
      refine ⟨fun crossed => crossed.1, fun apart => ⟨apart, ?_⟩⟩
      by_contra west
      exact none_west ⟨e, he, apart, not_lt.mp west⟩
    obtain ⟨_ | ⟨v, vs⟩⟩ := g
    · cases odd
    · -- the path is closed: its ends lie on the same side
      rw [edges_cons] at odd all_crossed
      rw [foldl_edges_of_all_crossed false all_crossed, bne_self_eq_false] at odd
      cases odd

/-- **What a polygon contains lies in every convex set that holds its vertices.** -/
theorem mem_of_contains {S : Point ℚ → Prop}
    (convex : ∀ a b m, S a → S b → IsBetween a b m → S m) (vertices : ∀ v ∈ g.points, S v)
    (inside : g.contains p = true) : S p := by
  have on_edge : ∀ e ∈ g.edges, isNorth p e.1 ≠ isNorth p e.2 → S ⟨p.lat, meeting p e.1 e.2⟩ := by
    intro e he apart
    exact convex e.2 e.1 _ (vertices _ (snd_mem_of_mem_edges he))
      (vertices _ (fst_mem_of_mem_edges he)) (isBetween_meeting apart)
  obtain ⟨⟨e, he, apart, east⟩, ⟨e', he', apart', west⟩⟩ := exists_edges_of_contains inside
  exact convex _ _ p (on_edge e' he' apart') (on_edge e he apart)
    (isBetween_of_lat_eq rfl rfl west east)

/-! ## The box around the vertices -/

theorem foldl_add_eq (ps : List (Point ℚ)) (s : Point ℚ) :
    ps.foldl (fun s p => Point.mk (s.lat + p.lat) (s.lng + p.lng)) s =
      ⟨s.lat + (ps.map Point.lat).sum, s.lng + (ps.map Point.lng).sum⟩ := by
  induction ps generalizing s with
  | nil => simp
  | cons p ps ih =>
    rw [List.foldl_cons, ih, List.map_cons, List.map_cons, List.sum_cons, List.sum_cons,
      add_assoc, add_assoc]

theorem centroid_eq (nonempty : g.points ≠ []) :
    g.centroid = some ⟨(g.points.map Point.lat).sum / g.points.length,
      (g.points.map Point.lng).sum / g.points.length⟩ := by
  have occupied : ¬ g.points.isEmpty = true := by
    rwa [List.isEmpty_iff]
  rw [centroid, if_neg occupied, foldl_add_eq]
  simp only [num_rat, Nat.cast_zero, zero_add, size]

/-- The mean of numbers in a range lies in the range. -/
theorem mean_bounds {κ : Type} {ks : List κ} (nonempty : ks ≠ []) {f : κ → ℚ} {low high : ℚ}
    (within : ∀ k ∈ ks, low ≤ f k ∧ f k ≤ high) :
    low ≤ (ks.map f).sum / ks.length ∧ (ks.map f).sum / ks.length ≤ high := by
  have count : (0 : ℚ) < ks.length := Nat.cast_pos.mpr (List.length_pos_iff.mpr nonempty)
  have lower := List.card_nsmul_le_sum (ks.map f) low fun x hx => by
    obtain ⟨k, hk, rfl⟩ := List.mem_map.mp hx
    exact (within k hk).1
  have upper := List.sum_le_card_nsmul (ks.map f) high fun x hx => by
    obtain ⟨k, hk, rfl⟩ := List.mem_map.mp hx
    exact (within k hk).2
  rw [List.length_map, nsmul_eq_mul, mul_comm] at lower upper
  exact ⟨(le_div_iff₀ count).mpr lower, (div_le_iff₀' count).mpr (by rwa [mul_comm])⟩

theorem contains_centroid {box : BoundingBox ℚ} {c : Point ℚ} (hbox : g.boundingBox = some box)
    (hc : g.centroid = some c) : box.contains c = true := by
  have nonempty : g.points ≠ [] := by
    intro empty
    rw [boundingBox, empty] at hbox
    cases hbox
  rw [centroid_eq nonempty] at hc
  cases hc
  have inside := BoundingBox.contains_of_ofPoints hbox
  rw [BoundingBox.contains_eq_true_iff]
  exact ⟨mean_bounds nonempty fun v hv => (BoundingBox.contains_eq_true_iff.mp (inside v hv)).1,
    mean_bounds nonempty fun v hv => (BoundingBox.contains_eq_true_iff.mp (inside v hv)).2⟩

/-- **The box around a polygon.**  Every polygon that has vertices has a box.  The box contains the
vertices, it lies in every box that contains them, and it is the same for every polygon with the
same vertices in any order and repetition.  It contains the centroid and every point that the
polygon contains. -/
theorem box_holds_polygon (g : Polygon ℚ) :
    (g.points ≠ [] → ∃ box c, g.boundingBox = some box ∧ g.centroid = some c ∧
      (∀ v ∈ g.points, box.contains v = true) ∧
      (∀ box' : BoundingBox ℚ, (∀ v ∈ g.points, box'.contains v = true) →
        ∀ q, box.contains q = true → box'.contains q = true) ∧
      box.contains c = true) ∧
    (∀ g' : Polygon ℚ, (∀ v, v ∈ g'.points ↔ v ∈ g.points) → g'.boundingBox = g.boundingBox) ∧
    ∀ p, g.contains p = true → ∃ box, g.boundingBox = some box ∧ box.contains p = true := by
  refine ⟨?_, ?_, ?_⟩
  · intro nonempty
    obtain ⟨box, hbox⟩ := BoundingBox.exists_ofPoints nonempty
    refine ⟨box, _, hbox, centroid_eq nonempty, BoundingBox.contains_of_ofPoints hbox, ?_,
      contains_centroid hbox (centroid_eq nonempty)⟩
    intro box' around q hq
    exact ((BoundingBox.includes_iff_of_ofPoints hbox).mpr around).contains hq
  · intro g' same
    exact BoundingBox.ofPoints_congr same
  · intro p inside
    have nonempty : g.points ≠ [] := by
      intro empty
      obtain ⟨⟨e, he, -⟩, -⟩ := exists_edges_of_contains inside
      exact List.ne_nil_of_mem (fst_mem_of_mem_edges he) empty
    obtain ⟨box, hbox⟩ := BoundingBox.exists_ofPoints nonempty
    exact ⟨box, hbox, mem_of_contains (fun a b m => BoundingBox.contains_of_isBetween)
      (BoundingBox.contains_of_ofPoints hbox) inside⟩

/-- A polygon that crosses itself, another listing of its vertices, and a point inside it. -/
theorem box_holds_crossed_polygon :
    let crossed : Polygon ℚ := ⟨[⟨0, 0⟩, ⟨4, 4⟩, ⟨4, 0⟩, ⟨0, 4⟩]⟩
    let relisted : Polygon ℚ := ⟨[⟨0, 4⟩, ⟨4, 4⟩, ⟨0, 4⟩, ⟨0, 0⟩, ⟨4, 0⟩]⟩
    crossed.points ≠ [] ∧ (∃ box c, crossed.boundingBox = some box ∧ crossed.centroid = some c ∧
      box.contains c = true) ∧
      (∀ v, v ∈ relisted.points ↔ v ∈ crossed.points) ∧
      relisted.boundingBox = crossed.boundingBox ∧ crossed.contains ⟨3, 2⟩ = true ∧
      ∃ box, crossed.boundingBox = some box ∧ box.contains ⟨3, 2⟩ = true := by
  intro crossed relisted
  obtain ⟨least, listings, inner⟩ := box_holds_polygon crossed
  have occupied : crossed.points ≠ [] := List.cons_ne_nil _ _
  obtain ⟨box, c, hbox, hc, -, -, central⟩ := least occupied
  have same : ∀ v, v ∈ relisted.points ↔ v ∈ crossed.points := by
    intro v
    simp only [relisted, crossed, List.mem_cons, List.not_mem_nil, or_false]
    tauto
  have inside : crossed.contains ⟨3, 2⟩ = true := by decide +kernel
  exact ⟨occupied, ⟨box, c, hbox, hc, central⟩, same, listings relisted same, inside,
    inner ⟨3, 2⟩ inside⟩

end Polygon

end GeoDispatch
