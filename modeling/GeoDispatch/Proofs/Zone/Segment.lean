import GeoDispatch.Proofs.Zone.Crossing
import Mathlib.Algebra.Order.Field.Basic
import Mathlib.Tactic.Linarith

/-! # Points of a segment

A point of a segment is the mean of the ends with some weights (`Point.IsBetween`).  On a parallel
that passes between the ends of an edge the edge has one point (`Polygon.isBetween_meeting`), and
the ray along this parallel crosses the edge when it starts to the west of that point.  An edge with
a point set on it is crossed where one of the two parts is (`Polygon.crosses_of_isBetween`), because
on a parallel that passes between the ends of a part the part has the same point as the whole
(`Polygon.meeting_eq_of_isBetween`).
-/

namespace GeoDispatch

namespace Point

/-- Whether `m` lies on the segment from `a` to `b`, perhaps at an end. -/
def IsBetween (a b m : Point ℚ) : Prop :=
  ∃ t : ℚ, 0 ≤ t ∧ t ≤ 1 ∧ m.lat = a.lat + t * (b.lat - a.lat) ∧
    m.lng = a.lng + t * (b.lng - a.lng)

variable {a b m p : Point ℚ}

theorem isBetween_right (a b : Point ℚ) : IsBetween a b b :=
  ⟨1, zero_le_one, le_rfl, by ring, by ring⟩

theorem IsBetween.symm (h : IsBetween a b m) : IsBetween b a m := by
  obtain ⟨t, ht, ht', hlat, hlng⟩ := h
  refine ⟨1 - t, by linarith, by linarith, ?_, ?_⟩
  · rw [hlat]
    ring
  · rw [hlng]
    ring

theorem weighted_mean_bounds {t : ℚ} (ht : 0 ≤ t) (ht' : t ≤ 1) (x y : ℚ) :
    min x y ≤ x + t * (y - x) ∧ x + t * (y - x) ≤ max x y := by
  rcases le_total x y with h | h
  · rw [min_eq_left h, max_eq_right h]
    constructor <;> nlinarith
  · rw [min_eq_right h, max_eq_left h]
    constructor <;> nlinarith

theorem IsBetween.lat_bounds (h : IsBetween a b m) :
    min a.lat b.lat ≤ m.lat ∧ m.lat ≤ max a.lat b.lat := by
  obtain ⟨t, ht, ht', hlat, -⟩ := h
  rw [hlat]
  exact weighted_mean_bounds ht ht' a.lat b.lat

theorem IsBetween.lng_bounds (h : IsBetween a b m) :
    min a.lng b.lng ≤ m.lng ∧ m.lng ≤ max a.lng b.lng := by
  obtain ⟨t, ht, ht', -, hlng⟩ := h
  rw [hlng]
  exact weighted_mean_bounds ht ht' a.lng b.lng

/-- A point of a parallel lies between any two points of it to its west and to its east. -/
theorem isBetween_of_lat_eq (ha : a.lat = m.lat) (hb : b.lat = m.lat) (west : a.lng ≤ m.lng)
    (east : m.lng < b.lng) : IsBetween a b m := by
  have width : 0 < b.lng - a.lng := by linarith
  refine ⟨(m.lng - a.lng) / (b.lng - a.lng), div_nonneg (by linarith) width.le,
    (div_le_one width).mpr (by linarith), ?_, ?_⟩
  · rw [ha, hb]
    ring
  · rw [div_mul_cancel₀ _ width.ne']
    ring

end Point

namespace Polygon

open Point

variable {a b m p u v : Point ℚ}

/-- Whether a point lies north of `p`. -/
def isNorth (p u : Point ℚ) : Bool := decide (p.lat < u.lat)

/-- The longitude at which the line through `u` and `v` meets the parallel of `p`. -/
def meeting (p u v : Point ℚ) : ℚ :=
  (u.lng - v.lng) * (p.lat - v.lat) / (u.lat - v.lat) + v.lng

theorem isNorth_eq_true_iff : isNorth p u = true ↔ p.lat < u.lat := decide_eq_true_iff

theorem isNorth_eq_false_iff : isNorth p u = false ↔ u.lat ≤ p.lat :=
  decide_eq_false_iff_not.trans not_lt

/-- An edge is crossed when its ends lie on both sides of the parallel, which it meets in the
east. -/
theorem crosses_eq_true_iff :
    crosses p u v = true ↔ isNorth p u ≠ isNorth p v ∧ p.lng < meeting p u v := by
  have ends : (isNorth p v != isNorth p u) = true ↔ isNorth p u ≠ isNorth p v := by
    rw [bne_iff_ne, ne_comm]
  rw [← ends, ← decide_eq_true_iff (p := p.lng < meeting p u v), ← Bool.and_eq_true_iff]
  rfl

theorem crosses_of_isNorth_eq (level : isNorth p u = isNorth p v) : crosses p u v = false := by
  rw [Bool.eq_false_iff]
  intro crossed
  exact (crosses_eq_true_iff.mp crossed).1 level

theorem lat_ne_of_isNorth_ne (apart : isNorth p u ≠ isNorth p v) : u.lat ≠ v.lat := by
  intro level
  refine apart ?_
  rw [isNorth, isNorth, level]

/-- The point at which an edge meets a parallel between its ends is a point of the edge. -/
theorem isBetween_meeting (apart : isNorth p u ≠ isNorth p v) :
    IsBetween v u ⟨p.lat, meeting p u v⟩ := by
  have height : u.lat - v.lat ≠ 0 := sub_ne_zero.mpr (lat_ne_of_isNorth_ne apart)
  have within : 0 ≤ (p.lat - v.lat) / (u.lat - v.lat) ∧
      (p.lat - v.lat) / (u.lat - v.lat) ≤ 1 := by
    cases hu : isNorth p u with
    | true =>
      have hv : isNorth p v = false := by
        rw [hu] at apart
        exact Bool.eq_false_iff.mpr apart.symm
      rw [isNorth_eq_true_iff] at hu
      rw [isNorth_eq_false_iff] at hv
      have rise : 0 < u.lat - v.lat := by linarith
      exact ⟨div_nonneg (by linarith) rise.le, (div_le_one rise).mpr (by linarith)⟩
    | false =>
      have hv : isNorth p v = true := by
        rw [hu] at apart
        exact Bool.eq_true_of_not_eq_false apart.symm
      rw [isNorth_eq_false_iff] at hu
      rw [isNorth_eq_true_iff] at hv
      have fall : u.lat - v.lat < 0 := by linarith
      exact ⟨div_nonneg_of_nonpos (by linarith) fall.le,
        (div_le_one_of_neg fall).mpr (by linarith)⟩
  refine ⟨(p.lat - v.lat) / (u.lat - v.lat), within.1, within.2, ?_, ?_⟩
  · rw [div_mul_cancel₀ _ height]
    ring
  · rw [meeting]
    ring

/-! ## Setting a point on an edge -/

/-- What two ends of a segment have in common on one side of a parallel, its points have. -/
theorem isNorth_of_isBetween (between : IsBetween a b m) (level : isNorth p a = isNorth p b) :
    isNorth p m = isNorth p a := by
  obtain ⟨low, high⟩ := between.lat_bounds
  cases ha : isNorth p a with
  | true =>
    have hb := level ▸ ha
    rw [isNorth_eq_true_iff] at ha hb ⊢
    exact (lt_min ha hb).trans_le low
  | false =>
    have hb := level ▸ ha
    rw [isNorth_eq_false_iff] at ha hb ⊢
    exact high.trans (max_le ha hb)

/-- A part of an edge meets a parallel where the edge does. -/
theorem meeting_eq_of_isBetween (between : IsBetween a b m) (apart : m.lat ≠ b.lat) :
    meeting p m b = meeting p a b := by
  obtain ⟨t, -, -, hlat, hlng⟩ := between
  have part : m.lat - b.lat = (1 - t) * (a.lat - b.lat) := by
    rw [hlat]
    ring
  have part' : m.lng - b.lng = (1 - t) * (a.lng - b.lng) := by
    rw [hlng]
    ring
  have proper : 1 - t ≠ 0 := by
    intro whole
    rw [whole, zero_mul, sub_eq_zero] at part
    exact apart part
  rw [meeting, meeting, part, part', mul_assoc, mul_div_mul_left _ _ proper]

theorem crosses_of_isBetween_of_isNorth (between : IsBetween a b m)
    (level : isNorth p m = isNorth p a) : crosses p m b = crosses p a b := by
  by_cases apart : isNorth p a = isNorth p b
  · rw [crosses_of_isNorth_eq apart, crosses_of_isNorth_eq (level.trans apart)]
  · have same := meeting_eq_of_isBetween (p := p) between
      (lat_ne_of_isNorth_ne (p := p) (level ▸ apart))
    rw [Bool.eq_iff_iff, crosses_eq_true_iff, crosses_eq_true_iff, level, same]

/-- A point set on an edge parts it into two edges, of which just one is crossed if the edge was
crossed, and none otherwise. -/
theorem crosses_of_isBetween (between : IsBetween a b m) :
    (crosses p a m ^^ crosses p m b) = crosses p a b := by
  by_cases level : isNorth p m = isNorth p a
  · rw [crosses_of_isNorth_eq level.symm, Bool.false_xor]
    exact crosses_of_isBetween_of_isNorth between level
  · -- the point lies on the side of the other end, so the first part goes through the parallel
    have other : isNorth p m = isNorth p b := by
      have apart : isNorth p a ≠ isNorth p b := fun same =>
        level (isNorth_of_isBetween between same)
      revert level apart
      cases isNorth p m <;> cases isNorth p a <;> cases isNorth p b <;> decide
    rw [crosses_of_isNorth_eq other, Bool.xor_false, crosses_comm, crosses_comm p a b]
    exact crosses_of_isBetween_of_isNorth between.symm other

end Polygon

end GeoDispatch
