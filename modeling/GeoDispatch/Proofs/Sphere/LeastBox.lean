import GeoDispatch.Proofs.Number.Rational
import GeoDispatch.Sphere.BoundingBox

/-! # The least box around points

A box includes the box around a list of points exactly when it contains all of these points
(`BoundingBox.includes_iff_of_ofPoints`).  So the box around the points contains them itself, it
lies in every box that does, and lists of the same points have the same box.
-/

namespace GeoDispatch

namespace BoundingBox

variable {b b' : BoundingBox ℚ} {p : Point ℚ} {ps : List (Point ℚ)}

theorem contains_eq_true_iff : b.contains p = true ↔
    (b.minLat ≤ p.lat ∧ p.lat ≤ b.maxLat) ∧ b.minLng ≤ p.lng ∧ p.lng ≤ b.maxLng := by
  simp only [contains, Bool.and_eq_true, decide_eq_true_eq, and_assoc]

/-- Whether the ranges of one box include those of another one. -/
structure Includes (b' b : BoundingBox ℚ) : Prop where
  minLat : b'.minLat ≤ b.minLat
  maxLat : b.maxLat ≤ b'.maxLat
  minLng : b'.minLng ≤ b.minLng
  maxLng : b.maxLng ≤ b'.maxLng

theorem Includes.refl (b : BoundingBox ℚ) : b.Includes b := ⟨le_rfl, le_rfl, le_rfl, le_rfl⟩

theorem Includes.antisymm (h : b'.Includes b) (h' : b.Includes b') : b = b' := by
  have minLat := le_antisymm h'.minLat h.minLat
  have maxLat := le_antisymm h.maxLat h'.maxLat
  have minLng := le_antisymm h'.minLng h.minLng
  have maxLng := le_antisymm h.maxLng h'.maxLng
  cases b
  cases b'
  cases minLat
  cases maxLat
  cases minLng
  cases maxLng
  rfl

theorem Includes.contains (h : b'.Includes b) (inside : b.contains p = true) :
    b'.contains p = true := by
  rw [contains_eq_true_iff] at inside ⊢
  obtain ⟨⟨south, north⟩, west, east⟩ := inside
  exact ⟨⟨h.minLat.trans south, north.trans h.maxLat⟩, h.minLng.trans west,
    east.trans h.maxLng⟩

theorem includes_ofPoint_iff : b'.Includes (ofPoint p) ↔ b'.contains p = true := by
  rw [contains_eq_true_iff]
  constructor
  · intro h
    exact ⟨⟨h.minLat, h.maxLat⟩, h.minLng, h.maxLng⟩
  · rintro ⟨⟨south, north⟩, west, east⟩
    exact ⟨south, north, west, east⟩

theorem minLat_extend : (b.extend p).minLat = min b.minLat p.lat := minNum_rat _ _

theorem maxLat_extend : (b.extend p).maxLat = max b.maxLat p.lat := maxNum_rat _ _

theorem minLng_extend : (b.extend p).minLng = min b.minLng p.lng := minNum_rat _ _

theorem maxLng_extend : (b.extend p).maxLng = max b.maxLng p.lng := maxNum_rat _ _

theorem includes_extend_iff :
    b'.Includes (b.extend p) ↔ b'.Includes b ∧ b'.contains p = true := by
  rw [contains_eq_true_iff]
  constructor
  · rintro ⟨minLat, maxLat, minLng, maxLng⟩
    rw [minLat_extend, le_min_iff] at minLat
    rw [maxLat_extend, max_le_iff] at maxLat
    rw [minLng_extend, le_min_iff] at minLng
    rw [maxLng_extend, max_le_iff] at maxLng
    exact ⟨⟨minLat.1, maxLat.1, minLng.1, maxLng.1⟩, ⟨minLat.2, maxLat.2⟩, minLng.2, maxLng.2⟩
  · rintro ⟨h, ⟨south, north⟩, west, east⟩
    constructor
    · exact minLat_extend.symm ▸ le_min h.minLat south
    · exact maxLat_extend.symm ▸ max_le h.maxLat north
    · exact minLng_extend.symm ▸ le_min h.minLng west
    · exact maxLng_extend.symm ▸ max_le h.maxLng east

theorem includes_foldl_extend_iff :
    b'.Includes (ps.foldl extend b) ↔ b'.Includes b ∧ ∀ p ∈ ps, b'.contains p = true := by
  induction ps generalizing b with
  | nil => exact ⟨fun h => ⟨h, fun _ hp => absurd hp List.not_mem_nil⟩, fun h => h.1⟩
  | cons p ps ih => rw [List.foldl_cons, ih, includes_extend_iff, List.forall_mem_cons, and_assoc]

/-- **The box around points**, by what includes it: the boxes that contain all of the points. -/
theorem includes_iff_of_ofPoints (h : ofPoints ps = some b) :
    b'.Includes b ↔ ∀ p ∈ ps, b'.contains p = true := by
  cases ps with
  | nil => cases h
  | cons p ps =>
    cases h
    rw [includes_foldl_extend_iff, includes_ofPoint_iff, List.forall_mem_cons]

theorem contains_of_ofPoints (h : ofPoints ps = some b) : ∀ p ∈ ps, b.contains p = true :=
  (includes_iff_of_ofPoints h).mp (Includes.refl b)

theorem exists_ofPoints (nonempty : ps ≠ []) : ∃ b, ofPoints ps = some b := by
  obtain ⟨p, ps, rfl⟩ := List.exists_cons_of_ne_nil nonempty
  exact ⟨_, rfl⟩

/-- The order and the repetition of points do not matter to the box around them. -/
theorem ofPoints_congr {ps' : List (Point ℚ)} (same : ∀ p, p ∈ ps' ↔ p ∈ ps) :
    ofPoints ps' = ofPoints ps := by
  cases ps with
  | nil => rw [List.eq_nil_iff_forall_not_mem.mpr fun p hp => List.not_mem_nil ((same p).mp hp)]
  | cons p ps =>
    obtain ⟨b, hb⟩ := exists_ofPoints (List.cons_ne_nil p ps)
    obtain ⟨b', hb'⟩ := exists_ofPoints (List.ne_nil_of_mem ((same p).mpr List.mem_cons_self))
    rw [hb, hb']
    congr 1
    refine Includes.antisymm ((includes_iff_of_ofPoints hb').mpr fun q hq => ?_)
      ((includes_iff_of_ofPoints hb).mpr fun q hq => ?_)
    · exact contains_of_ofPoints hb q ((same q).mp hq)
    · exact contains_of_ofPoints hb' q ((same q).mpr hq)

end BoundingBox

end GeoDispatch
