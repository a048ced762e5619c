import GeoDispatch.Proofs.Geohash.Cells
import GeoDispatch.Proofs.Geohash.Text
import Mathlib.Tactic.LinearCombination

/-!
# Neighbours are the boxes next door

The tables of a step are the addition of one, with its carry, to a row or column written in
digits: the last digit moves to the next part of its range, and from the border the digits
before take the same step (`part_digit`, `part_digit_other`).  So a step adds or takes one
from the row or column along its axis, counted around the world, and leaves the other alone
(`place_step`, `place_step_other`).  A neighbour is one such step or two, and its box is the
box moved by its height and width (`BoundingBox.moved`).
-/

namespace GeoDispatch

/-! ## One step -/

namespace Cardinal

/-- The axis along which a direction leads. -/
def axis : Cardinal → Axis
  | north | south => .lat
  | east | west => .lng

/-- What a step adds to the row or column. -/
def sign : Cardinal → ℤ
  | north | east => 1
  | south | west => -1

/-- The axis of the first bit of the last digit of a hash of odd or even length. -/
def firstAxis (odd : Bool) : Axis := if odd then .lng else .lat

/-- The table moves the last digit by one part along the axis of a step, and from the border
to the other end of the range. -/
theorem part_digit (c : Cardinal) (odd : Bool) (d : Digit32) :
    ((c.digit odd d).part (firstAxis odd) c.axis : ℤ) =
      d.part (firstAxis odd) c.axis + c.sign -
        if (c.border odd).contains d then
          c.sign * Digit32.parts (firstAxis odd) c.axis
        else 0 := by
  revert d
  cases c <;> cases odd <;> decide +kernel

/-- The table keeps the part of the last digit along the other axis. -/
theorem part_digit_other (c : Cardinal) (odd : Bool) (d : Digit32) :
    (c.digit odd d).part (firstAxis odd) c.axis.other =
      d.part (firstAxis odd) c.axis.other := by
  revert d
  cases c <;> cases odd <;> decide +kernel

theorem length_stepReversed (c : Cardinal) (ds : List Digit32) :
    (c.stepReversed ds).length = ds.length := by
  induction ds with
  | nil => rfl
  | cons d before ih =>
    simp only [stepReversed, List.length_cons]
    split
    · rw [ih]
    · rfl

/-- The digits before the last one keep their number, whether or not they take the step. -/
theorem length_carry (c : Cardinal) (carry : Bool) (before : List Digit32) :
    (if carry then c.stepReversed before else before).length = before.length := by
  cases carry with
  | false => rfl
  | true => exact c.length_stepReversed before

end Cardinal

/-- The remainder of a number in two digits, of which the lower one is in range. -/
theorem mul_add_emod {m s q : ℤ} (hs : 0 < s) (hq : 0 ≤ q) (hqm : q < m) (b : ℤ) :
    (b * m + q) % (s * m) = b % s * m + q := by
  have hsplit : b * m + q = (b % s * m + q) + s * m * (b / s) := by
    linear_combination (-m) * Int.emod_add_mul_ediv b s
  have hlow : 0 ≤ b % s := Int.emod_nonneg b hs.ne'
  have hhigh : b % s + 1 ≤ s := Int.emod_lt_of_pos b hs
  rw [hsplit, Int.add_mul_emod_self_left]
  exact Int.emod_eq_of_lt (by nlinarith) (by nlinarith)

namespace Geohash

open GeoDispatch.Cardinal

theorem after_length_eq (ds : List Digit32) :
    Axis.after .lng ds.length = firstAxis (ds.length % 2 == 0) := by
  unfold Axis.after firstAxis
  rcases Nat.mod_two_eq_zero_or_one ds.length with h | h <;> simp [h, Axis.other]

/-- The row or column of a hash that is given by its digits from the last to the first. -/
theorem place_reverse_cons (d : Digit32) (before : List Digit32) (a : Axis) :
    place ⟨(d :: before).reverse⟩ a =
      place ⟨before.reverse⟩ a * Digit32.parts (firstAxis (before.length % 2 == 0)) a +
        d.part (firstAxis (before.length % 2 == 0)) a := by
  rw [List.reverse_cons, place_append_digit, List.length_reverse, after_length_eq]

theorem count_reverse_cons (d : Digit32) (before : List Digit32) (a : Axis) :
    count ⟨(d :: before).reverse⟩ a =
      count ⟨before.reverse⟩ a * Digit32.parts (firstAxis (before.length % 2 == 0)) a := by
  rw [List.reverse_cons, count_append_digit, List.length_reverse, after_length_eq]

/-- A step adds to the row or column along its axis, around the world. -/
theorem place_stepReversed (c : Cardinal) (ds : List Digit32) :
    (place ⟨(c.stepReversed ds).reverse⟩ c.axis : ℤ) =
      (place ⟨ds.reverse⟩ c.axis + c.sign) % count ⟨ds.reverse⟩ c.axis := by
  induction ds with
  | nil =>
    have hzero : place ⟨[]⟩ c.axis = 0 := by cases c <;> rfl
    have hone : count ⟨[]⟩ c.axis = 1 := by cases c <;> rfl
    simp [stepReversed, hzero, hone]
  | cons d before ih =>
    simp only [stepReversed]
    rw [place_reverse_cons, place_reverse_cons, count_reverse_cons]
    -- the digits before keep their number, so the parity is the same after the step
    rw [length_carry]
    generalize (before.length % 2 == 0) = odd
    have hpart := part_digit c odd d
    have hlt : ((c.digit odd d).part (firstAxis odd) c.axis : ℤ) <
        Digit32.parts (firstAxis odd) c.axis := by
      exact_mod_cast Digit32.part_lt _ _ _
    have hcount : (0 : ℤ) < count ⟨before.reverse⟩ c.axis := by
      exact_mod_cast count_pos _ _
    push_cast
    by_cases hborder : (c.border odd).contains d = true
    · rw [if_pos hborder] at hpart
      rw [if_pos hborder, ih, ← mul_add_emod hcount (Int.natCast_nonneg _) hlt, hpart]
      congr 1
      ring
    · rw [if_neg hborder] at hpart
      have hplace : (place ⟨before.reverse⟩ c.axis : ℤ) % count ⟨before.reverse⟩ c.axis =
          place ⟨before.reverse⟩ c.axis :=
        Int.emod_eq_of_lt (Int.natCast_nonneg _) (by exact_mod_cast place_lt_count _ _)
      have hstep := mul_add_emod hcount (Int.natCast_nonneg _) hlt
        (place ⟨before.reverse⟩ c.axis)
      rw [hplace] at hstep
      rw [if_neg hborder, ← hstep, hpart]
      congr 1
      ring

/-- A step leaves the row or column along the other axis alone. -/
theorem place_stepReversed_other (c : Cardinal) (ds : List Digit32) :
    place ⟨(c.stepReversed ds).reverse⟩ c.axis.other =
      place ⟨ds.reverse⟩ c.axis.other := by
  induction ds with
  | nil => rfl
  | cons d before ih =>
    simp only [stepReversed]
    rw [place_reverse_cons, place_reverse_cons, length_carry, part_digit_other]
    split
    · rw [ih]
    · rfl

theorem length_step (h : Geohash) (c : Cardinal) : (h.step c).length = h.length := by
  simp [step, length, length_stepReversed]

theorem place_step (h : Geohash) (c : Cardinal) :
    ((h.step c).place c.axis : ℤ) = (h.place c.axis + c.sign) % h.count c.axis := by
  have hstep := place_stepReversed c h.digits.reverse
  rwa [List.reverse_reverse] at hstep

theorem place_step_other (h : Geohash) (c : Cardinal) :
    (h.step c).place c.axis.other = h.place c.axis.other := by
  have hstep := place_stepReversed_other c h.digits.reverse
  rwa [List.reverse_reverse] at hstep

end Geohash

/-! ## Headings -/

namespace Compass

/-- One for a heading with a part to the north, minus one for one to the south. -/
def northing : Compass → ℤ
  | north | northEast | northWest => 1
  | south | southEast | southWest => -1
  | east | west => 0

/-- One for a heading with a part to the east, minus one for one to the west. -/
def easting : Compass → ℤ
  | east | northEast | southEast => 1
  | west | northWest | southWest => -1
  | north | south => 0

/-- The step along the meridian goes where the heading does. -/
theorem latStep?_eq_some {c : Compass} {m : Cardinal} (h : c.latStep? = some m) :
    m.axis = .lat ∧ m.sign = c.northing := by
  cases c <;> cases h <;> exact ⟨rfl, rfl⟩

theorem latStep?_eq_none {c : Compass} (h : c.latStep? = none) : c.northing = 0 := by
  cases c <;> first | rfl | contradiction

/-- The step along the parallel goes where the heading does. -/
theorem lngStep?_eq_some {c : Compass} {p : Cardinal} (h : c.lngStep? = some p) :
    p.axis = .lng ∧ p.sign = c.easting := by
  cases c <;> cases h <;> exact ⟨rfl, rfl⟩

theorem lngStep?_eq_none {c : Compass} (h : c.lngStep? = none) : c.easting = 0 := by
  cases c <;> first | rfl | contradiction

end Compass

/-- The box next to a box: moved by its own height to the north or the south, unless it
touches that pole, and by its own width to the east or the west, from one side of the
antimeridian to the other if need be. -/
def BoundingBox.moved (b : BoundingBox ℚ) (c : Compass) : BoundingBox ℚ :=
  let height := b.maxLat - b.minLat
  let width := b.maxLng - b.minLng
  let up : ℚ :=
    if c.northing = 1 ∧ b.maxLat = 90 ∨ c.northing = -1 ∧ b.minLat = -90 then 0
    else c.northing * height
  let right : ℚ :=
    if c.easting = 1 ∧ b.maxLng = 180 then width - 360
    else if c.easting = -1 ∧ b.minLng = -180 then 360 - width
    else c.easting * width
  ⟨b.minLat + up, b.maxLat + up, b.minLng + right, b.maxLng + right⟩

namespace Geohash

theorem atPole_north (h : Geohash) : h.atPole .north ↔ h.place .lat + 1 = h.count .lat := by
  rw [atPole, ← axisBits_lat, place, count, bitValue_add_one_eq_iff]

theorem atPole_south (h : Geohash) : h.atPole .south ↔ h.place .lat = 0 := by
  rw [atPole, ← axisBits_lat, place, bitValue_eq_zero_iff]

/-- The bits tell whether the box of a hash touches a pole. -/
theorem atPole_iff_bounds (h : Geohash) :
    (h.atPole .north ↔ 90 ≤ (bounds ℚ h).maxLat) ∧
      (h.atPole .south ↔ (bounds ℚ h).minLat ≤ -90) := by
  obtain ⟨hlow, hhigh⟩ := h.bounds_within .lat
  rw [atPole_north, atPole_south, ← h.high_eq_reach_iff .lat, ← h.low_eq_neg_reach_iff .lat]
  constructor
  · exact ⟨fun heq => heq.ge, fun hge => le_antisymm hhigh hge⟩
  · exact ⟨fun heq => heq.le, fun hle => le_antisymm hle hlow⟩

/-- The part of a neighbour's way along the meridian. -/
def meridianStep (h : Geohash) (c : Compass) : Geohash :=
  (c.latStep?.filter fun m => !h.atPole m).elim h h.step

theorem adjacent_eq (h : Geohash) (c : Compass) :
    h.adjacent c = c.lngStep?.elim (h.meridianStep c) (h.meridianStep c).step := rfl

/-- A step along the meridian leads over a pole from the last row northward and from the first
row southward. -/
theorem atPole_iff (h : Geohash) {m : Cardinal} (hm : m.axis = .lat) :
    h.atPole m ↔
      m.sign = 1 ∧ h.place .lat + 1 = h.count .lat ∨ m.sign = -1 ∧ h.place .lat = 0 := by
  cases m with
  | north => simp [atPole_north, Cardinal.sign]
  | south => simp [atPole_south, Cardinal.sign]
  | east => cases hm
  | west => cases hm

/-- The way along the meridian ends in the next row, or at once where there is none. -/
theorem place_meridianStep (h : Geohash) (c : Compass) :
    (h.meridianStep c).length = h.length ∧
      (h.meridianStep c).place .lng = h.place .lng ∧
      ((h.meridianStep c).place .lat : ℤ) = h.place .lat +
        if c.northing = 1 ∧ h.place .lat + 1 = h.count .lat ∨
          c.northing = -1 ∧ h.place .lat = 0 then 0 else c.northing := by
  unfold meridianStep
  cases hstep : c.latStep? with
  | none =>
    rw [Compass.latStep?_eq_none hstep]
    exact ⟨rfl, rfl, by simp⟩
  | some m =>
    obtain ⟨haxis, hsign⟩ := Compass.latStep?_eq_some hstep
    have pole_iff := h.atPole_iff haxis
    rw [hsign] at pole_iff
    by_cases hpole : h.atPole m = true
    · rw [Option.filter_some_neg (by simp [hpole]), if_pos (pole_iff.mp hpole)]
      exact ⟨rfl, rfl, (add_zero _).symm⟩
    · rw [pole_iff] at hpole
      rw [Option.filter_some_pos (by simpa [← pole_iff] using hpole), if_neg hpole]
      have hplace := h.place_step m
      have hother := h.place_step_other m
      rw [haxis, hsign] at hplace
      rw [haxis] at hother
      refine ⟨h.length_step m, hother, hplace.trans ?_⟩
      -- off the poles the next row is one of the rows, so that nothing wraps around
      have hlt : h.place .lat < h.count .lat := h.place_lt_count .lat
      have hunit : c.northing = 1 ∨ c.northing = -1 := by
        rw [← hsign]
        cases m <;> decide
      exact Int.emod_eq_of_lt (by omega) (by omega)

/-- The row of a neighbour is the next one, or the same where there is no next one, and its
column the next one around the world. -/
theorem place_adjacent (h : Geohash) (c : Compass) :
    (h.adjacent c).length = h.length ∧
      ((h.adjacent c).place .lat : ℤ) = h.place .lat +
        (if c.northing = 1 ∧ h.place .lat + 1 = h.count .lat ∨
          c.northing = -1 ∧ h.place .lat = 0 then 0 else c.northing) ∧
      ((h.adjacent c).place .lng : ℤ) = (h.place .lng + c.easting) % h.count .lng := by
  obtain ⟨hlen, hlng, hlat⟩ := h.place_meridianStep c
  rw [adjacent_eq]
  cases hstep : c.lngStep? with
  | none =>
    refine ⟨hlen, hlat, ?_⟩
    rw [Compass.lngStep?_eq_none hstep, Option.elim_none, hlng, add_zero]
    exact (Int.emod_eq_of_lt (Int.natCast_nonneg _)
      (by exact_mod_cast h.place_lt_count .lng)).symm
  | some p =>
    obtain ⟨haxis, hsign⟩ := Compass.lngStep?_eq_some hstep
    have hplace := (h.meridianStep c).place_step p
    have hother := (h.meridianStep c).place_step_other p
    rw [haxis] at hplace hother
    refine ⟨((h.meridianStep c).length_step p).trans hlen, ?_, ?_⟩
    · exact (congrArg Nat.cast hother).trans hlat
    · rw [← hsign, ← hlng, ← count_eq_of_length_eq hlen .lng]
      exact hplace

/-- The way along the parallel as a difference of columns: from the last column to the first
one and back it leads around the world. -/
theorem place_lng_adjacent_eq_add (h : Geohash) (c : Compass) :
    ((h.adjacent c).place .lng : ℤ) = h.place .lng +
      if c.easting = 1 ∧ h.place .lng + 1 = h.count .lng then 1 - (h.count .lng : ℤ)
      else if c.easting = -1 ∧ h.place .lng = 0 then (h.count .lng : ℤ) - 1
      else c.easting := by
  have hlt : h.place .lng < h.count .lng := h.place_lt_count .lng
  rw [(h.place_adjacent c).2.2]
  by_cases hlast : c.easting = 1 ∧ h.place .lng + 1 = h.count .lng
  · have hsum : (h.place .lng : ℤ) + c.easting = h.count .lng := by omega
    rw [if_pos hlast, hsum, Int.emod_self]
    omega
  · rw [if_neg hlast]
    by_cases hfirst : c.easting = -1 ∧ h.place .lng = 0
    · have hsum : (h.place .lng : ℤ) + c.easting = (h.count .lng - 1) + h.count .lng * (-1) := by
        rw [hfirst.1, hfirst.2]
        push_cast
        ring
      rw [if_pos hfirst, hsum, Int.add_mul_emod_self_left,
        Int.emod_eq_of_lt (by omega) (by omega), hfirst.2]
      push_cast
      ring
    · rw [if_neg hfirst]
      have hunit : c.easting = 1 ∨ c.easting = -1 ∨ c.easting = 0 := by cases c <;> decide
      exact Int.emod_eq_of_lt (by omega) (by omega)

/-- **The box of a neighbour is the box next door.** -/
theorem bounds_adjacent (h : Geohash) (c : Compass) :
    bounds ℚ (h.adjacent c) = (bounds ℚ h).moved c := by
  obtain ⟨hlen, hlat, -⟩ := h.place_adjacent c
  have hnorth : (bounds ℚ h).maxLat = 90 ↔ h.place .lat + 1 = h.count .lat :=
    h.high_eq_reach_iff .lat
  have hsouth : (bounds ℚ h).minLat = -90 ↔ h.place .lat = 0 := h.low_eq_neg_reach_iff .lat
  have heast : (bounds ℚ h).maxLng = 180 ↔ h.place .lng + 1 = h.count .lng :=
    h.high_eq_reach_iff .lng
  have hwest : (bounds ℚ h).minLng = -180 ↔ h.place .lng = 0 := h.low_eq_neg_reach_iff .lng
  have hcount : (h.count .lng : ℚ) ≠ 0 := by exact_mod_cast (h.count_pos .lng).ne'
  have hwidth : (h.count .lng : ℚ) * ((bounds ℚ h).maxLng - (bounds ℚ h).minLng) = 360 := by
    have hsize : (bounds ℚ h).maxLng - (bounds ℚ h).minLng = 2 * 180 / h.count .lng :=
      h.size_bounds .lng
    rw [hsize]
    field_simp
    norm_num
  obtain ⟨hlow, hhigh⟩ := bounds_of_place_eq_add hlen hlat
  obtain ⟨hleft, hright⟩ := bounds_of_place_eq_add hlen (h.place_lng_adjacent_eq_add c)
  simp only [BoundingBox.low, BoundingBox.high] at hlow hhigh hleft hright
  refine BoundingBox.ext_of_ends (fun a => ?_) fun a => ?_
  · cases a with
    | lat =>
      simp only [BoundingBox.low, BoundingBox.moved, hnorth, hsouth, hlow]
      split <;> simp
    | lng =>
      simp only [BoundingBox.low, BoundingBox.moved, heast, hwest, hleft]
      split
      · push_cast
        linear_combination -hwidth
      · split
        · push_cast
          linear_combination hwidth
        · rfl
  · cases a with
    | lat =>
      simp only [BoundingBox.high, BoundingBox.moved, hnorth, hsouth, hhigh]
      split <;> simp
    | lng =>
      simp only [BoundingBox.high, BoundingBox.moved, heast, hwest, hright]
      split
      · push_cast
        linear_combination -hwidth
      · split
        · push_cast
          linear_combination hwidth
        · rfl

/-- **The neighbour of a text.**  A text of one to twelve letters of the alphabet, in either
case, has a neighbour of the same length in small letters in each direction, and the box of
the neighbour is that of the text, moved by its height and width: across no pole, and around
the world at the antimeridian.  Every other text is an error that carries the text. -/
theorem neighbor_of_text (s : String) (c : Compass) :
    if IsHashText s then
      ∃ (t : String) (b : BoundingBox ℚ),
        (parse s).map (fun h => (h.adjacent c).text) = .ok t ∧
        t.length = s.length ∧ (∀ a ∈ t.toList, a ∈ Digit32.alphabet) ∧
        decodeBounds ℚ s = .ok b ∧ decodeBounds ℚ t = .ok (b.moved c)
    else (parse s).map (fun h => (h.adjacent c).text) = .error (.invalidGeohash s) := by
  split
  · rename_i hs
    obtain ⟨hparse, hlen⟩ := parse_eq_ok hs
    have hlength : (adjacent ⟨digitsIn s⟩ c).length = s.length :=
      (place_adjacent ⟨digitsIn s⟩ c).1.trans hlen
    have hpos : 0 < s.length := hs.1
    have hne : digitsIn s ≠ [] := fun hnil => by simp [hnil] at hlen; omega
    have hne' : digitsIn (adjacent ⟨digitsIn s⟩ c).text ≠ [] := fun hnil => by
      rw [digitsIn_text] at hnil
      simp [length, hnil] at hlength
      omega
    refine ⟨_, bounds ℚ ⟨digitsIn s⟩, by rw [hparse]; rfl, ?_, ?_, ?_, ?_⟩
    · rw [length_text, hlength]
    · exact fun a ha => mem_alphabet_of_mem_text ha
    · exact decodeBounds_eq_ok hne
    · rw [decodeBounds_eq_ok hne', digitsIn_text, ← bounds_adjacent]
  · rename_i hs
    rw [parse_eq_error hs]
    rfl

end Geohash

end GeoDispatch
