import GeoDispatch.Proofs.Geohash.Cells
import GeoDispatch.Proofs.Geohash.Text
import Mathlib.Data.Bool.Basic

/-!
# Encoding is an exact quantiser

The boxes of all hashes of one length tile the world once their upper edges are left to the
next box: `BoundingBox.Owns` gives a box its lower edges, and its upper ones only where the
world ends.  A halving hands a point that a box owns to exactly one half, the one that
`BoundingBox.isUpper` names (`owns_half`), so a bit string leads to a box that owns the point
exactly when the point's own descent spells it (`owns_refine_iff`).  Hence the box of a hash
owns a point, brought into the world, exactly when the hash is the point's
(`Geohash.owns_bounds_iff`).
-/

namespace GeoDispatch

/-! ## Bits of digits and digits of bits -/

namespace Digit32

theorem ofBits_testBit (d : Digit32) :
    ofBits (d.val.testBit 4) (d.val.testBit 3) (d.val.testBit 2) (d.val.testBit 1)
      (d.val.testBit 0) = d := by
  revert d
  decide

theorem bits_ofBits (a b c d e : Bool) : (ofBits a b c d e).bits = [a, b, c, d, e] := by
  revert a b c d e
  decide

end Digit32

namespace Geohash

theorem digitsOfBits_bits (h : Geohash) : digitsOfBits h.bits = h.digits := by
  obtain ⟨ds⟩ := h
  induction ds with
  | nil => rfl
  | cons d ds ih => exact congrArg₂ List.cons d.ofBits_testBit ih

/-- A bit string of five bits to the digit is that of the hash it spells. -/
theorem bits_digitsOfBits {n : Nat} {xs : List Bool} (h : xs.length = 5 * n) :
    bits ⟨digitsOfBits xs⟩ = xs ∧ (digitsOfBits xs).length = n := by
  induction n generalizing xs with
  | zero =>
    obtain rfl := List.length_eq_zero_iff.mp h
    exact ⟨rfl, rfl⟩
  | succ n ih =>
    match xs, h with
    | a :: b :: c :: d :: e :: rest, h =>
      have hrest : rest.length = 5 * n := by
        simp only [List.length_cons] at h
        omega
      obtain ⟨hbits, hlen⟩ := ih hrest
      have hdigit := Digit32.bits_ofBits a b c d e
      refine ⟨?_, congrArg (· + 1) hlen⟩
      change (Digit32.ofBits a b c d e).bits ++ bits ⟨digitsOfBits rest⟩ = _
      rw [hdigit, hbits]
      rfl

end Geohash

/-! ## Points of the world -/

namespace Point

/-- The coordinate of a point along an axis. -/
def along (p : Point ℚ) : Axis → ℚ
  | .lng => p.lng
  | .lat => p.lat

/-- The point brought into the world: latitudes beyond a pole become the pole, longitudes
beyond the antimeridian become the antimeridian. -/
def clamped (p : Point ℚ) : Point ℚ :=
  ⟨max (-90) (min p.lat 90), max (-180) (min p.lng 180)⟩

theorem along_clamped (p : Point ℚ) (a : Axis) :
    p.clamped.along a = max (-a.reach) (min (p.along a) a.reach) := by
  cases a <;> rfl

end Point

namespace BoundingBox

/-- Whether the range of a box along an axis owns a point: the lower end belongs to it, and
the upper end only where the world ends. -/
def OwnsAlong (b : BoundingBox ℚ) (p : Point ℚ) (a : Axis) : Prop :=
  b.low a ≤ p.along a ∧ (p.along a < b.high a ∨ p.along a = a.reach ∧ b.high a = a.reach)

/-- Whether a box owns a point: its lower edges belong to it, and its upper edges only at the
north pole and at the upper end of the longitudes. -/
def Owns (b : BoundingBox ℚ) (p : Point ℚ) : Prop := ∀ a, b.OwnsAlong p a

/-- A box within the world that is no mere line. -/
def IsProper (b : BoundingBox ℚ) : Prop :=
  ∀ a : Axis, -a.reach ≤ b.low a ∧ b.low a < b.high a ∧ b.high a ≤ a.reach

theorem isProper_world : (world : BoundingBox ℚ).IsProper := by
  intro a
  cases a <;> simp [low, high, world, Axis.reach]

theorem owns_world (p : Point ℚ) : (world : BoundingBox ℚ).Owns p.clamped := by
  intro a
  have hreach := Geohash.reach_pos a
  have hlow : (world : BoundingBox ℚ).low a = -a.reach := by
    cases a <;> simp [low, world, Axis.reach]
  have hhigh : (world : BoundingBox ℚ).high a = a.reach := by
    cases a <;> simp [high, world, Axis.reach]
  have hmost : p.clamped.along a ≤ a.reach := by
    rw [p.along_clamped]
    exact max_le (by linarith) (min_le_right _ _)
  refine ⟨?_, ?_⟩
  · rw [hlow, p.along_clamped]
    exact le_max_left _ _
  · rw [hhigh]
    exact hmost.lt_or_eq.imp_right fun heq => ⟨heq, rfl⟩

section

variable {b : BoundingBox ℚ} (h : b.IsProper)
include h

theorem IsProper.mid_bounds (a : Axis) : b.low a < b.mid a ∧ b.mid a < b.high a := by
  obtain ⟨-, hlt, -⟩ := h a
  rw [mid_eq]
  constructor <;> linarith

theorem IsProper.half (first : Axis) (upper : Bool) : (b.half first upper).IsProper := by
  intro a
  obtain ⟨hlow, hlt, hhigh⟩ := h a
  obtain ⟨hleft, hright⟩ := h.mid_bounds a
  rw [low_half, high_half]
  by_cases ha : a = first
  · cases upper with
    | false =>
      simp only [ha, Bool.false_eq_true, and_false, if_false, not_false_eq_true, and_self,
        if_true] at *
      exact ⟨hlow, hleft, by linarith⟩
    | true =>
      simp only [ha, and_self, if_true, not_true_eq_false, and_false, if_false] at *
      exact ⟨by linarith, hright, hhigh⟩
  · simp only [ha, false_and, if_false]
    exact ⟨hlow, hlt, hhigh⟩

theorem IsProper.refine (first : Axis) (xs : List Bool) : (b.refine first xs).IsProper := by
  induction xs generalizing b first with
  | nil => exact h
  | cons x xs ih => exact ih (h.half first x) first.other

/-- A point beyond the ends of the world takes the same side of a cut as the end does. -/
theorem IsProper.isUpper_iff (p : Point ℚ) (a : Axis) :
    b.isUpper p a ↔ b.mid a ≤ p.clamped.along a := by
  obtain ⟨hlow, -, hhigh⟩ := h a
  obtain ⟨hleft, hright⟩ := h.mid_bounds a
  have hcut : b.isUpper p a ↔ b.mid a ≤ p.along a := by
    cases a <;> exact decide_eq_true_iff
  rw [hcut, p.along_clamped, le_max_iff, le_min_iff]
  constructor
  · intro hle
    exact .inr ⟨hle, by linarith⟩
  · rintro (hle | ⟨hle, -⟩)
    · linarith
    · exact hle

/-- A halving hands a point to one half, to the upper one from the cut on. -/
theorem IsProper.owns_half (p : Point ℚ) (first : Axis) (upper : Bool) :
    (b.half first upper).Owns p.clamped ↔ b.Owns p.clamped ∧ upper = b.isUpper p first := by
  have hcut := h.isUpper_iff p first
  obtain ⟨-, -, hhigh⟩ := h first
  obtain ⟨hleft, hright⟩ := h.mid_bounds first
  -- only the range along the axis of the halving changes
  have hother : ∀ a, a ≠ first →
      ((b.half first upper).OwnsAlong p.clamped a ↔ b.OwnsAlong p.clamped a) := by
    intro a ha
    simp only [OwnsAlong, low_half, high_half, ha, false_and, if_false]
  have hfirst : (b.half first upper).OwnsAlong p.clamped first ↔
      b.OwnsAlong p.clamped first ∧ upper = b.isUpper p first := by
    cases upper with
    | true =>
      rw [eq_comm, hcut]
      simp only [OwnsAlong, low_half, high_half, true_and, if_true, not_true_eq_false,
        and_false, if_false]
      constructor
      · rintro ⟨hle, hend⟩
        exact ⟨⟨by linarith, hend⟩, hle⟩
      · rintro ⟨⟨-, hend⟩, hle⟩
        exact ⟨hle, hend⟩
    | false =>
      rw [eq_comm, ← Bool.not_eq_true, hcut, not_le]
      simp only [OwnsAlong, low_half, high_half, Bool.false_eq_true, and_false, if_false,
        not_false_eq_true, and_self, if_true]
      constructor
      · rintro ⟨hle, hlt | ⟨-, hend⟩⟩
        · exact ⟨⟨hle, .inl (by linarith)⟩, hlt⟩
        · linarith
      · rintro ⟨⟨hle, -⟩, hlt⟩
        exact ⟨hle, .inl hlt⟩
  constructor
  · intro hall
    refine ⟨fun a => ?_, (hfirst.mp (hall first)).2⟩
    by_cases ha : a = first
    · exact ha ▸ (hfirst.mp (hall first)).1
    · exact (hother a ha).mp (hall a)
  · rintro ⟨hall, hupper⟩ a
    by_cases ha : a = first
    · exact ha ▸ hfirst.mpr ⟨hall first, hupper⟩
    · exact (hother a ha).mpr (hall a)

/-- **The halvings that lead to a point are those of its own descent.** -/
theorem IsProper.owns_refine_iff (p : Point ℚ) (first : Axis) (xs : List Bool) :
    (b.refine first xs).Owns p.clamped ↔
      b.Owns p.clamped ∧ xs = b.descend p first xs.length := by
  induction xs generalizing b first with
  | nil => exact (and_iff_left rfl).symm
  | cons x xs ih =>
    rw [BoundingBox.refine, ih (h.half first x) first.other, h.owns_half]
    simp only [List.length_cons, descend, List.cons.injEq]
    constructor
    · rintro ⟨⟨hown, hx⟩, hxs⟩
      exact ⟨hown, hx, hx ▸ hxs⟩
    · rintro ⟨hown, hx, hxs⟩
      exact ⟨⟨hown, hx⟩, hx ▸ hxs⟩

end

theorem length_descend {α : Type} [Scalar α] (b : BoundingBox α) (p : Point α) (first : Axis)
    (n : Nat) : (b.descend p first n).length = n := by
  induction n generalizing b first with
  | zero => rfl
  | succ n ih => exact congrArg (· + 1) (ih _ first.other)

/-- A proper box owns its middle. -/
theorem IsProper.owns_center {b : BoundingBox ℚ} (h : b.IsProper) : b.Owns b.center.clamped := by
  intro a
  obtain ⟨hlow, -, hhigh⟩ := h a
  obtain ⟨hleft, hright⟩ := h.mid_bounds a
  have hcenter : b.center.along a = b.mid a := by cases a <;> rfl
  have hclamped : b.center.clamped.along a = b.mid a := by
    rw [Point.along_clamped, hcenter, min_eq_left (by linarith), max_eq_right (by linarith)]
  exact ⟨by linarith, .inl (by linarith)⟩

end BoundingBox

/-! ## Hashes of points -/

namespace Geohash

section

variable {α : Type} [Scalar α] (p : Point α) (n : Nat)

theorem bits_encode :
    (encode p n).bits = BoundingBox.world.descend p .lng (5 * clampPrecision n) :=
  (bits_digitsOfBits (BoundingBox.length_descend _ _ _ _)).1

theorem length_encode : (encode p n).length = clampPrecision n :=
  (bits_digitsOfBits (BoundingBox.length_descend _ _ _ _)).2

end

theorem isProper_bounds (h : Geohash) : (bounds ℚ h).IsProper :=
  BoundingBox.isProper_world.refine .lng h.bits

/-- **Of the hashes of one length, exactly that of a point has a box that owns the point.** -/
theorem owns_bounds_iff {h : Geohash} {n : Nat} (hlen : h.length = clampPrecision n)
    (p : Point ℚ) : (bounds ℚ h).Owns p.clamped ↔ h = encode p n := by
  rw [bounds, BoundingBox.isProper_world.owns_refine_iff,
    and_iff_right (BoundingBox.owns_world p), length_bits, hlen, ← bits_encode]
  constructor
  · intro hbits
    have hdigits := congrArg digitsOfBits hbits
    rw [digitsOfBits_bits, digitsOfBits_bits] at hdigits
    exact congrArg Geohash.mk hdigits
  · exact congrArg bits

/-- The box of a hash with an admissible number of digits has the hash at its middle. -/
theorem encode_center_bounds {h : Geohash} (hlen : h.length = clampPrecision h.length) :
    encode (bounds ℚ h).center h.length = h :=
  ((owns_bounds_iff hlen _).mp h.isProper_bounds.owns_center).symm

/-! ## Texts of hashes -/

theorem toLower_of_mem_alphabet {a : Char} (ha : a ∈ Digit32.alphabet) : a.toLower = a := by
  have hall : (Digit32.alphabet.all fun a => a.toLower == a) = true := by decide
  exact beq_iff_eq.mp (List.all_eq_true.mp hall a ha)

theorem map_letter_filterMap {as : List Char} (h : ∀ a ∈ as, a.toLower ∈ Digit32.alphabet) :
    (as.filterMap Digit32.ofChar?).map Digit32.letter = as.map Char.toLower := by
  induction as with
  | nil => rfl
  | cons a as ih =>
    have hsome := (Digit32.isSome_ofChar? a).mpr (h a List.mem_cons_self)
    obtain ⟨d, hd⟩ := Option.isSome_iff_exists.mp hsome
    rw [List.filterMap_cons_some hd, List.map_cons, List.map_cons,
      Digit32.letter_of_ofChar?_eq_some hd,
      ih fun b hb => h b (List.mem_cons_of_mem a hb)]

theorem toList_toLower (s : String) : s.toLower.toList = s.toList.map Char.toLower :=
  String.toList_map

/-- The hash that a text of letters spells is written as the text in small letters. -/
theorem text_digitsIn {s : String} (h : ∀ a ∈ s.toList, a.toLower ∈ Digit32.alphabet) :
    text ⟨digitsIn s⟩ = s.toLower := by
  rw [← String.toList_inj, text, String.toList_ofList, toList_toLower]
  exact map_letter_filterMap h

theorem toLower_eq_self {s : String} (h : ∀ a ∈ s.toList, a ∈ Digit32.alphabet) :
    s.toLower = s := by
  rw [← String.toList_inj, toList_toLower]
  exact (List.map_congr_left fun a ha => toLower_of_mem_alphabet (h a ha)).trans (List.map_id _)

theorem IsHashText.digitsIn_ne_nil {s : String} (h : IsHashText s) : digitsIn s ≠ [] := by
  intro hnil
  have hlen := (parse_eq_ok h).2
  rw [hnil, List.length_nil] at hlen
  exact absurd h.1 (by omega)

theorem isHashText_encode {α : Type} [Scalar α] (p : Point α) (n : Nat) :
    IsHashText (encode p n).text := by
  have hlen : (encode p n).text.length = max 1 (min n 12) :=
    (length_text _).trans (length_encode p n)
  refine ⟨by omega, by omega, fun a ha => ?_⟩
  have hletter := mem_alphabet_of_mem_text ha
  exact (toLower_of_mem_alphabet hletter).symm ▸ hletter

/-- **Encoding is an exact quantiser.**  For every point, in range or not, and every
precision, the text of the point's hash is the only text of the clamped number of small
letters whose box owns the point, brought into the world.  And every text of one to twelve
letters of the alphabet, in either case, is in small letters the hash of the middle of its own
box. -/
theorem encode_quantises :
    (∀ (p : Point ℚ) (n : Nat) (s : String),
      s = (encode p n).text ↔
        s.length = max 1 (min n 12) ∧ (∀ a ∈ s.toList, a ∈ Digit32.alphabet) ∧
          ∃ b, decodeBounds ℚ s = .ok b ∧ b.Owns p.clamped) ∧
    ∀ s : String, IsHashText s →
      ∃ q, decode ℚ s = .ok q ∧ (encode q s.length).text = s.toLower := by
  refine ⟨fun p n s => ?_, fun s hs => ?_⟩
  · constructor
    · rintro rfl
      refine ⟨(length_text _).trans (length_encode p n), fun a ha => mem_alphabet_of_mem_text ha,
        _, decodeBounds_eq_ok (isHashText_encode p n).digitsIn_ne_nil, ?_⟩
      rw [digitsIn_text]
      exact (owns_bounds_iff (length_encode p n) p).mpr rfl
    · rintro ⟨hlen, hletters, b, hb, hown⟩
      have hlower : ∀ a ∈ s.toList, a.toLower ∈ Digit32.alphabet := fun a ha =>
        (toLower_of_mem_alphabet (hletters a ha)).symm ▸ hletters a ha
      have hs : IsHashText s := ⟨by omega, by omega, hlower⟩
      rw [decodeBounds_eq_ok hs.digitsIn_ne_nil] at hb
      obtain rfl := Except.ok.inj hb
      have hlength : length ⟨digitsIn s⟩ = clampPrecision n := (parse_eq_ok hs).2.trans hlen
      rw [← (owns_bounds_iff hlength p).mp hown, text_digitsIn hlower, toLower_eq_self hletters]
  · have hlength : length ⟨digitsIn s⟩ = s.length := (parse_eq_ok hs).2
    have hclamp : length ⟨digitsIn s⟩ = clampPrecision (length ⟨digitsIn s⟩) := by
      obtain ⟨hpos, hmost, -⟩ := hs
      rw [hlength, clampPrecision, minPrecision, maxPrecision]
      omega
    have hdecode : decode ℚ s = .ok (bounds ℚ ⟨digitsIn s⟩).center := by
      rw [decode, decodeBounds_eq_ok hs.digitsIn_ne_nil]
      rfl
    refine ⟨_, hdecode, ?_⟩
    rw [← hlength, encode_center_bounds hclamp]
    exact text_digitsIn hs.2.2

end Geohash

end GeoDispatch
