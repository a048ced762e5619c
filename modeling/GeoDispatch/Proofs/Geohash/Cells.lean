import GeoDispatch.Geohash.Codec
import GeoDispatch.Proofs.Number.Rational
import Mathlib.Algebra.Order.Field.Basic
import Mathlib.Tactic.FieldSimp
import Mathlib.Tactic.Linarith
import Mathlib.Tactic.Ring

/-!
# Rows and columns of hashes

The bits of a hash that halve latitudes spell its row, and those that halve longitudes its
column, in binary, coarsest bit first.  `Geohash.place h a` is the row or column along the
axis `a`, out of `Geohash.count h a` of them, and the box of a hash is the box in that row
and column of a grid of equal boxes over the world (`low_bounds`, `high_bounds`).

A digit more multiplies the counts by eight and by four, in turn, and shifts the digit's share
of the bits into the row and into the column (`place_append_digit`).
-/

namespace GeoDispatch

/-- The number that a bit string spells, the highest bit first. -/
def bitValue : List Bool → Nat
  | [] => 0
  | b :: bits => b.toNat * 2 ^ bits.length + bitValue bits

theorem bitValue_append (xs ys : List Bool) :
    bitValue (xs ++ ys) = bitValue xs * 2 ^ ys.length + bitValue ys := by
  induction xs with
  | nil => simp [bitValue]
  | cons b xs ih =>
    simp only [List.cons_append, bitValue, ih, List.length_append, Nat.pow_add]
    ring

theorem bitValue_lt (xs : List Bool) : bitValue xs < 2 ^ xs.length := by
  induction xs with
  | nil => simp [bitValue]
  | cons b xs ih =>
    have hb : b.toNat ≤ 1 := Bool.toNat_le b
    simp only [bitValue, List.length_cons, Nat.pow_succ]
    nlinarith

/-- A bit string spells the greatest number of its length when every bit is set. -/
theorem bitValue_add_one_eq_iff (xs : List Bool) :
    bitValue xs + 1 = 2 ^ xs.length ↔ xs.all (· == true) := by
  induction xs with
  | nil => simp [bitValue]
  | cons b xs ih =>
    have hlt := bitValue_lt xs
    rw [List.all_cons, Bool.and_eq_true, ← ih, bitValue, List.length_cons, Nat.pow_succ]
    cases b with
    | false => exact iff_of_false (by simp only [Bool.toNat_false]; omega) (by simp)
    | true =>
      simp only [Bool.toNat_true, beq_self_eq_true, true_and]
      omega

/-- A bit string spells zero when no bit is set. -/
theorem bitValue_eq_zero_iff (xs : List Bool) :
    bitValue xs = 0 ↔ xs.all (· == false) := by
  induction xs with
  | nil => simp [bitValue]
  | cons b xs ih =>
    have hpos : 0 < 2 ^ xs.length := Nat.two_pow_pos _
    rw [List.all_cons, Bool.and_eq_true, ← ih, bitValue]
    cases b with
    | false => simp
    | true => exact iff_of_false (by simp only [Bool.toNat_true]; omega) (by simp)

/-! ## The bits along an axis -/

namespace Axis

@[simp] theorem other_other (a : Axis) : a.other.other = a := by cases a <;> rfl

theorem other_ne (a : Axis) : a.other ≠ a := by cases a <;> decide

theorem eq_other_of_ne {a b : Axis} (h : a ≠ b) : a = b.other := by
  cases a <;> cases b <;> first | rfl | contradiction

/-- The bits of a string that halve along an axis, when the first one halves along
`first`. -/
def bits (first a : Axis) (xs : List Bool) : List Bool :=
  if a = first then (Geohash.alternate xs).1 else (Geohash.alternate xs).2

@[simp] theorem bits_nil (first a : Axis) : bits first a [] = [] := by
  simp [bits, Geohash.alternate]

theorem bits_cons (first a : Axis) (x : Bool) (xs : List Bool) :
    bits first a (x :: xs) =
      if a = first then x :: bits first.other a xs else bits first.other a xs := by
  unfold bits
  simp only [Geohash.alternate]
  by_cases h : a = first
  · have hne : a ≠ first.other := fun he => other_ne first (he.symm.trans h)
    rw [if_pos h, if_pos h, if_neg hne]
  · rw [if_neg h, if_neg h, if_pos (eq_other_of_ne h)]

/-- Every other halving is along the axis, and the first one if it is the first axis. -/
theorem length_bits (first a : Axis) (xs : List Bool) :
    (bits first a xs).length =
      if a = first then (xs.length + 1) / 2 else xs.length / 2 := by
  induction xs generalizing first with
  | nil => simp
  | cons x xs ih =>
    rw [bits_cons]
    by_cases h : a = first
    · have hne : a ≠ first.other := fun he => other_ne first (he.symm.trans h)
      rw [if_pos h, if_pos h, List.length_cons, ih, if_neg hne, List.length_cons]
      omega
    · rw [if_neg h, if_neg h, ih, if_pos (eq_other_of_ne h), List.length_cons]

/-- The axis after so many halvings. -/
def after (first : Axis) (n : Nat) : Axis := if n % 2 = 0 then first else first.other

theorem after_succ (first : Axis) (n : Nat) : first.after (n + 1) = first.other.after n := by
  rcases Nat.mod_two_eq_zero_or_one n with h | h
  · simp [after, h, show (n + 1) % 2 = 1 by omega]
  · simp [after, h, show (n + 1) % 2 = 0 by omega]

theorem bits_append (first a : Axis) (xs ys : List Bool) :
    bits first a (xs ++ ys) = bits first a xs ++ bits (first.after xs.length) a ys := by
  induction xs generalizing first with
  | nil => simp [after]
  | cons x xs ih =>
    rw [List.cons_append, bits_cons, bits_cons, ih, List.length_cons, after_succ]
    split <;> rfl

end Axis

/-! ## The box named by a bit string -/

namespace BoundingBox

section

variable {α : Type}

/-- The lower end of the range of a box along an axis. -/
def low (b : BoundingBox α) : Axis → α
  | .lng => b.minLng
  | .lat => b.minLat

/-- The upper end of the range of a box along an axis. -/
def high (b : BoundingBox α) : Axis → α
  | .lng => b.maxLng
  | .lat => b.maxLat

/-- Boxes with the same ends along both axes are the same. -/
theorem ext_of_ends {b c : BoundingBox α} (hlow : ∀ a, b.low a = c.low a)
    (hhigh : ∀ a, b.high a = c.high a) : b = c := by
  have h₁ := hlow .lat
  have h₂ := hhigh .lat
  have h₃ := hlow .lng
  have h₄ := hhigh .lng
  cases b
  cases c
  simp only [low, high] at h₁ h₂ h₃ h₄
  rw [h₁, h₂, h₃, h₄]

end

variable (b : BoundingBox ℚ)

theorem mid_eq (a : Axis) : b.mid a = (b.low a + b.high a) / 2 := by
  cases a <;> rfl

theorem low_half (first a : Axis) (upper : Bool) :
    (b.half first upper).low a = if a = first ∧ upper then b.mid a else b.low a := by
  cases first <;> cases a <;> cases upper <;> rfl

theorem high_half (first a : Axis) (upper : Bool) :
    (b.half first upper).high a = if a = first ∧ ¬ upper then b.mid a else b.high a := by
  cases first <;> cases a <;> cases upper <;> rfl

/-- The halvings along an axis cut the range of a box into equal parts, and the bits along
the axis spell which of them is left. -/
theorem refine_ends (first a : Axis) (xs : List Bool) :
    (b.refine first xs).low a = b.low a + (b.high a - b.low a) *
        (bitValue (Axis.bits first a xs) / 2 ^ (Axis.bits first a xs).length) ∧
      (b.refine first xs).high a = b.low a + (b.high a - b.low a) *
        ((bitValue (Axis.bits first a xs) + 1) / 2 ^ (Axis.bits first a xs).length) := by
  induction xs generalizing b first with
  | nil => simp [refine, bitValue]
  | cons x xs ih =>
    obtain ⟨hlow, hhigh⟩ := ih (b.half first x) first.other
    rw [refine, hlow, hhigh, low_half, high_half, mid_eq, Axis.bits_cons]
    by_cases ha : a = first
    · -- the first bit halves along this axis
      rw [if_pos ha, bitValue, List.length_cons, pow_succ]
      have hpos : (2 : ℚ) ^ (Axis.bits first.other a xs).length ≠ 0 := by positivity
      cases x with
      | false =>
        simp only [ha, Bool.false_eq_true, and_false, if_false, not_false_eq_true, and_self,
          if_true, Bool.toNat_false, zero_mul, zero_add]
        constructor <;> field_simp <;> ring
      | true =>
        simp only [ha, and_self, if_true, not_true_eq_false, and_false, if_false,
          Bool.toNat_true, one_mul, Nat.cast_add, Nat.cast_pow, Nat.cast_ofNat]
        rw [ha] at hpos
        constructor <;> field_simp <;> ring
    · simp [ha]

end BoundingBox

/-! ## Rows and columns -/

/-- The world reaches from minus this angle to this angle along an axis. -/
def Axis.reach : Axis → ℚ
  | .lng => 180
  | .lat => 90

namespace Digit32

@[simp] theorem length_bits (d : Digit32) : d.bits.length = 5 := rfl

/-- The number of parts into which the bits of a digit cut a range along an axis, when the
first bit halves along `first`. -/
def parts (first a : Axis) : Nat := if a = first then 8 else 4

/-- The part along an axis that the bits of a digit name. -/
def part (d : Digit32) (first a : Axis) : Nat := bitValue (Axis.bits first a d.bits)

theorem two_pow_length_bits (d : Digit32) (first a : Axis) :
    2 ^ (Axis.bits first a d.bits).length = parts first a := by
  cases first <;> cases a <;> rfl

theorem part_lt (d : Digit32) (first a : Axis) : d.part first a < parts first a := by
  rw [← two_pow_length_bits d]
  exact bitValue_lt _

end Digit32

namespace Geohash

/-- The bits of a hash along an axis. -/
def axisBits (h : Geohash) (a : Axis) : List Bool := Axis.bits .lng a h.bits

/-- The row or column of a hash: its bits along an axis, read as a number. -/
def place (h : Geohash) (a : Axis) : Nat := bitValue (h.axisBits a)

/-- The number of rows or columns at the precision of a hash. -/
def count (h : Geohash) (a : Axis) : Nat := 2 ^ (h.axisBits a).length

theorem axisBits_lat (h : Geohash) : h.axisBits .lat = h.latBits := rfl

theorem place_lt_count (h : Geohash) (a : Axis) : h.place a < h.count a := bitValue_lt _

theorem count_pos (h : Geohash) (a : Axis) : 0 < h.count a := Nat.two_pow_pos _

theorem length_bits (h : Geohash) : h.bits.length = 5 * h.length := by
  rw [bits, List.length_flatMap, length]
  simp [Nat.mul_comm]

/-- The numbers of rows and of columns depend on the length of a hash only. -/
theorem count_eq_of_length_eq {h k : Geohash} (hlen : h.length = k.length) (a : Axis) :
    h.count a = k.count a := by
  rw [count, count, axisBits, axisBits, Axis.length_bits, Axis.length_bits, length_bits,
    length_bits, hlen]

theorem low_bounds (h : Geohash) (a : Axis) :
    (bounds ℚ h).low a = -a.reach + 2 * a.reach * (h.place a / h.count a) := by
  have hends := (BoundingBox.refine_ends BoundingBox.world .lng a h.bits).1
  rw [bounds, hends, place, count, axisBits, Nat.cast_pow, Nat.cast_ofNat]
  cases a <;> simp only [BoundingBox.low, BoundingBox.high, BoundingBox.world, Axis.reach,
    num_rat] <;> push_cast <;> ring

theorem high_bounds (h : Geohash) (a : Axis) :
    (bounds ℚ h).high a = -a.reach + 2 * a.reach * ((h.place a + 1) / h.count a) := by
  have hends := (BoundingBox.refine_ends BoundingBox.world .lng a h.bits).2
  rw [bounds, hends, place, count, axisBits, Nat.cast_pow, Nat.cast_ofNat]
  cases a <;> simp only [BoundingBox.low, BoundingBox.high, BoundingBox.world, Axis.reach,
    num_rat] <;> push_cast <;> ring

theorem reach_pos (a : Axis) : 0 < a.reach := by cases a <;> norm_num [Axis.reach]

/-- All boxes of a precision have the same size. -/
theorem size_bounds (h : Geohash) (a : Axis) :
    (bounds ℚ h).high a - (bounds ℚ h).low a = 2 * a.reach / h.count a := by
  rw [low_bounds, high_bounds]
  ring

/-- No box reaches beyond the world. -/
theorem bounds_within (h : Geohash) (a : Axis) :
    -a.reach ≤ (bounds ℚ h).low a ∧ (bounds ℚ h).high a ≤ a.reach := by
  have hreach := reach_pos a
  have hcount : (0 : ℚ) < h.count a := by exact_mod_cast h.count_pos a
  have hplace : (h.place a : ℚ) + 1 ≤ h.count a := by exact_mod_cast h.place_lt_count a
  have hlow : 0 ≤ (h.place a : ℚ) / h.count a := by positivity
  have hhigh : ((h.place a : ℚ) + 1) / h.count a ≤ 1 := (div_le_one hcount).mpr hplace
  rw [low_bounds, high_bounds]
  constructor <;> nlinarith

/-- A box ends at the upper end of the world in the last row or column. -/
theorem high_eq_reach_iff (h : Geohash) (a : Axis) :
    (bounds ℚ h).high a = a.reach ↔ h.place a + 1 = h.count a := by
  have hreach := reach_pos a
  have hcount : (0 : ℚ) < h.count a := by exact_mod_cast h.count_pos a
  rw [high_bounds, ← @Nat.cast_inj ℚ, Nat.cast_add, Nat.cast_one, ← div_eq_one_iff_eq hcount.ne']
  constructor
  · intro heq
    have : 2 * a.reach * (((h.place a : ℚ) + 1) / h.count a - 1) = 0 := by linarith
    rcases mul_eq_zero.mp this with hzero | hone
    · linarith
    · linarith
  · intro heq
    rw [heq]
    ring

/-- A box ends at the lower end of the world in the first row or column. -/
theorem low_eq_neg_reach_iff (h : Geohash) (a : Axis) :
    (bounds ℚ h).low a = -a.reach ↔ h.place a = 0 := by
  have hreach := reach_pos a
  have hcount : (0 : ℚ) < h.count a := by exact_mod_cast h.count_pos a
  rw [low_bounds, add_eq_left, mul_eq_zero, div_eq_zero_iff, Nat.cast_eq_zero]
  constructor
  · rintro (hzero | hzero | hzero)
    · linarith
    · exact hzero
    · exact absurd hzero hcount.ne'
  · exact fun heq => Or.inr (Or.inl heq)

/-- Boxes of one precision lie as many sizes apart as their rows or columns. -/
theorem bounds_of_place_eq_add {h k : Geohash} {a : Axis} {δ : ℤ}
    (hlen : k.length = h.length) (hplace : (k.place a : ℤ) = h.place a + δ) :
    (bounds ℚ k).low a =
        (bounds ℚ h).low a + δ * ((bounds ℚ h).high a - (bounds ℚ h).low a) ∧
      (bounds ℚ k).high a =
        (bounds ℚ h).high a + δ * ((bounds ℚ h).high a - (bounds ℚ h).low a) := by
  have hcast : (k.place a : ℚ) = h.place a + δ := by exact_mod_cast hplace
  rw [size_bounds, low_bounds, low_bounds, high_bounds, high_bounds,
    count_eq_of_length_eq hlen, hcast]
  constructor <;> ring

/-- A digit has an odd number of bits, so digits change the axis as single bits do. -/
theorem after_five_mul (first : Axis) (n : Nat) : first.after (5 * n) = first.after n := by
  unfold Axis.after
  rw [show 5 * n % 2 = n % 2 by omega]

/-- The bits of a further digit along an axis follow those of the digits before. -/
theorem axisBits_append_digit (ds : List Digit32) (d : Digit32) (a : Axis) :
    axisBits ⟨ds ++ [d]⟩ a =
      axisBits ⟨ds⟩ a ++ Axis.bits (Axis.after .lng ds.length) a d.bits := by
  have hbits : bits ⟨ds ++ [d]⟩ = bits ⟨ds⟩ ++ d.bits := by
    simp [bits]
  rw [axisBits, hbits, Axis.bits_append, length_bits, after_five_mul]
  rfl

theorem place_append_digit (ds : List Digit32) (d : Digit32) (a : Axis) :
    place ⟨ds ++ [d]⟩ a =
      place ⟨ds⟩ a * Digit32.parts (Axis.after .lng ds.length) a +
        d.part (Axis.after .lng ds.length) a := by
  rw [place, axisBits_append_digit, bitValue_append, Digit32.two_pow_length_bits]
  rfl

theorem count_append_digit (ds : List Digit32) (d : Digit32) (a : Axis) :
    count ⟨ds ++ [d]⟩ a =
      count ⟨ds⟩ a * Digit32.parts (Axis.after .lng ds.length) a := by
  rw [count, axisBits_append_digit, List.length_append, Nat.pow_add,
    Digit32.two_pow_length_bits]
  rfl

end Geohash

end GeoDispatch
