import GeoDispatch.Proofs.Number.Double
import GeoDispatch.Number.Binary

/-! # The order of doubles is the order of their bits

A double other than NaN is compared by exponent first and mantissa second, with the signs set
aside.  Exponent and mantissa stand side by side in its bits, so that the bits without the sign,
read as one number, grow with the magnitude; with the sign before it that number places the double
among all others (`Double.place`).  Comparisons of doubles are comparisons of places
(`Double.compare_unpack`), and the total order differs from them for the two zeros only
(`Double.totalKey_lt_iff`).
-/

namespace GeoDispatch.Double

open Float.Model Float.Model.UnpackedFloat

/-! ## The fields of the bits -/

theorem toNat_unpackMantissa (b : BitVec 64) :
    (@unpackMantissa .binary64 b).toNat = b.toNat % 2 ^ 52 := by
  simp [unpackMantissa]

theorem toNat_unpackExponent (b : BitVec 64) :
    (@unpackExponent .binary64 b).toNat = b.toNat / 2 ^ 52 % 2 ^ 11 := by
  simp [unpackExponent, Nat.shiftRight_eq_div_pow]

/-- A mantissa below a bit that is set. -/
theorem toNat_one_append_unpackMantissa (b : BitVec 64) :
    (1#1 ++ @unpackMantissa .binary64 b).toNat = 2 ^ 52 + b.toNat % 2 ^ 52 := by
  rw [BitVec.toNat_append, ← Nat.shiftLeft_add_eq_or_of_lt (BitVec.isLt _), toNat_unpackMantissa]
  rfl

theorem toNat_unpackSign (b : BitVec 64) :
    (@unpackSign .binary64 b).toNat = b.toNat / 2 ^ 63 := by
  have single : b.toNat / 2 ^ 63 < 2 := Nat.div_lt_of_lt_mul b.isLt
  simpa [unpackSign, Nat.shiftRight_eq_div_pow] using single

theorem apply_unpackSign (b : BitVec 64) (n : Int) :
    (Sign.ofBitVec (@unpackSign .binary64 b)).apply n =
      if b.toNat < 2 ^ 63 then n else -n := by
  have hb := b.isLt
  have sign := toNat_unpackSign b
  rw [Sign.ofBitVec]
  by_cases zero : @unpackSign .binary64 b = 0#1
  · rw [if_pos zero, if_pos]
    · rfl
    · rw [zero] at sign
      change 0 = _ at sign
      omega
  · have : (@unpackSign .binary64 b).toNat ≠ 0 := fun h => zero (BitVec.eq_of_toNat_eq h)
    rw [if_neg zero, if_neg (by omega)]
    rfl

/-- Unless a double is finite, all bits of its exponent are ones. -/
theorem exponent_of_isFinite_eq_false {x : Float} (h : x.isFinite = false) :
    x.toBits.toNat / 2 ^ 52 % 2 ^ 11 = 2047 := by
  change (UnpackedFloat.unpack .binary64 x.toBits.toBitVec).isFinite = false at h
  unfold UnpackedFloat.unpack at h
  dsimp only at h
  by_cases ones : @unpackExponent .binary64 x.toBits.toBitVec = -1#11
  · exact (toNat_unpackExponent x.toBits.toBitVec).symm.trans (congrArg BitVec.toNat ones)
  · rw [if_neg ones] at h
    split_ifs at h
    · cases h
    · cases h
    · cases h

/-! ## Places -/

/-- The place of a double: its bits without the sign bit, as a number with the sign. -/
def place (x : Float) : Int :=
  if x.toBits.toNat < 2 ^ 63 then x.toBits.toNat else 2 ^ 63 - x.toBits.toNat

/-- The place of what a double means. -/
def meaningPlace : UnpackedFloat → Int
  | .notANumber => 0
  | .infinity s => s.apply (2047 * 2 ^ 52)
  | .zero _ => 0
  | .finite s m e _ => s.apply ((e + 1074) * 2 ^ 52 + m)

/-- What a double other than NaN can mean: a mantissa has 53 bits, or fewer at the least
exponent. -/
def IsMeaning : UnpackedFloat → Prop
  | .notANumber => False
  | .infinity _ => True
  | .zero _ => True
  | .finite _ m e _ => -1074 ≤ e ∧ e ≤ 971 ∧ m < 2 ^ 53 ∧ (e = -1074 ∨ 2 ^ 52 ≤ m)

/-- What a double other than NaN means has the place of the double. -/
theorem meaning_of_not_isNaN {x : Float} (defined : x.isNaN = false) :
    IsMeaning x.toModel.unpack ∧ meaningPlace x.toModel.unpack = place x := by
  change x.toModel.unpack.isNaN = false at defined
  change IsMeaning (UnpackedFloat.unpack .binary64 x.toBits.toBitVec) ∧
    meaningPlace (UnpackedFloat.unpack .binary64 x.toBits.toBitVec) = place x
  change (UnpackedFloat.unpack .binary64 x.toBits.toBitVec).isNaN = false at defined
  have hb : x.toBits.toNat < 2 ^ 64 := x.toBits.toBitVec.isLt
  have word : x.toBits.toBitVec.toNat = x.toBits.toNat := rfl
  have mantissa := toNat_unpackMantissa x.toBits.toBitVec
  have exponent := toNat_unpackExponent x.toBits.toBitVec
  have full := toNat_one_append_unpackMantissa x.toBits.toBitVec
  have sign := apply_unpackSign x.toBits.toBitVec
  rw [word] at mantissa exponent full
  simp only [word] at sign
  unfold UnpackedFloat.unpack at defined ⊢
  dsimp only at defined ⊢
  split_ifs at defined ⊢ with ones blank least blank
  · -- an infinity
    rw [ones] at exponent
    rw [blank] at mantissa
    change 2047 = _ at exponent
    change 0 = _ at mantissa
    refine ⟨trivial, ?_⟩
    rw [meaningPlace, sign, place]
    split <;> omega
  · cases defined
  · -- a zero
    rw [least] at exponent
    rw [blank] at mantissa
    change 0 = _ at exponent
    change 0 = _ at mantissa
    refine ⟨trivial, ?_⟩
    rw [meaningPlace, place]
    split <;> omega
  · -- less than a full mantissa, at the least exponent
    have zero : (@unpackExponent .binary64 x.toBits.toBitVec).toNat = 0 :=
      congrArg BitVec.toNat least
    rw [zero] at exponent
    refine ⟨?_, ?_⟩
    · simp only [IsMeaning, Format.exponentBias, zero]
      omega
    · rw [meaningPlace, sign, place]
      simp only [Format.exponentBias, zero]
      split <;> omega
  · have notTop : (@unpackExponent .binary64 x.toBits.toBitVec).toNat ≠ 2 ^ 11 - 1 :=
      fun h => ones (BitVec.eq_of_toNat_eq h)
    have notLeast : (@unpackExponent .binary64 x.toBits.toBitVec).toNat ≠ 0 :=
      fun h => least (BitVec.eq_of_toNat_eq h)
    refine ⟨?_, ?_⟩
    · simp only [IsMeaning, Format.exponentBias, full]
      omega
    · rw [meaningPlace, sign, place, full]
      simp only [Format.exponentBias]
      split <;> omega

/-! ## Comparisons -/

theorem lt_eq_compare {a b : Int} (h : a < b) : Ordering.lt = compare a b :=
  (Int.compare_eq_lt.mpr h).symm

theorem gt_eq_compare {a b : Int} (h : b < a) : Ordering.gt = compare a b :=
  (Int.compare_eq_gt.mpr h).symm

/-- Exponents are compared before mantissas, and so are the places made of them. -/
theorem compare_fields {e e' : Int} {m m' : Nat} (hm : m < 2 ^ 53) (hm' : m' < 2 ^ 53)
    (he : -1074 ≤ e) (he' : -1074 ≤ e') (full : e = -1074 ∨ 2 ^ 52 ≤ m)
    (full' : e' = -1074 ∨ 2 ^ 52 ≤ m') :
    (compare e e').then (compare m m') =
      compare ((e + 1074) * 2 ^ 52 + m) ((e' + 1074) * 2 ^ 52 + m') := by
  rcases Int.lt_trichotomy e e' with hlt | rfl | hgt
  · rw [Int.compare_eq_lt.mpr hlt, ← lt_eq_compare (by omega)]
    rfl
  · rw [Int.compare_eq_eq.mpr rfl]
    show compare m m' = _
    rcases Nat.lt_trichotomy m m' with hlt | rfl | hgt
    · rw [Nat.compare_eq_lt.mpr hlt, ← lt_eq_compare (by omega)]
    · rw [Nat.compare_eq_eq.mpr rfl, Int.compare_eq_eq.mpr rfl]
    · rw [Nat.compare_eq_gt.mpr hgt, ← gt_eq_compare (by omega)]
  · rw [Int.compare_eq_gt.mpr hgt, ← gt_eq_compare (by omega)]
    rfl

theorem swap_compare_neg (a b : Int) : (compare a b).swap = compare (-a) (-b) := by
  rw [Int.compare_swap]
  rcases Int.lt_trichotomy a b with hlt | rfl | hgt
  · rw [← gt_eq_compare hlt, ← gt_eq_compare (by omega)]
  · rw [Int.compare_eq_eq.mpr rfl, Int.compare_eq_eq.mpr rfl]
  · rw [← lt_eq_compare hgt, ← lt_eq_compare (by omega)]

theorem compare_infinity {s : Sign} {v : UnpackedFloat} (hv : IsMeaning v) :
    (infinity s).compare v = some (compare (meaningPlace (.infinity s)) (meaningPlace v)) := by
  cases v with
  | notANumber => exact hv.elim
  | infinity t => cases s <;> cases t <;> rfl
  | zero t => cases s <;> rfl
  | finite t m e pos =>
    obtain ⟨hmin, hmax, hm, -⟩ := hv
    cases s with
    | negative =>
      refine congrArg some (lt_eq_compare ?_)
      cases t <;> simp only [meaningPlace, Sign.apply] <;> omega
    | positive =>
      refine congrArg some (gt_eq_compare ?_)
      cases t <;> simp only [meaningPlace, Sign.apply] <;> omega

theorem compare_zero {s : Sign} {v : UnpackedFloat} (hv : IsMeaning v) :
    (zero s).compare v = some (compare (meaningPlace (.zero s)) (meaningPlace v)) := by
  cases v with
  | notANumber => exact hv.elim
  | infinity t => cases t <;> rfl
  | zero t => rfl
  | finite t m e pos =>
    obtain ⟨hmin, -⟩ := hv
    cases t with
    | negative =>
      refine congrArg some (gt_eq_compare ?_)
      simp only [meaningPlace, Sign.apply]
      omega
    | positive =>
      refine congrArg some (lt_eq_compare ?_)
      simp only [meaningPlace, Sign.apply]
      omega

/-- Numbers of the same sign are compared by their fields, others by their signs. -/
theorem compare_finite {s t : Sign} {m m' : Nat} {e e' : Int} {pos : 0 < m} {pos' : 0 < m'}
    (hu : IsMeaning (.finite s m e pos)) (hv : IsMeaning (.finite t m' e' pos')) :
    (finite s m e pos).compare (.finite t m' e' pos') =
      some (compare (meaningPlace (.finite s m e pos)) (meaningPlace (.finite t m' e' pos'))) := by
  obtain ⟨hmin, -, hm, full⟩ := hu
  obtain ⟨hmin', -, hm', full'⟩ := hv
  have fields := compare_fields hm hm' hmin hmin' full full'
  cases s with
  | negative =>
    cases t with
    | negative =>
      refine congrArg some ?_
      rw [fields]
      exact swap_compare_neg ..
    | positive =>
      refine congrArg some (lt_eq_compare ?_)
      simp only [meaningPlace, Sign.apply]
      omega
  | positive =>
    cases t with
    | negative =>
      refine congrArg some (gt_eq_compare ?_)
      simp only [meaningPlace, Sign.apply]
      omega
    | positive => exact congrArg some fields

theorem compare_meaning {u v : UnpackedFloat} (hu : IsMeaning u) (hv : IsMeaning v) :
    u.compare v = some (compare (meaningPlace u) (meaningPlace v)) := by
  cases u with
  | notANumber => exact hu.elim
  | infinity s => exact compare_infinity hv
  | zero s => exact compare_zero hv
  | finite s m e pos =>
    have bounds := hu
    obtain ⟨hmin, hmax, hm, -⟩ := bounds
    cases v with
    | notANumber => exact hv.elim
    | infinity t =>
      cases t with
      | negative =>
        have above : meaningPlace (.infinity .negative) < meaningPlace (.finite s m e pos) := by
          cases s <;> simp only [meaningPlace, Sign.apply] <;> omega
        rw [← gt_eq_compare above]
        cases s <;> rfl
      | positive =>
        have below : meaningPlace (.finite s m e pos) < meaningPlace (.infinity .positive) := by
          cases s <;> simp only [meaningPlace, Sign.apply] <;> omega
        rw [← lt_eq_compare below]
        cases s <;> rfl
    | zero t =>
      cases s with
      | negative =>
        refine congrArg some (lt_eq_compare ?_)
        simp only [meaningPlace, Sign.apply]
        omega
      | positive =>
        refine congrArg some (gt_eq_compare ?_)
        simp only [meaningPlace, Sign.apply]
        omega
    | finite t m' e' pos' => exact compare_finite hu hv

/-- **Doubles other than NaN are compared by their places.** -/
theorem compare_unpack {x y : Float} (hx : x.isNaN = false) (hy : y.isNaN = false) :
    x.toModel.unpack.compare y.toModel.unpack = some (compare (place x) (place y)) := by
  obtain ⟨meaningX, placeX⟩ := meaning_of_not_isNaN hx
  obtain ⟨meaningY, placeY⟩ := meaning_of_not_isNaN hy
  rw [compare_meaning meaningX meaningY, placeX, placeY]

theorem lt_iff_place {x y : Float} (hx : x.isNaN = false) (hy : y.isNaN = false) :
    x < y ↔ place x < place y := by
  change decide ((x.toModel.unpack.compare y.toModel.unpack == some .lt) = true) = true ↔ _
  rw [compare_unpack hx hy, decide_eq_true_eq, beq_iff_eq, Option.some.injEq, Int.compare_eq_lt]

/-- A double that is at most as great as another is not NaN, nor is the other. -/
theorem isNaN_of_le {x y : Float} (h : x ≤ y) : x.isNaN = false ∧ y.isNaN = false := by
  change decide ((x.toModel.unpack.compare y.toModel.unpack).any (·.isLE) = true) = true at h
  rw [decide_eq_true_eq] at h
  constructor
  · change x.toModel.unpack.isNaN = false
    cases hu : x.toModel.unpack with
    | notANumber => rw [hu] at h; cases h
    | _ => rfl
  · change y.toModel.unpack.isNaN = false
    cases hv : y.toModel.unpack with
    | notANumber => rw [hv] at h; cases hu : x.toModel.unpack <;> rw [hu] at h <;> cases h
    | _ => rfl

/-- The total order puts `-0` before `0` and otherwise is the order of the numbers. -/
theorem totalKey_lt_iff {x y : Float} (hx : x.isNaN = false) (hy : y.isNaN = false) :
    totalKey x.toBits < totalKey y.toBits ↔ x < y ∨ x = -0 ∧ y = 0 := by
  have eq_iff (a b : Float) : a = b ↔ a.toBits.toNat = b.toBits.toNat := by
    rw [UInt64.toNat_inj, Float.toBits_inj]
  have negativeZero : x = -0 ↔ x.toBits.toNat = 2 ^ 63 := eq_iff x (-0)
  have positiveZero : y = 0 ↔ y.toBits.toNat = 0 := eq_iff y 0
  rw [lt_iff_place hx hy, negativeZero, positiveZero, place, place]
  simp only [totalKey]
  split <;> split <;> split <;> split <;> omega

/-! ## Doubles without a sign -/

theorem isNaN_of_toBits_lt {x : Float} (h : x.toBits.toNat < 2047 * 2 ^ 52) : x.isNaN = false := by
  have finite : x.isFinite = true := by
    by_contra infinite
    have := exponent_of_isFinite_eq_false (Bool.eq_false_of_not_eq_true infinite)
    omega
  change x.toModel.unpack.isFinite = true at finite
  change x.toModel.unpack.isNaN = false
  cases hu : x.toModel.unpack with
  | notANumber => rw [hu] at finite; cases finite
  | _ => rfl

/-- Finite doubles without a sign are compared by their bits. -/
theorem lt_iff_toBits_lt {x y : Float} (hx : x.toBits.toNat < 2047 * 2 ^ 52)
    (hy : y.toBits.toNat < 2047 * 2 ^ 52) : x < y ↔ x.toBits.toNat < y.toBits.toNat := by
  rw [lt_iff_place (isNaN_of_toBits_lt hx) (isNaN_of_toBits_lt hy), place, place,
    if_pos (by omega), if_pos (by omega), Int.ofNat_lt]

end GeoDispatch.Double
