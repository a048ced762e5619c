import Mathlib

/-! # Natural numbers and their quotients as doubles

Doubles compute by a model: the bits are taken apart into a mantissa and an exponent, the
operation is done on these exactly, and the result is rounded to 53 bits and packed again.
This module follows natural numbers of at most 53 bits through it.  They and their sums are
exact (`toModel_ofNat`, `ofNat_add`); a quotient `a / b` has the bits of the exact quotient at
a binary place where it has 53 bits, rounded down or up, and not rounded at all where it is
whole there (`toBits_ofNat_div`).

Bits count up through the mantissas of one exponent and on to the next exponent, so that a
mantissa that overflows in rounding needs no case of its own
(`toNat_pack_roundWithAccuracy`).
-/

namespace GeoDispatch.Double

open Float.Model Float.Model.UnpackedFloat

/-! ## Shifting and rounding a mantissa -/

theorem mantissa_shiftRight (em : ExtendedMantissa) (k : Nat) :
    (em >>> k).mantissa = em.mantissa / 2 ^ k := by
  change (Nat.repeat ExtendedMantissa.shiftRightOne k em).mantissa = em.mantissa / 2 ^ k
  induction k with
  | zero => simp [Nat.repeat]
  | succ k ih =>
    rw [Nat.repeat, ExtendedMantissa.shiftRightOne, ih, Nat.div_div_eq_div_mul, Nat.pow_succ]

/-- Zeros that are shifted out leave no trace. -/
theorem shiftRight_mul_two_pow (m k : Nat) :
    (⟨m * 2 ^ k, false, false⟩ : ExtendedMantissa) >>> k = ⟨m, false, false⟩ := by
  change Nat.repeat ExtendedMantissa.shiftRightOne k _ = _
  induction k generalizing m with
  | zero => simp [Nat.repeat]
  | succ k ih =>
    have h := ih (m * 2)
    rw [Nat.mul_assoc, ← Nat.pow_succ'] at h
    simp [Nat.repeat, h, ExtendedMantissa.shiftRightOne]

theorem roundedMantissa_bounds (em : ExtendedMantissa) :
    em.mantissa ≤ em.roundedMantissa ∧ em.roundedMantissa ≤ em.mantissa + 1 := by
  obtain ⟨m, r, s⟩ := em
  cases r <;> cases s <;>
    simp [ExtendedMantissa.roundedMantissa, ExtendedMantissa.accuracy,
      Accuracy.roundToNearestEven]
  omega

theorem targetExponent_eq (m : Nat) (e : Int) :
    Format.binary64.targetExponent (totalExponent m e) = max (m.log2 + e - 52) (-1074) := by
  simp only [Format.targetExponent, totalExponent, Format.mantissaBits, Format.minExponent]
  omega

theorem log2_eq {m k : Nat} (lower : 2 ^ k ≤ m) (upper : m < 2 ^ (k + 1)) : m.log2 = k := by
  have hm : m ≠ 0 := fun h => by
    have := Nat.two_pow_pos k
    omega
  exact (Nat.log2_eq_iff hm).mpr ⟨lower, upper⟩

theorem mantissa_ofMantissaAndAccuracy (m : Nat) (acc : Accuracy) :
    (ExtendedMantissa.ofMantissaAndAccuracy m acc).mantissa = m := by
  rcases acc with _ | (_ | _ | _) <;> rfl

/-- A mantissa of `53 + k` bits is shifted by `k`. -/
theorem shiftToTargetExponent_eq {q k : Nat} {e : Int} (acc : Accuracy)
    (lower : 2 ^ (52 + k) ≤ q) (upper : q < 2 ^ (53 + k)) (he : -1074 ≤ e) :
    shiftToTargetExponent .binary64 q (e - k) acc =
      (ExtendedMantissa.ofMantissaAndAccuracy q acc >>> k, e) := by
  have hlog : q.log2 = 52 + k := log2_eq lower (by rwa [show 52 + k + 1 = 53 + k by omega])
  have hshift : (max ((q.log2 : Int) + (e - k) - 52) (-1074) - (e - k)).toNat = k := by omega
  rw [shiftToTargetExponent, targetExponent_eq, shiftToExponent]
  simp only [hshift]
  rw [Int.sub_add_cancel]

/-- The mantissa that rounding a mantissa of `53 + k` bits gives, before it is seen whether
it has overflowed. -/
def roundedShift (q k : Nat) (acc : Accuracy) : Nat :=
  (ExtendedMantissa.ofMantissaAndAccuracy q acc >>> k).roundedMantissa

theorem roundedShift_bounds (q k : Nat) (acc : Accuracy) :
    q / 2 ^ k ≤ roundedShift q k acc ∧ roundedShift q k acc ≤ q / 2 ^ k + 1 := by
  have h := roundedMantissa_bounds (ExtendedMantissa.ofMantissaAndAccuracy q acc >>> k)
  rwa [mantissa_shiftRight, mantissa_ofMantissaAndAccuracy] at h

theorem roundedShift_exact (m k : Nat) : roundedShift (m * 2 ^ k) k .exact = m := by
  rw [roundedShift, ExtendedMantissa.ofMantissaAndAccuracy, shiftRight_mul_two_pow]
  rfl

theorem roundWithAccuracy_of_lt {q k : Nat} {e : Int} (sign : Sign) (acc : Accuracy)
    (lower : 2 ^ (52 + k) ≤ q) (upper : q < 2 ^ (53 + k)) (he : -1074 ≤ e) {m : Nat}
    (hm : roundedShift q k acc = m) (fits : m < 2 ^ 53) (pos : 0 < m) :
    roundWithAccuracy .binary64 sign q (e - k) acc = .finite sign m e pos := by
  have bound := (roundedShift_bounds q k acc).1
  have hlower : 2 ^ 52 ≤ q / 2 ^ k := by
    rwa [Nat.le_div_iff_mul_le (Nat.two_pow_pos k), ← Nat.pow_add]
  -- after rounding the exponent is chosen once more, here to no effect
  have again := shiftToTargetExponent_eq (q := m) (k := 0) .exact (by omega) fits he
  rw [Int.natCast_zero, Int.sub_zero] at again
  rw [roundedShift] at hm
  simp only [roundWithAccuracy, shiftToTargetExponent_eq acc lower upper he, hm, again]
  exact dif_neg (Nat.ne_of_gt pos)

theorem roundWithAccuracy_of_eq {q k : Nat} {e : Int} (sign : Sign) (acc : Accuracy)
    (lower : 2 ^ (52 + k) ≤ q) (upper : q < 2 ^ (53 + k)) (he : -1074 ≤ e)
    (hm : roundedShift q k acc = 2 ^ 53) :
    roundWithAccuracy .binary64 sign q (e - k) acc =
      .finite sign (2 ^ 52) (e + 1) (Nat.two_pow_pos 52) := by
  -- the second choice of the exponent shifts the overflow away
  have again := shiftToTargetExponent_eq (q := 2 ^ 53) (k := 1) (e := e + 1) .exact
    (Nat.le_refl _) (by decide) (by omega)
  rw [Int.natCast_one, Int.add_sub_cancel] at again
  rw [roundedShift] at hm
  simp only [roundWithAccuracy, shiftToTargetExponent_eq acc lower upper he, hm, again]
  rfl

/-! ## The bits of a double -/

theorem pack_eq {m : Nat} {e : Int} (pos : 0 < m) (lower : 2 ^ 52 ≤ m) (upper : m < 2 ^ 53)
    (he' : e ≤ 970) :
    UnpackedFloat.pack .binary64 (.finite .positive m e pos) =
      packComponents .binary64 .positive (BitVec.ofNat 11 (e + 1075).toNat)
        (BitVec.ofNat 52 m) := by
  have hlog : m.log2 + 1 = Format.binary64.mantissaBits := by
    rw [log2_eq lower upper]
    rfl
  have hbias : (e + Format.binary64.exponentBias +
      Format.binary64.mantissaBitsWithoutImplicit).toNat = (e + 1075).toNat := by
    simp only [Format.exponentBias]
    omega
  rw [UnpackedFloat.pack]
  simp only [hbias, hlog, if_true]
  rw [if_neg (by omega)]

theorem toNat_packComponents (e : BitVec 11) (m : BitVec 52) :
    (packComponents .binary64 .positive e m).toNat = e.toNat * 2 ^ 52 + m.toNat := by
  simp only [packComponents, Sign.toBitVec, BitVec.toNat_append]
  rw [← Nat.shiftLeft_add_eq_or_of_lt m.isLt, Nat.shiftLeft_eq, BitVec.toNat_ofNat,
    Nat.zero_mod, Nat.zero_shiftLeft, Nat.zero_or]

theorem toNat_pack {m : Nat} {e : Int} (pos : 0 < m) (lower : 2 ^ 52 ≤ m) (upper : m < 2 ^ 53)
    (he : -1074 ≤ e) (he' : e ≤ 970) :
    (UnpackedFloat.pack .binary64 (.finite .positive m e pos)).toNat =
      (e + 1074).toNat * 2 ^ 52 + m := by
  rw [pack_eq pos lower upper he', toNat_packComponents, BitVec.toNat_ofNat, BitVec.toNat_ofNat]
  omega

theorem unpack_pack {m : Nat} {e : Int} (pos : 0 < m) (lower : 2 ^ 52 ≤ m) (upper : m < 2 ^ 53)
    (he : -1074 ≤ e) (he' : e ≤ 970) :
    (Float.Model.pack (.finite .positive m e pos)).unpack = .finite .positive m e pos := by
  have hexp : (BitVec.ofNat 11 (e + 1075).toNat).toNat = (e + 1075).toNat := by
    rw [BitVec.toNat_ofNat]
    omega
  have hmant : (1#1 ++ BitVec.ofNat 52 m).toNat = m := by
    rw [BitVec.toNat_append, ← Nat.shiftLeft_add_eq_or_of_lt (BitVec.isLt _), Nat.shiftLeft_eq,
      BitVec.toNat_ofNat, BitVec.toNat_ofNat]
    omega
  have hnotTop : BitVec.ofNat 11 (e + 1075).toNat ≠ -1#11 := by
    intro h
    have := congrArg BitVec.toNat h
    rw [hexp] at this
    simp at this
    omega
  have hnotZero : BitVec.ofNat 11 (e + 1075).toNat ≠ 0#11 := by
    intro h
    have := congrArg BitVec.toNat h
    rw [hexp] at this
    simp at this
    omega
  change UnpackedFloat.unpack .binary64 (UnpackedFloat.pack .binary64 _) = _
  rw [pack_eq pos lower upper he']
  simp only [UnpackedFloat.unpack, unpackExponent_packComponents, unpackMantissa_packComponents,
    unpackSign_packComponents, Sign.ofBitVec_toBitVec, hnotTop, hnotZero, if_false, hexp, hmant]
  congr 1
  simp only [Format.exponentBias]
  omega

/-! ## Natural numbers -/

theorem log2_lt {n : Nat} (fits : n < 2 ^ 53) : n.log2 < 53 := by
  rcases Nat.eq_zero_or_pos n with rfl | pos
  · decide
  · exact (Nat.log2_lt (Nat.ne_of_gt pos)).mpr fits

/-- The mantissa of a natural number, brought to 53 bits. -/
def mantissaOf (n : Nat) : Nat := n * 2 ^ (52 - n.log2)

theorem mantissaOf_bounds {n : Nat} (pos : 0 < n) (fits : n < 2 ^ 53) :
    2 ^ 52 ≤ mantissaOf n ∧ mantissaOf n < 2 ^ 53 := by
  have hlog : n.log2 < 53 := log2_lt fits
  have lower : 2 ^ n.log2 ≤ n := Nat.log2_self_le (Nat.ne_of_gt pos)
  have upper : n < 2 ^ (n.log2 + 1) := Nat.lt_log2_self
  have hpow := Nat.two_pow_pos (52 - n.log2)
  constructor
  · calc 2 ^ 52 = 2 ^ n.log2 * 2 ^ (52 - n.log2) := by rw [← Nat.pow_add]; congr 1; omega
      _ ≤ mantissaOf n := Nat.mul_le_mul_right _ lower
  · calc mantissaOf n < 2 ^ (n.log2 + 1) * 2 ^ (52 - n.log2) :=
          Nat.mul_lt_mul_of_pos_right upper hpow
      _ = 2 ^ 53 := by rw [← Nat.pow_add]; congr 1; omega

theorem mantissaOf_pos {n : Nat} (pos : 0 < n) : 0 < mantissaOf n :=
  Nat.mul_pos pos (Nat.two_pow_pos _)

/-- A natural number as a finite double. -/
def finiteNat (n : Nat) (pos : 0 < n) : UnpackedFloat :=
  .finite .positive (mantissaOf n) (n.log2 - 52) (mantissaOf_pos pos)

theorem roundWithAccuracy_nat {n j : Nat} (pos : 0 < n) (fits : n < 2 ^ 53)
    (hj : 52 ≤ n.log2 + j) {e : Int} (he : e = -j) :
    roundWithAccuracy .binary64 .positive (n * 2 ^ j) e .exact = finiteNat n pos := by
  obtain ⟨lower, upper⟩ := mantissaOf_bounds pos fits
  have hlog : n.log2 < 53 := log2_lt fits
  obtain ⟨k, rfl⟩ : ∃ k, j = (52 - n.log2) + k := ⟨j - (52 - n.log2), by omega⟩
  have hq : n * 2 ^ (52 - n.log2 + k) = mantissaOf n * 2 ^ k := by
    rw [mantissaOf, Nat.pow_add, Nat.mul_assoc]
  have he : e = (n.log2 - 52 : Int) - k := by omega
  have hpow := Nat.two_pow_pos k
  rw [hq, he]
  refine roundWithAccuracy_of_lt .positive .exact ?_ ?_ (by omega) (roundedShift_exact _ k) upper
    (mantissaOf_pos pos)
  · rw [Nat.pow_add]
    exact Nat.mul_le_mul_right _ lower
  · rw [Nat.pow_add]
    exact Nat.mul_lt_mul_of_pos_right upper hpow

theorem normalize_nat {n j : Nat} (pos : 0 < n) (fits : n < 2 ^ 53) (sign : Sign) :
    UnpackedFloat.normalize .binary64 ((n * 2 ^ j : Nat) : Int) (-j) sign = finiteNat n pos := by
  have hlog : n.log2 < 53 := log2_lt fits
  have hpos : 0 < n * 2 ^ j := Nat.mul_pos pos (Nat.two_pow_pos j)
  have hcmp : compare ((n * 2 ^ j : Nat) : Int) 0 = .gt := by
    rw [Int.compare_eq_gt]
    omega
  have hlog' : (n * 2 ^ j).log2 = n.log2 + j := by
    refine log2_eq ?_ ?_
    · rw [Nat.pow_add]
      exact Nat.mul_le_mul_right _ (Nat.log2_self_le (Nat.ne_of_gt pos))
    · rw [Nat.add_right_comm, Nat.pow_add]
      exact Nat.mul_lt_mul_of_pos_right Nat.lt_log2_self (Nat.two_pow_pos j)
  rw [UnpackedFloat.normalize, hcmp]
  simp only [Int.toNat_natCast]
  rw [UnpackedFloat.round, targetExponent_eq, decreaseExponent, hlog']
  simp only [Nat.shiftLeft_eq, Nat.mul_assoc, ← Nat.pow_add]
  exact roundWithAccuracy_nat pos fits (by omega) (by omega)

theorem unpack_pack_finiteNat {n : Nat} (pos : 0 < n) (fits : n < 2 ^ 53) :
    (Float.Model.pack (finiteNat n pos)).unpack = finiteNat n pos := by
  obtain ⟨lower, upper⟩ := mantissaOf_bounds pos fits
  have hlog : n.log2 < 53 := log2_lt fits
  exact unpack_pack _ lower upper (by omega) (by omega)

theorem toModel_toFloat {n : UInt64} (pos : 0 < n.toNat) (fits : n.toNat < 2 ^ 53) :
    n.toFloat.toModel = Float.Model.pack (finiteNat n.toNat pos) := by
  have h := normalize_nat (j := 0) pos fits .positive
  rw [Nat.pow_zero, Nat.mul_one] at h
  exact congrArg Float.Model.pack h

theorem unpack_one : (Float.ofBits 0x3FF0000000000000).toModel.unpack = finiteNat 1 Nat.one_pos :=
  rfl

theorem toModel_ofNat {n : Nat} (pos : 0 < n) (fits : n < 2 ^ 53) :
    (Float.ofNat n).toModel = Float.Model.pack (finiteNat n pos) := by
  have hword : n.toUInt64.toNat = n := by
    rw [Nat.toUInt64_eq, UInt64.toNat_ofNat', Nat.mod_eq_of_lt (by omega)]
  -- a small number is converted as a word and then scaled, by one
  have h : Float.ofNat n = n.toUInt64.toFloat * Float.ofBits 0x3FF0000000000000 := by
    change Float.ofScientific n false 0 = _
    rw [Float.ofScientific, dif_pos ⟨fits, by decide⟩]
    rfl
  have hmul : (Float.ofNat n).toModel = Float.Model.pack (UnpackedFloat.mul .binary64
      n.toUInt64.toFloat.toModel.unpack (Float.ofBits 0x3FF0000000000000).toModel.unpack) := by
    rw [h]
    rfl
  have hn : n.toUInt64.toFloat.toModel.unpack = finiteNat n pos := by
    rw [toModel_toFloat (by omega) (by omega), unpack_pack_finiteNat (by omega) (by omega)]
    simp only [hword]
  have hlog : n.log2 < 53 := log2_lt fits
  have hprod : mantissaOf n * mantissaOf 1 = n * 2 ^ ((52 - n.log2) + 52) := by
    rw [mantissaOf, Nat.mul_assoc, Nat.pow_add]
    rfl
  rw [hmul, hn, unpack_one]
  change Float.Model.pack (roundWithAccuracy .binary64 .positive (mantissaOf n * mantissaOf 1)
    (n.log2 - 52 + (0 - 52)) .exact) = _
  rw [hprod, roundWithAccuracy_nat pos fits (by omega) (by omega)]

theorem unpack_ofNat {n : Nat} (pos : 0 < n) (fits : n < 2 ^ 53) :
    (Float.ofNat n).toModel.unpack = finiteNat n pos := by
  rw [toModel_ofNat pos fits, unpack_pack_finiteNat pos fits]

theorem toModel_inj {x y : Float} (h : x.toModel = y.toModel) : x = y := by
  cases x
  cases y
  exact congrArg Float.ofModel h

theorem decreaseExponent_finiteNat {n l : Nat} (fits : n < 2 ^ 53)
    (hl : l ≤ n.log2) :
    (decreaseExponent (mantissaOf n) (n.log2 - 52) (l - 52)).1 = n * 2 ^ (52 - l) := by
  have hlog : n.log2 < 53 := log2_lt fits
  simp only [decreaseExponent, mantissaOf, Nat.shiftLeft_eq, Nat.mul_assoc, ← Nat.pow_add]
  congr 2
  omega

theorem add_finiteNat {m n : Nat} (hm : 0 < m) (hn : 0 < n) (fits : m + n < 2 ^ 53) :
    UnpackedFloat.add .binary64 (finiteNat m hm) (finiteNat n hn) =
      finiteNat (m + n) (Nat.add_pos_left hm n) := by
  have hlog : m.log2 < 53 := log2_lt (by omega)
  have hmin : min ((m.log2 : Int) - 52) (n.log2 - 52) = (min m.log2 n.log2 : Nat) - 52 := by omega
  have hexp : ((min m.log2 n.log2 : Nat) - 52 : Int) = -((52 - min m.log2 n.log2 : Nat) : Int) := by
    omega
  -- both mantissas are brought to the lesser exponent, where their sum is `(m + n) * 2 ^ j`
  have h := normalize_nat (n := m + n) (j := 52 - min m.log2 n.log2) (by omega) fits .positive
  rw [← hexp, Nat.add_mul, Int.natCast_add] at h
  rw [finiteNat, finiteNat, UnpackedFloat.add]
  simp only [hmin, Sign.apply]
  rw [decreaseExponent_finiteNat (by omega) (Nat.min_le_left ..),
    decreaseExponent_finiteNat (by omega) (Nat.min_le_right ..)]
  exact h

/-- The sum of two natural numbers is exact, as long as it has at most 53 bits. -/
theorem ofNat_add {m n : Nat} (hm : 0 < m) (fits : m + n < 2 ^ 53) :
    Float.ofNat m + Float.ofNat n = Float.ofNat (m + n) := by
  refine toModel_inj ?_
  rw [toModel_ofNat (by omega) fits]
  change Float.Model.pack (UnpackedFloat.add .binary64 (Float.ofNat m).toModel.unpack
    (Float.ofNat n).toModel.unpack) = _
  rw [unpack_ofNat hm (by omega)]
  rcases Nat.eq_zero_or_pos n with rfl | hn
  · rfl
  · rw [unpack_ofNat hn (by omega), add_finiteNat hm hn fits]

/-! ## Quotients -/

/-- An overflow of the rounded mantissa carries into the exponent, so that the bits need
no distinction. -/
theorem toNat_pack_roundWithAccuracy {q k : Nat} {e : Int} (acc : Accuracy)
    (lower : 2 ^ (52 + k) ≤ q) (upper : q < 2 ^ (53 + k)) (he : -1074 ≤ e) (he' : e < 970) :
    (UnpackedFloat.pack .binary64 (roundWithAccuracy .binary64 .positive q (e - k) acc)).toNat =
      (e + 1074).toNat * 2 ^ 52 + roundedShift q k acc := by
  obtain ⟨above, below⟩ := roundedShift_bounds q k acc
  have hlower : 2 ^ 52 ≤ q / 2 ^ k := by
    rwa [Nat.le_div_iff_mul_le (Nat.two_pow_pos k), ← Nat.pow_add]
  have hupper : q / 2 ^ k < 2 ^ 53 := by
    rwa [Nat.div_lt_iff_lt_mul (Nat.two_pow_pos k), ← Nat.pow_add]
  by_cases fits : roundedShift q k acc < 2 ^ 53
  · rw [roundWithAccuracy_of_lt .positive acc lower upper he rfl fits (by omega)]
    exact toNat_pack _ (by omega) fits he (by omega)
  · have hm : roundedShift q k acc = 2 ^ 53 := by omega
    rw [roundWithAccuracy_of_eq .positive acc lower upper he hm,
      toNat_pack _ (Nat.le_refl _) (by decide) (by omega) (by omega), hm]
    omega

theorem accuracyOfFraction_zero (b : Nat) : accuracyOfFraction 0 b = .exact := rfl

theorem div_finiteNat {a b : Nat} (ha : 0 < a) (hb : 0 < b) (fitsA : a < 2 ^ 53)
    (fitsB : b < 2 ^ 53) {t : Nat} (ht : t + a.log2 = 53 + b.log2) :
    ∃ acc, (a * 2 ^ t % b = 0 → acc = Accuracy.exact) ∧
      UnpackedFloat.div .binary64 (finiteNat a ha) (finiteNat b hb) =
        roundWithAccuracy .binary64 .positive (a * 2 ^ t / b) (-t) acc := by
  obtain ⟨lowerA, upperA⟩ := mantissaOf_bounds ha fitsA
  obtain ⟨lowerB, upperB⟩ := mantissaOf_bounds hb fitsB
  have hlogA : a.log2 < 53 := log2_lt fitsA
  have hlogB : b.log2 < 53 := log2_lt fitsB
  have hshift : mantissaOf a * 2 ^ 53 = a * 2 ^ t * 2 ^ (52 - b.log2) := by
    rw [mantissaOf, Nat.mul_assoc, Nat.mul_assoc, ← Nat.pow_add, ← Nat.pow_add]
    congr 2
    omega
  have hpow := Nat.two_pow_pos (52 - b.log2)
  have hquot : mantissaOf a * 2 ^ 53 / mantissaOf b = a * 2 ^ t / b := by
    rw [hshift, mantissaOf, Nat.mul_div_mul_right _ _ hpow]
  have hrest : mantissaOf a * 2 ^ 53 % mantissaOf b = a * 2 ^ t % b * 2 ^ (52 - b.log2) := by
    rw [hshift, mantissaOf, Nat.mul_mod_mul_right]
  have htarget : min ((a.log2 : Int) - 52 - (b.log2 - 52))
      (Format.binary64.targetExponent (totalExponent (mantissaOf a) (a.log2 - 52) -
        totalExponent (mantissaOf b) (b.log2 - 52))) = -t := by
    simp only [Format.targetExponent, totalExponent, log2_eq lowerA upperA, log2_eq lowerB upperB,
      Format.mantissaBits, Format.minExponent]
    omega
  have hcount : ((a.log2 : Int) - 52 - (b.log2 - 52) - -t).toNat = 53 := by omega
  refine ⟨accuracyOfFraction (a * 2 ^ t % b * 2 ^ (52 - b.log2)) (mantissaOf b), ?_, ?_⟩
  · intro h
    rw [h, Nat.zero_mul, accuracyOfFraction_zero]
  · rw [finiteNat, finiteNat, UnpackedFloat.div]
    simp only [divCore, htarget, hcount, Nat.shiftLeft_eq, hquot, hrest]
    rfl

theorem shiftedQuotient_bounds {a b t : Nat} (ha : 0 < a) (hb : 0 < b)
    (ht : t + a.log2 = 53 + b.log2) : 2 ^ 52 ≤ a * 2 ^ t / b ∧ a * 2 ^ t / b < 2 ^ 54 := by
  have hpow := Nat.two_pow_pos t
  constructor
  · rw [Nat.le_div_iff_mul_le hb]
    calc 2 ^ 52 * b ≤ 2 ^ 52 * 2 ^ (b.log2 + 1) :=
          Nat.mul_le_mul_left _ (Nat.le_of_lt Nat.lt_log2_self)
      _ = 2 ^ a.log2 * 2 ^ t := by rw [← Nat.pow_add, ← Nat.pow_add]; congr 1; omega
      _ ≤ a * 2 ^ t := Nat.mul_le_mul_right _ (Nat.log2_self_le (Nat.ne_of_gt ha))
  · rw [Nat.div_lt_iff_lt_mul hb]
    calc a * 2 ^ t < 2 ^ (a.log2 + 1) * 2 ^ t := Nat.mul_lt_mul_of_pos_right Nat.lt_log2_self hpow
      _ = 2 ^ 54 * 2 ^ b.log2 := by rw [← Nat.pow_add, ← Nat.pow_add]; congr 1; omega
      _ ≤ 2 ^ 54 * b := Nat.mul_le_mul_left _ (Nat.log2_self_le (Nat.ne_of_gt hb))

/-- The bits of the quotient of two natural numbers of at most 53 bits.  At some binary place
`s` the quotient has 53 bits; the mantissa is the quotient at that place, rounded down or up,
and not rounded where it is whole. -/
theorem toBits_ofNat_div {a b : Nat} (ha : 0 < a) (hb : 0 < b) (fitsA : a < 2 ^ 53)
    (fitsB : b < 2 ^ 53) :
    ∃ s m, s ≤ 105 ∧ 2 ^ 52 ≤ a * 2 ^ s / b ∧ a * 2 ^ s / b < 2 ^ 53 ∧
      a * 2 ^ s / b ≤ m ∧ m ≤ a * 2 ^ s / b + 1 ∧ (b ∣ a * 2 ^ s → m = a * 2 ^ s / b) ∧
      (Float.ofNat a / Float.ofNat b).toBits.toNat = (1074 - s) * 2 ^ 52 + m := by
  have hlogA : a.log2 < 53 := log2_lt fitsA
  have hlogB : b.log2 < 53 := log2_lt fitsB
  obtain ⟨t, ht⟩ : ∃ t, t + a.log2 = 53 + b.log2 := ⟨53 + b.log2 - a.log2, by omega⟩
  obtain ⟨acc, exact_of, hdiv⟩ := div_finiteNat ha hb fitsA fitsB ht
  have hbits : (Float.ofNat a / Float.ofNat b).toBits.toNat = (UnpackedFloat.pack .binary64
      (roundWithAccuracy .binary64 .positive (a * 2 ^ t / b) (-t) acc)).toNat := by
    rw [← hdiv, ← unpack_ofNat ha fitsA, ← unpack_ofNat hb fitsB]
    rfl
  obtain ⟨lower, upper⟩ := shiftedQuotient_bounds ha hb ht
  -- at place `t` the quotient has 53 or 54 bits; in the second case rounding shifts one out
  by_cases wide : a * 2 ^ t / b < 2 ^ 53
  · have hpack := toNat_pack_roundWithAccuracy (k := 0) (e := -t) acc lower wide
      (by omega) (by omega)
    obtain ⟨above, below⟩ := roundedShift_bounds (a * 2 ^ t / b) 0 acc
    rw [Nat.pow_zero, Nat.div_one] at above below
    refine ⟨t, _, by omega, lower, wide, above, below, ?_, ?_⟩
    · intro whole
      have h := roundedShift_exact (a * 2 ^ t / b) 0
      rwa [Nat.pow_zero, Nat.mul_one, ← exact_of (Nat.mod_eq_zero_of_dvd whole)] at h
    · rw [hbits, ← Int.sub_zero (-(t : Int)), ← Int.natCast_zero, hpack]
      omega
  · obtain ⟨s, rfl⟩ : ∃ s, t = s + 1 := ⟨t - 1, by omega⟩
    have hhalf : a * 2 ^ (s + 1) / b / 2 ^ 1 = a * 2 ^ s / b := by
      rw [Nat.pow_succ, ← Nat.mul_assoc, Nat.div_div_eq_div_mul, Nat.pow_one,
        Nat.mul_div_mul_right _ _ Nat.two_pos]
    have hpack := toNat_pack_roundWithAccuracy (k := 1) (e := -s) acc (Nat.not_lt.mp wide) upper
      (by omega) (by omega)
    obtain ⟨above, below⟩ := roundedShift_bounds (a * 2 ^ (s + 1) / b) 1 acc
    rw [hhalf] at above below
    refine ⟨s, _, by omega, by omega, by omega, above, below, ?_, ?_⟩
    · intro whole
      obtain ⟨c, hc⟩ := whole
      have hdouble : a * 2 ^ (s + 1) = b * (c * 2 ^ 1) := by
        rw [Nat.pow_succ, ← Nat.mul_assoc, hc, Nat.pow_one, Nat.mul_assoc]
      rw [hdouble, Nat.mul_div_cancel_left _ hb, hc, Nat.mul_div_cancel_left _ hb,
        exact_of (hdouble ▸ Nat.mul_mod_right b _), roundedShift_exact]
    · rw [hbits, show -((s + 1 : Nat) : Int) = -(s : Int) - (1 : Nat) by omega, hpack]
      omega

end GeoDispatch.Double
