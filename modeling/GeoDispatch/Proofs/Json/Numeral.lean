import GeoDispatch.Json.Decode
import GeoDispatch.Proofs.Number.Order

/-! # Numbers of a text are equal to themselves

A double is equal to itself unless it is undefined.  A numeral is read by multiplying or dividing
a natural number by powers of ten that are finite and not zero (`Numeral.isRegular_powerOfTen`),
and neither makes an undefined number of a defined one.  So every number that is read from a text
is equal to itself (`Decoder.beq_self_of_float`).  Doubles that are not finite have no numeral and
are written as null (`Value.ofFloat_of_isFinite_eq_false`).
-/

namespace GeoDispatch

namespace Double

open Float.Model Float.Model.UnpackedFloat

/-! ## Doubles that are not undefined -/

/-- Whether a double is finite and not zero. -/
def isRegular (x : Float) : Bool :=
  match x.toModel.unpack with
  | .finite .. => true
  | _ => false

/-- What is packed is undefined only if it was so before. -/
theorem isNaN_unpack_pack {u : UnpackedFloat} (h : u.isNaN = false) :
    (Float.Model.pack u).unpack.isNaN = false := by
  -- the exponent of all ones, which only infinities and undefined numbers have
  have defined (sign : Sign) {e : BitVec 11} (he : e ≠ -1#11) (m : BitVec 52) :
      (UnpackedFloat.unpack .binary64 (packComponents .binary64 sign e m)).isNaN = false := by
    simp only [UnpackedFloat.unpack, unpackExponent_packComponents, unpackMantissa_packComponents]
    rw [if_neg he]
    split_ifs <;> rfl
  have infinite (sign : Sign) :
      (UnpackedFloat.unpack .binary64 (packedInfinity .binary64 sign)).isNaN = false := by
    cases sign <;> rfl
  change (UnpackedFloat.unpack .binary64 (UnpackedFloat.pack .binary64 u)).isNaN = false
  cases u with
  | notANumber => cases h
  | infinity s => exact infinite s
  | zero s => exact defined s (by decide) _
  | finite s m e pos =>
    unfold UnpackedFloat.pack
    dsimp only
    split_ifs with overflow normal
    · exact infinite s
    · refine defined s (fun ones => overflow ?_) _
      have biased := congrArg BitVec.toNat ones
      rw [BitVec.toNat_ofNat] at biased
      change _ % 2 ^ 11 = 2 ^ 11 - 1 at biased
      change 2 ^ 11 ≤ _
      omega
    · exact defined s (by decide) _

theorem isNaN_roundWithAccuracy (sign : Sign) (m : Nat) (e : Int) (acc : Accuracy) :
    (roundWithAccuracy .binary64 sign m e acc).isNaN = false := by
  unfold roundWithAccuracy
  dsimp only
  split <;> rfl

theorem isNaN_normalize (m : Int) (e : Int) (sign : Sign) :
    (UnpackedFloat.normalize .binary64 m e sign).isNaN = false := by
  unfold UnpackedFloat.normalize
  split
  · exact isNaN_roundWithAccuracy ..
  · rfl
  · exact isNaN_roundWithAccuracy ..

theorem exists_finite_of_isRegular {y : Float} (h : isRegular y) :
    ∃ s m e pos, y.toModel.unpack = .finite s m e pos := by
  unfold isRegular at h
  split at h
  · exact ⟨_, _, _, _, ‹_›⟩
  · cases h

theorem isNaN_mul {x y : Float} (hx : x.isNaN = false) (hy : isRegular y) :
    (x * y).isNaN = false := by
  obtain ⟨s, m, e, pos, finite⟩ := exists_finite_of_isRegular hy
  change x.toModel.unpack.isNaN = false at hx
  change (Float.Model.pack (.mul .binary64 x.toModel.unpack y.toModel.unpack)).unpack.isNaN = false
  rw [finite]
  refine isNaN_unpack_pack ?_
  cases hu : x.toModel.unpack with
  | notANumber => rw [hu] at hx; cases hx
  | infinity | zero => rfl
  | finite => exact isNaN_roundWithAccuracy ..

theorem isNaN_div {x y : Float} (hx : x.isNaN = false) (hy : isRegular y) :
    (x / y).isNaN = false := by
  obtain ⟨s, m, e, pos, finite⟩ := exists_finite_of_isRegular hy
  change x.toModel.unpack.isNaN = false at hx
  change (Float.Model.pack (.div .binary64 x.toModel.unpack y.toModel.unpack)).unpack.isNaN = false
  rw [finite]
  refine isNaN_unpack_pack ?_
  cases hu : x.toModel.unpack with
  | notANumber => rw [hu] at hx; cases hx
  | infinity | zero => rfl
  | finite => exact isNaN_roundWithAccuracy ..

theorem isNaN_neg {x : Float} (hx : x.isNaN = false) : (-x).isNaN = false := by
  refine isNaN_unpack_pack ?_
  change x.toModel.unpack.isNaN = false at hx
  cases hv : x.toModel.unpack with
  | notANumber => rw [hv] at hx; cases hx
  | infinity | zero | finite => rfl

theorem isNaN_ofScientific (m : Nat) (e : Int) :
    (UnpackedFloat.ofScientific .binary64 m e).isNaN = false := by
  unfold UnpackedFloat.ofScientific
  split_ifs
  · rfl
  · rfl
  · rfl
  · rw [UnpackedFloat.mul]
    exact isNaN_roundWithAccuracy ..
  · rw [UnpackedFloat.div]
    exact isNaN_roundWithAccuracy ..

theorem isNaN_ofNat (n : Nat) : (Float.ofNat n).isNaN = false := by
  change (Float.ofScientific n false 0).isNaN = false
  unfold Float.ofScientific
  split
  · have one : isRegular (Float.ofBits 0x3FF0000000000000) := rfl
    exact isNaN_mul (isNaN_unpack_pack (isNaN_normalize ..)) one
  · exact isNaN_unpack_pack (isNaN_ofScientific ..)

theorem isRegular_pack {m : Nat} {e : Int} {pos : 0 < m} (lower : 2 ^ 52 ≤ m) (upper : m < 2 ^ 53)
    (he : -1074 ≤ e) (he' : e ≤ 970) :
    isRegular (.ofModel (.pack (.finite .positive m e pos))) := by
  rw [isRegular, unpack_pack pos lower upper he he']

theorem isRegular_pack_roundWithAccuracy {q k : Nat} {e : Int} (acc : Accuracy)
    (lower : 2 ^ (52 + k) ≤ q) (upper : q < 2 ^ (53 + k)) (he : -1074 ≤ e) (he' : e < 970) :
    isRegular (.ofModel (.pack (roundWithAccuracy .binary64 .positive q (e - k) acc))) := by
  obtain ⟨above, below⟩ := roundedShift_bounds q k acc
  have hlower : 2 ^ 52 ≤ q / 2 ^ k := by
    rwa [Nat.le_div_iff_mul_le (Nat.two_pow_pos k), ← Nat.pow_add]
  have hupper : q / 2 ^ k < 2 ^ 53 := by
    rwa [Nat.div_lt_iff_lt_mul (Nat.two_pow_pos k), ← Nat.pow_add]
  by_cases fits : roundedShift q k acc < 2 ^ 53
  · rw [roundWithAccuracy_of_lt .positive acc lower upper he rfl fits (by omega)]
    exact isRegular_pack (by omega) fits he (by omega)
  · rw [roundWithAccuracy_of_eq .positive acc lower upper he (by omega)]
    exact isRegular_pack (Nat.le_refl _) (by decide) (by omega) (by omega)

theorem beq_self {x : Float} (hx : x.isNaN = false) : (x == x) = true := by
  change x.toModel.unpack.isNaN = false at hx
  change (x.toModel.unpack.compare x.toModel.unpack == some .eq) = true
  cases hv : x.toModel.unpack with
  | notANumber => rw [hv] at hx; cases hx
  | infinity s => cases s <;> rfl
  | zero => rfl
  | finite s m e => cases s <;> simp [UnpackedFloat.compare]

end Double

namespace Json

/-- Doubles that are not finite are written as null. -/
theorem Value.ofFloat_of_isFinite_eq_false {x : Float} (h : x.isFinite = false) :
    ofFloat x = .null := by
  have ones : x.toBits.toNat >>> 52 % 2048 = 2047 := by
    rw [Nat.shiftRight_eq_div_pow]
    exact Double.exponent_of_isFinite_eq_false h
  rw [ofFloat, Shortest.literal, Binary.ofFloat, Binary.ofBits]
  simp only [ones, if_true]
  split_ifs
  · rfl
  · rfl

namespace Numeral

open Float.Model Float.Model.UnpackedFloat

/-- Beyond the powers that are tabled, a power of ten is rounded to 53 bits. -/
theorem powerOfTen_eq {n : Nat} (large : 22 < n) (small : n ≤ greatestPower) :
    powerOfTen n = .ofModel (.pack (roundWithAccuracy .binary64 .positive
      (2 ^ 53 * 10 ^ n) (-53) .exact)) := by
  change Float.ofScientific 1 false n = _
  rw [Float.ofScientific, dif_neg (by omega)]
  change Float.ofModel (.pack (.ofScientific .binary64 1 n)) = _
  have range : ¬ (n : Int) > 2 ^ Format.binary64.exponentBits ∧
      ¬ (n : Int) < -((2 ^ Format.binary64.exponentBits : Int) + Nat.log2 1) := by
    have bits : (2 : Int) ^ Format.binary64.exponentBits = 2048 := rfl
    simp only [greatestPower] at small
    omega
  rw [UnpackedFloat.ofScientific, dif_neg (by decide), if_neg range.1, if_neg range.2,
    if_pos (Int.natCast_nonneg n), UnpackedFloat.mul]
  rfl

theorem isRegular_powerOfTen {n : Nat} (small : n ≤ greatestPower) :
    Double.isRegular (powerOfTen n) := by
  have tabled : ∀ n ≤ 22, Double.isRegular (powerOfTen n) := by decide +kernel
  have greatest : Double.isRegular (powerOfTen greatestPower) := by decide +kernel
  rcases Nat.lt_or_ge 22 n with large | tiny
  · rcases Nat.eq_or_lt_of_le small with rfl | below
    · exact greatest
    · have pos : 10 ^ n ≠ 0 := pow_ne_zero n (by decide)
      have bound : (10 ^ n).log2 < 1020 := by
        have below : n ≤ 307 := Nat.le_of_lt_succ below
        rw [Nat.log2_lt pos]
        exact Nat.lt_of_le_of_lt (Nat.pow_le_pow_right (by decide) below) (by decide +kernel)
      have exponent : (-53 : Int) = ((10 ^ n).log2 - 52 : Int) - ((10 ^ n).log2 + 1 : Nat) := by
        omega
      have lower : 2 ^ (52 + ((10 ^ n).log2 + 1)) ≤ 2 ^ 53 * 10 ^ n := by
        rw [Nat.add_comm _ 1, ← Nat.add_assoc, Nat.pow_add]
        exact Nat.mul_le_mul_left _ (Nat.log2_self_le pos)
      have upper : 2 ^ 53 * 10 ^ n < 2 ^ (53 + ((10 ^ n).log2 + 1)) := by
        rw [Nat.pow_add]
        exact Nat.mul_lt_mul_of_pos_left Nat.lt_log2_self (by decide)
      rw [powerOfTen_eq large small, exponent]
      exact Double.isRegular_pack_roundWithAccuracy .exact lower upper (by omega) (by omega)
  · exact tabled n tiny

theorem isNaN_scale? {fuel : Nat} {x y : Float} {e : Int} (hx : x.isNaN = false)
    (h : scale? fuel x e = some y) : y.isNaN = false := by
  fun_induction scale? fuel x e with
  | case1 => cases h
  | case2 fuel x e near up z finite =>
    rw [← Option.some.inj h]
    exact Double.isNaN_mul hx (isRegular_powerOfTen near)
  | case3 fuel x e near down =>
    cases h
    exact Double.isNaN_div hx (isRegular_powerOfTen near)
  | case4 | case6 =>
    cases h
    exact hx
  | case5 => cases h
  | case7 x e far nonzero down fuel ih =>
    exact ih (Double.isNaN_div hx (isRegular_powerOfTen (Nat.le_refl _))) h

theorem isNaN_toFloat? {n : Numeral} {x : Float} (h : n.toFloat? = some x) :
    x.isNaN = false := by
  obtain ⟨y, hy, rfl⟩ := Option.map_eq_some_iff.mp h
  have defined := isNaN_scale? (Double.isNaN_ofNat _) hy
  split
  · exact Double.isNaN_neg defined
  · exact defined

end Numeral

theorem Decoder.beq_self_of_float {v : Value} {x : Float} (h : Decoder.float v = some x) :
    (x == x) = true := by
  cases v with
  | number s =>
    obtain ⟨n, -, hx⟩ := Option.bind_eq_some_iff.mp h
    exact Double.beq_self (Numeral.isNaN_toFloat? hx)
  | null | bool | text | array | object => cases h

end Json

end GeoDispatch
