import GeoDispatch.Hex.Index
import GeoDispatch.Proofs.Sequence.Partial
import Mathlib.Data.List.Induction
import Mathlib.Tactic.Ring

/-! # The index of an address is read back

An index is a number in base eight below fields of higher bits.  Its last digits are those that
were written (`Address.octal_ofOctal`), whatever stands above them, and the fields above are
quotients and remainders by powers of two.  So the index of an address with at most fifteen digits
fits into 60 bits (`Address.index_lt`) and is read back as the address
(`Address.ofIndex?_index`).  Nor is any other number of 64 bits read as it
(`Address.index_of_ofIndex?`).
-/

namespace GeoDispatch

theorem Direction.toNat_of_ofNat? {n : Nat} {d : Direction} (h : ofNat? n = some d) :
    d.toNat = n := by
  obtain ⟨small, -⟩ := List.getElem?_eq_some_iff.mp h
  have numbers : ∀ n < all.length, ∀ d, ofNat? n = some d → d.toNat = n := by decide
  exact numbers n small d h

namespace Address

theorem ofOctal_concat (ds : List Nat) (d : Nat) : ofOctal (ds ++ [d]) = 8 * ofOctal ds + d := by
  rw [ofOctal, List.foldl_append]
  rfl

theorem ofOctal_lt {ds : List Nat} (small : ∀ d ∈ ds, d < 8) : ofOctal ds < 8 ^ ds.length := by
  induction ds using List.reverseRecOn with
  | nil => exact Nat.one_pos
  | append_singleton ds d ih =>
    have hds := ih fun d' hd' => small d' (List.mem_append_left _ hd')
    have hd := small d (List.mem_append_right _ List.mem_cons_self)
    rw [ofOctal_concat, List.length_append, List.length_singleton, Nat.pow_succ]
    omega

/-- The last digit is the remainder by eight. -/
theorem octal_succ (n value : Nat) : octal (n + 1) value = octal n (value / 8) ++ [value % 8] := by
  have shift (i : Nat) : value >>> (3 * (i + 1)) % 8 = (value / 8) >>> (3 * i) % 8 := by
    have hpow : 2 ^ (3 * (i + 1)) = 8 * 2 ^ (3 * i) := by ring
    rw [Nat.shiftRight_eq_div_pow, Nat.shiftRight_eq_div_pow, hpow, Nat.div_div_eq_div_mul]
  rw [octal, List.range_succ_eq_map, List.map_cons, List.map_map, List.reverse_cons]
  simp only [Function.comp_def, Nat.succ_eq_add_one, shift]
  rfl

theorem octal_ofOctal {ds : List Nat} (small : ∀ d ∈ ds, d < 8) (above : Nat) :
    octal ds.length (above * 8 ^ ds.length + ofOctal ds) = ds := by
  induction ds using List.reverseRecOn with
  | nil => rfl
  | append_singleton ds d ih =>
    have hd := small d (List.mem_append_right _ List.mem_cons_self)
    have hvalue : above * 8 ^ (ds.length + 1) + (8 * ofOctal ds + d) =
        8 * (above * 8 ^ ds.length + ofOctal ds) + d := by ring
    have hdiv : (8 * (above * 8 ^ ds.length + ofOctal ds) + d) / 8 =
        above * 8 ^ ds.length + ofOctal ds := by omega
    have hmod : (8 * (above * 8 ^ ds.length + ofOctal ds) + d) % 8 = d := by omega
    rw [List.length_append, List.length_singleton, ofOctal_concat, octal_succ, hvalue, hdiv, hmod,
      ih fun d' hd' => small d' (List.mem_append_left _ hd')]

theorem length_octal (n value : Nat) : (octal n value).length = n := by
  rw [octal, List.length_reverse, List.length_map, List.length_range]

/-- The last digits spell the number up to those above them. -/
theorem ofOctal_octal (n value : Nat) : ofOctal (octal n value) = value % 8 ^ n := by
  induction n generalizing value with
  | zero => rw [Nat.pow_zero, Nat.mod_one]; rfl
  | succ n ih =>
    rw [octal_succ, ofOctal_concat, ih, Nat.pow_succ, Nat.mul_comm (8 ^ n), Nat.mod_mul]
    omega

variable (c : Address)

/-- The digits of an index: those of the address, and blanks. -/
def indexDigits : List Nat :=
  c.digits.map Direction.toNat ++ List.replicate (maxLevel - c.level) blank

theorem indexDigits_lt : ∀ d ∈ c.indexDigits, d < 8 := by
  intro d hd
  rcases List.mem_append.mp hd with hd | hd
  · obtain ⟨e, -, rfl⟩ := List.mem_map.mp hd
    cases e <;> decide
  · rw [List.eq_of_mem_replicate hd]
    decide

variable {c} (served : c.level ≤ maxLevel)
include served

theorem length_indexDigits : c.indexDigits.length = maxLevel := by
  rw [indexDigits, List.length_append, List.length_map, List.length_replicate]
  change c.level + (maxLevel - c.level) = maxLevel
  omega

theorem index_eq : c.index =
    (2 ^ 14 + c.level * 2 ^ 7 + c.base.val) * 8 ^ c.indexDigits.length + ofOctal c.indexDigits := by
  rw [length_indexDigits served, index, indexDigits]
  simp only [Nat.shiftLeft_eq, maxLevel]
  omega

theorem index_lt : c.index < 2 ^ 60 := by
  have hdigits := ofOctal_lt c.indexDigits_lt
  have hbase := c.base.isLt
  rw [index_eq served]
  rw [length_indexDigits served] at hdigits ⊢
  simp only [maxLevel] at hdigits served ⊢
  omega

/-- The fields of an index above its digits. -/
theorem index_fields : reservedBits c.index = false ∧ c.index >>> 59 % 16 = 1 ∧
    c.index >>> 52 % 16 = c.level ∧ c.index >>> 45 % 128 = c.base.val := by
  have hdigits := ofOctal_lt c.indexDigits_lt
  have hbase := c.base.isLt
  have hindex := index_eq served
  rw [length_indexDigits served] at hdigits hindex
  simp only [maxLevel] at hdigits served hindex
  simp only [reservedBits, Nat.shiftRight_eq_div_pow, Bool.or_eq_false_iff, bne_eq_false_iff_eq]
  omega

theorem octal_index : octal maxLevel c.index = c.indexDigits := by
  rw [index_eq served, ← length_indexDigits served]
  exact octal_ofOctal c.indexDigits_lt _

/-- **An index is read back as its address.** -/
theorem ofIndex?_index : ofIndex? c.index = .ok c := by
  obtain ⟨reserved, mode, level, base⟩ := index_fields served
  have blanks : (c.indexDigits.drop c.level).any (· != blank) = false := by
    have hdrop : c.indexDigits.drop c.level = List.replicate (maxLevel - c.level) blank := by
      rw [indexDigits]
      exact List.drop_left' (List.length_map ..)
    rw [hdrop, List.any_replicate]
    simp
  have digits : (c.indexDigits.take c.level).mapM Direction.ofNat? = some c.digits := by
    have htake : c.indexDigits.take c.level = c.digits.map Direction.toNat := by
      rw [indexDigits]
      exact List.take_left' (List.length_map ..)
    have each : ∀ d ∈ c.digits, (Direction.ofNat? ∘ Direction.toNat) d = some (id d) :=
      fun d _ => Direction.ofNat?_toNat d
    rw [htake, List.mapM_map, mapM_eq_some_map each, List.map_id]
  have parts : ofParts? c.base c.digits = some c := dif_pos c.not_missing
  rw [ofIndex?, reserved, if_neg Bool.false_ne_true, if_neg (not_not.mpr mode)]
  simp only [base, level, octal_index served, blanks, digits, parts]
  simp

omit served

/-- The parts of a number that is read as an address. -/
theorem ofIndex?_eq_ok {value : Nat} (h : ofIndex? value = .ok c) :
    reservedBits value = false ∧ value >>> 59 % 16 = 1 ∧ value >>> 52 % 16 = c.level ∧
      value >>> 45 % 128 = c.base.val ∧ octal maxLevel value = c.indexDigits := by
  unfold ofIndex? at h
  dsimp only at h
  split_ifs at h with reserved mode base unused
  split at h
  · cases h
  · rename_i ds hds
    split at h
    · cases h
    · rename_i c' hparts
      obtain rfl := Except.ok.inj h
      unfold ofParts? at hparts
      split_ifs at hparts with allowed
      obtain rfl := Option.some.inj hparts
      have taken : ds.map Direction.toNat = (octal maxLevel value).take (value >>> 52 % 16) :=
        map_eq_of_mapM_eq_some hds fun _ _ => Direction.toNat_of_ofNat?
      have level : value >>> 52 % 16 = ds.length := by
        have length := congrArg List.length taken
        rw [List.length_map, List.length_take, length_octal, maxLevel] at length
        omega
      have dropped : (octal maxLevel value).drop ds.length =
          List.replicate (maxLevel - ds.length) blank := by
        rw [level] at unused
        refine List.eq_replicate_iff.mpr ⟨by rw [List.length_drop, length_octal], fun d hd => ?_⟩
        by_contra other
        exact unused (List.any_eq_true.mpr ⟨d, hd, bne_iff_ne.mpr other⟩)
      refine ⟨Bool.eq_false_iff.mpr reserved, not_not.mp mode, level, rfl, ?_⟩
      rw [indexDigits, taken, level]
      change _ = _ ++ List.replicate (maxLevel - ds.length) blank
      rw [← dropped, List.take_append_drop]

/-- **A number of 64 bits that is read as an address is its index.** -/
theorem index_of_ofIndex? {value : Nat} (h : ofIndex? value = .ok c) (fits : value < 2 ^ 64) :
    c.index = value := by
  obtain ⟨reserved, mode, level, base, digits⟩ := ofIndex?_eq_ok h
  have served : c.level ≤ maxLevel := by
    rw [← level, maxLevel]
    omega
  have spelled := ofOctal_octal maxLevel value
  rw [digits] at spelled
  have hindex := index_eq served
  rw [length_indexDigits served, spelled] at hindex
  simp only [maxLevel] at hindex
  simp only [reservedBits, Nat.shiftRight_eq_div_pow, Bool.or_eq_false_iff,
    bne_eq_false_iff_eq] at reserved mode level base
  omega

end Address

end GeoDispatch
