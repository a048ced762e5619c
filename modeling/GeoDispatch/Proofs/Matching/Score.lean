import GeoDispatch.Matching.Batch
import GeoDispatch.Proofs.Number.Double

/-! # Scores fall with the distance

The score of a driver who is `n` steps away is the double `1 / (1 + n)`.  Doubles round, but
for the step counts that occur, which have 32 bits, the quotients lie further apart than
rounding can move them.  So scores order drivers as the steps do
(`MatcherSettings.rank_score_lt_iff`), and equal scores mean equal distances
(`MatcherSettings.score_inj`).
-/

namespace GeoDispatch

namespace Double

/-- A larger divisor needs at least as many places. -/
theorem place_le {m n s t : Nat} (hm : 0 < m) (h : m < n) (upper : 2 ^ s / m < 2 ^ 53)
    (lower : 2 ^ 52 ≤ 2 ^ t / n) : s ≤ t := by
  refine Nat.le_of_not_lt fun hts => ?_
  have hdouble : 2 ^ (t + 1) ≤ 2 ^ s := Nat.pow_le_pow_right Nat.two_pos hts
  have hquot := Nat.div_mul_le_self (2 ^ t) n
  have hbig : 2 ^ 53 * m ≤ 2 ^ s := by
    calc 2 ^ 53 * m ≤ 2 * (2 ^ t / n * n) := by
          have := Nat.mul_le_mul lower (Nat.le_of_lt h)
          omega
      _ ≤ 2 ^ (t + 1) := by rw [Nat.pow_succ]; omega
      _ ≤ 2 ^ s := hdouble
  exact Nat.not_le_of_lt upper ((Nat.le_div_iff_mul_le hm).mpr hbig)

/-- At one place the quotients by two small divisors are two units apart. -/
theorem quotient_add_two_le {m n s : Nat} (hm : 0 < m) (h : m < n) (small : n ≤ 2 ^ 32)
    (lower : 2 ^ 52 ≤ 2 ^ s / n) : 2 ^ s / n + 2 ≤ 2 ^ s / m := by
  rw [Nat.le_div_iff_mul_le hm]
  calc (2 ^ s / n + 2) * m ≤ 2 ^ s / n * (m + 1) := by rw [Nat.add_mul, Nat.mul_add]; omega
    _ ≤ 2 ^ s / n * n := Nat.mul_le_mul_left _ h
    _ ≤ 2 ^ s := Nat.div_mul_le_self _ _

/-- The reciprocal of a small number is not so close below a power of two that rounding
could reach it. -/
theorem quotient_add_two_le_two_pow {n t : Nat} (hn : 1 < n) (small : n ≤ 2 ^ 32)
    (upper : 2 ^ t / n < 2 ^ 53) : 2 ^ t / n + 2 ≤ 2 ^ 53 := by
  refine Nat.le_of_not_lt fun close => ?_
  have hquot := Nat.div_mul_le_self (2 ^ t) n
  -- then `2 ^ t` would lie strictly between two neighbouring multiples of `2 ^ 53`
  have hlast : 2 ^ t / n = 2 ^ 53 - 1 := by omega
  rw [hlast] at hquot
  rw [Nat.div_lt_iff_lt_mul (by omega)] at upper
  have ht : 53 ≤ t := by
    refine Nat.le_of_not_lt fun ht => ?_
    have : 2 ^ t ≤ 2 ^ 52 := Nat.pow_le_pow_right Nat.two_pos (by omega)
    omega
  obtain ⟨j, rfl⟩ := Nat.exists_eq_add_of_le ht
  rw [Nat.pow_add] at hquot upper
  omega

/-- Reciprocals of natural numbers up to `2 ^ 32` are told apart by rounding. -/
theorem toBits_reciprocal_lt {m n : Nat} (hm : 0 < m) (h : m < n) (small : n ≤ 2 ^ 32) :
    (Float.ofNat 1 / Float.ofNat n).toBits.toNat <
      (Float.ofNat 1 / Float.ofNat m).toBits.toNat := by
  obtain ⟨s, p, hs, lower, upper, above, -, -, bits⟩ :=
    toBits_ofNat_div Nat.one_pos hm (by decide) (by omega)
  obtain ⟨t, q, ht, lower', upper', -, below, -, bits'⟩ :=
    toBits_ofNat_div Nat.one_pos (Nat.lt_trans hm h) (by decide) (by omega)
  rw [Nat.one_mul] at lower upper above lower' upper' below
  rw [bits, bits']
  rcases Nat.eq_or_lt_of_le (place_le hm h upper lower') with rfl | hst
  · have := quotient_add_two_le hm h small lower'
    omega
  · have := quotient_add_two_le_two_pow (by omega) small upper'
    omega

end Double

namespace MatcherSettings

theorem score_eq {n : Nat} (small : n < 2 ^ 32) :
    score n = .ofFloat (Float.ofNat 1 / Float.ofNat (n + 1)) := by
  have h := Double.ofNat_add (m := 1) (n := n) Nat.one_pos (by omega)
  rw [Nat.add_comm 1 n] at h
  exact congrArg (fun x => Score.ofFloat (Float.ofNat 1 / x)) h

theorem rank_score {n : Nat} (small : n < 2 ^ 32) :
    (score n).rank = (Float.ofNat 1 / Float.ofNat (n + 1)).toBits.toNat := by
  obtain ⟨s, m, hs, -, upper, -, below, -, bits⟩ :=
    Double.toBits_ofNat_div (b := n + 1) Nat.one_pos n.succ_pos (by decide) (by omega)
  rw [score_eq small, Score.rank, Score.ofFloat, totalKey]
  refine if_pos ?_
  dsimp only
  omega

/-- A driver who is fewer steps away scores higher. -/
theorem rank_score_lt_iff {m n : Nat} (hm : m < 2 ^ 32) (hn : n < 2 ^ 32) :
    (score n).rank < (score m).rank ↔ m < n := by
  have falls {m n : Nat} (hn : n < 2 ^ 32) (h : m < n) : (score n).rank < (score m).rank := by
    rw [rank_score hn, rank_score (Nat.lt_trans h hn)]
    exact Int.ofNat_lt.mpr (Double.toBits_reciprocal_lt m.succ_pos (Nat.succ_lt_succ h) hn)
  refine ⟨fun hlt => ?_, falls hn⟩
  rcases Nat.lt_trichotomy m n with h | rfl | h
  · exact h
  · exact absurd hlt (Int.lt_irrefl _)
  · exact absurd hlt (Int.lt_asymm (falls hm h))

/-- Drivers score the same only if they are as many steps away. -/
theorem score_inj {m n : Nat} (hm : m < 2 ^ 32) (hn : n < 2 ^ 32) :
    score m = score n ↔ m = n := by
  refine ⟨fun same => ?_, congrArg score⟩
  have hmn := rank_score_lt_iff hm hn
  have hnm := rank_score_lt_iff hn hm
  rw [same] at hmn hnm
  omega

end MatcherSettings

end GeoDispatch
