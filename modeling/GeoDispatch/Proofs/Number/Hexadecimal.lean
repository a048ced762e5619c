import GeoDispatch.Number.Hexadecimal
import Mathlib.Tactic.IntervalCases
import Mathlib.Tactic.SplitIfs

/-! # Reading what was written in hexadecimal digits

The digits of a number are read back as the number (`Hexadecimal.read?_toDigits`).  The same
number is read when the digits are in capitals (`Hexadecimal.read?_toUpper`) or when zeros stand
before them (`Hexadecimal.read?_zeros`).
-/

namespace GeoDispatch

namespace Hexadecimal

theorem digit?_digitChar : ∀ n < 16, digit? n.digitChar = some n := by
  decide

/-- Capitals are read as small letters. -/
theorem digit?_toUpper {c : Char} {d : Nat} (h : digit? c = some d) :
    digit? c.toUpper = some d := by
  have range {a b : Char} (ha : a ≤ c) (hb : c ≤ b) :
      ∃ n, a.toNat ≤ n ∧ n ≤ b.toNat ∧ c = Char.ofNat n :=
    ⟨c.toNat, ha, hb, (Char.ofNat_toNat c).symm⟩
  rw [← h]
  unfold digit? at h
  split_ifs at h with decimal small capital
  · obtain ⟨n, lower, upper, rfl⟩ := range decimal.1 decimal.2
    change 48 ≤ n at lower
    change n ≤ 57 at upper
    interval_cases n <;> rfl
  · obtain ⟨n, lower, upper, rfl⟩ := range small.1 small.2
    change 97 ≤ n at lower
    change n ≤ 102 at upper
    interval_cases n <;> rfl
  · obtain ⟨n, lower, upper, rfl⟩ := range capital.1 capital.2
    change 65 ≤ n at lower
    change n ≤ 70 at upper
    interval_cases n <;> rfl

theorem read?_concat {cs : List Char} {c : Char} {n d : Nat} (hcs : read? cs = some n)
    (hc : digit? c = some d) : read? (cs ++ [c]) = some (16 * n + d) := by
  obtain ⟨ds, hds, rfl⟩ := Option.map_eq_some_iff.mp hcs
  have digits : (cs ++ [c]).mapM digit? = some (ds ++ [d]) := by
    rw [List.mapM_append, hds, List.mapM_cons, hc]
    rfl
  rw [read?, digits, Option.map_some, value, List.foldl_append]
  rfl

theorem read?_toDigits (n : Nat) : read? (Nat.toDigits 16 n) = some n := by
  induction n using Nat.strongRecOn with
  | _ n ih =>
    rcases Nat.lt_or_ge n 16 with small | large
    · have empty : read? [] = some 0 := rfl
      rw [Nat.toDigits_of_lt_base small, ← List.nil_append [n.digitChar],
        read?_concat empty (digit?_digitChar n small), Nat.mul_zero, Nat.zero_add]
    · rw [Nat.toDigits_of_base_le (by decide) large,
        read?_concat (ih (n / 16) (by omega)) (digit?_digitChar _ (Nat.mod_lt n (by decide))),
        Nat.div_add_mod]

theorem read?_toUpper {cs : List Char} {n : Nat} (h : read? cs = some n) :
    read? (cs.map Char.toUpper) = some n := by
  obtain ⟨ds, hds, rfl⟩ := Option.map_eq_some_iff.mp h
  have digits : (cs.map Char.toUpper).mapM digit? = some ds := by
    clear h
    induction cs generalizing ds with
    | nil => exact hds
    | cons c cs ih =>
      rw [List.mapM_cons] at hds
      obtain ⟨d, hd, hrest⟩ := Option.bind_eq_some_iff.mp hds
      obtain ⟨ds', hds', he⟩ := Option.bind_eq_some_iff.mp hrest
      cases he
      rw [List.map_cons, List.mapM_cons, digit?_toUpper hd, ih ds' hds']
      rfl
  rw [read?, digits, Option.map_some]

theorem read?_zeros {cs : List Char} {n : Nat} (h : read? cs = some n) (zeros : Nat) :
    read? (List.replicate zeros '0' ++ cs) = some n := by
  induction zeros with
  | zero => exact h
  | succ zeros ih =>
    obtain ⟨ds, hds, rfl⟩ := Option.map_eq_some_iff.mp ih
    rw [List.replicate_succ, List.cons_append, read?, List.mapM_cons, hds]
    rfl

end Hexadecimal

end GeoDispatch
