import GeoDispatch.Proofs.Number.Hexadecimal
import GeoDispatch.Proofs.Sequence.Partial
import Mathlib.Data.List.Induction
import Mathlib.Data.Nat.Digits.Defs

/-! # Spellings of a number in hexadecimal digits

Characters spell a number when each of them, in small letters, is one of the sixteen digits
(`Hexadecimal.read?_eq_some_iff`).  Without the zeros before them and in small letters they are the
digits of that number, or nothing when it is zero (`Hexadecimal.canonical_eq`).  So two spellings
have the same number exactly when they differ only in letter case and in the zeros before them
(`Hexadecimal.spelled_eq_iff`).
-/

namespace GeoDispatch

namespace Hexadecimal

/-- The digits in small letters, by their values. -/
def alphabet : List Char :=
  ['0', '1', '2', '3', '4', '5', '6', '7', '8', '9', 'a', 'b', 'c', 'd', 'e', 'f']

/-- The value of a digit in either case. -/
def place (c : Char) : Nat := alphabet.idxOf c.toLower

/-- The number that characters spell as digits to base sixteen, the highest digit first. -/
def spelled (cs : List Char) : Nat := Nat.ofDigits 16 (cs.reverse.map place)

/-- Characters in small letters, without the zeros before them. -/
def canonical (cs : List Char) : List Char := (cs.map Char.toLower).dropWhile (· == '0')

/-! ## Digits -/

theorem digit?_ascii : ∀ n < 128, digit? (Char.ofNat n) =
    if (Char.ofNat n).toLower ∈ alphabet then some (place (Char.ofNat n)) else none := by
  decide +kernel

theorem digit?_eq (c : Char) :
    digit? c = if c.toLower ∈ alphabet then some (place c) else none := by
  rcases Nat.lt_or_ge c.toNat 128 with ascii | large
  · have h := digit?_ascii c.toNat ascii
    rwa [Char.ofNat_toNat] at h
  · have above {b : Char} (hb : b.toNat < 128) : ¬ c ≤ b := by
      intro hc
      change c.toNat ≤ b.toNat at hc
      omega
    have lower : c.toLower = c :=
      dif_neg fun capital => above (by decide : 'Z'.toNat < 128) capital.2
    have small : alphabet.all (fun b => b.toNat < 128) := by decide
    have outside : c ∉ alphabet := by
      intro hc
      have := of_decide_eq_true (List.all_eq_true.mp small c hc)
      omega
    rw [digit?, if_neg fun h => above (by decide) h.2, if_neg fun h => above (by decide) h.2,
      if_neg fun h => above (by decide) h.2, lower, if_neg outside]

theorem place_lt {c : Char} (h : c.toLower ∈ alphabet) : place c < 16 :=
  List.idxOf_lt_length_iff.mpr h

theorem digitChar_place {c : Char} (h : c.toLower ∈ alphabet) :
    (place c).digitChar = c.toLower := by
  have table : alphabet.all (fun b => (alphabet.idxOf b).digitChar == b) := by decide
  exact beq_iff_eq.mp (List.all_eq_true.mp table _ h)

/-! ## Numbers -/

theorem spelled_concat (cs : List Char) (c : Char) :
    spelled (cs ++ [c]) = 16 * spelled cs + place c := by
  rw [spelled, List.reverse_append, List.reverse_singleton, List.singleton_append, List.map_cons,
    Nat.ofDigits_cons, Nat.add_comm]
  rfl

theorem value_map_place (cs : List Char) : value (cs.map place) = spelled cs := by
  induction cs using List.reverseRecOn with
  | nil => rfl
  | append_singleton cs c ih =>
    rw [spelled_concat, ← ih, List.map_append, value, List.foldl_append]
    rfl

/-- Characters are read as the number that they spell, when all of them are digits. -/
theorem read?_eq_some_iff {cs : List Char} {n : Nat} :
    read? cs = some n ↔ (∀ c ∈ cs, c.toLower ∈ alphabet) ∧ spelled cs = n := by
  have digits (h : ∀ c ∈ cs, c.toLower ∈ alphabet) : read? cs = some (spelled cs) := by
    have each : ∀ c ∈ cs, digit? c = some (place c) := fun c hc => by
      rw [digit?_eq, if_pos (h c hc)]
    rw [read?, mapM_eq_some_map each, Option.map_some, value_map_place]
  constructor
  · intro h
    have all : ∀ c ∈ cs, c.toLower ∈ alphabet := by
      intro c hc
      obtain ⟨ds, hds, -⟩ := Option.map_eq_some_iff.mp h
      obtain ⟨d, -, hd⟩ := exists_of_mapM_eq_some hds hc
      by_contra outside
      rw [digit?_eq, if_neg outside] at hd
      cases hd
    exact ⟨all, Option.some.inj ((digits all).symm.trans h)⟩
  · rintro ⟨all, rfl⟩
    exact digits all

theorem spelled_lt {cs : List Char} (h : ∀ c ∈ cs, c.toLower ∈ alphabet) :
    spelled cs < 16 ^ cs.length := by
  have small : ∀ d ∈ cs.reverse.map place, d < 16 := by
    intro d hd
    obtain ⟨c, hc, rfl⟩ := List.mem_map.mp hd
    exact place_lt (h c (List.mem_reverse.mp hc))
  have bound := Nat.ofDigits_lt_base_pow_length (by decide) small
  rwa [List.length_map, List.length_reverse] at bound

/-! ## Canonical spellings -/

theorem canonical_concat (cs : List Char) (c : Char) : canonical (cs ++ [c]) =
    if canonical cs = [] then canonical [c] else canonical cs ++ [c.toLower] := by
  rw [canonical, List.map_append, List.dropWhile_append]
  simp only [List.isEmpty_iff]
  rfl

theorem canonical_singleton {c : Char} (h : c.toLower ∈ alphabet) :
    canonical [c] = if place c = 0 then [] else [c.toLower] := by
  have zero : c.toLower = '0' ↔ place c = 0 := by
    constructor
    · intro hc
      rw [place, hc]
      rfl
    · intro hc
      rw [← digitChar_place h, hc]
      rfl
  simp only [canonical, List.map_cons, List.map_nil, List.dropWhile_cons, List.dropWhile_nil,
    beq_iff_eq, zero]

/-- What is left of a spelling are the digits of its number. -/
theorem canonical_eq {cs : List Char} (h : ∀ c ∈ cs, c.toLower ∈ alphabet) :
    canonical cs = if spelled cs = 0 then [] else Nat.toDigits 16 (spelled cs) := by
  induction cs using List.reverseRecOn with
  | nil => rfl
  | append_singleton cs c ih =>
    have hcs := ih fun b hb => h b (List.mem_append_left _ hb)
    have hc : c.toLower ∈ alphabet := h c (List.mem_append_right _ List.mem_cons_self)
    rw [canonical_concat, spelled_concat, hcs]
    by_cases zero : spelled cs = 0
    · rw [if_pos zero, if_pos rfl, zero, Nat.mul_zero, Nat.zero_add,
        Nat.toDigits_of_lt_base (place_lt hc), digitChar_place hc, canonical_singleton hc]
    · have last : Nat.toDigits 16 (place c) = [c.toLower] := by
        rw [Nat.toDigits_of_lt_base (place_lt hc), digitChar_place hc]
      rw [if_neg zero, if_neg Nat.toDigits_ne_nil, if_neg (by omega), ← last,
        Nat.toDigits_append_toDigits (by decide) (Nat.pos_of_ne_zero zero) (place_lt hc)]

/-- Small letters and zeros do not matter for the number. -/
theorem read?_canonical {cs : List Char} (h : ∀ c ∈ cs, c.toLower ∈ alphabet) :
    read? (canonical cs) = some (spelled cs) := by
  rw [canonical_eq h]
  split_ifs with zero
  · rw [zero]
    rfl
  · exact read?_toDigits _

/-- Two spellings have the same number exactly when they differ only in letter case and in the
zeros before them. -/
theorem spelled_eq_iff {cs ds : List Char} (hcs : ∀ c ∈ cs, c.toLower ∈ alphabet)
    (hds : ∀ d ∈ ds, d.toLower ∈ alphabet) :
    spelled cs = spelled ds ↔ canonical cs = canonical ds := by
  constructor
  · intro same
    rw [canonical_eq hcs, canonical_eq hds, same]
  · intro same
    have number := read?_canonical hcs
    rw [same, read?_canonical hds] at number
    exact (Option.some.inj number).symm

theorem mem_alphabet_of_mem_canonical {cs : List Char} (h : ∀ c ∈ cs, c.toLower ∈ alphabet)
    {d : Char} (hd : d ∈ canonical cs) : d ∈ alphabet := by
  obtain ⟨c, hc, rfl⟩ := List.mem_map.mp ((List.dropWhile_sublist _).mem hd)
  exact h c hc

theorem head?_canonical (cs : List Char) : (canonical cs).head? ≠ some '0' := by
  intro h
  have first := List.head?_dropWhile_not (· == '0') (cs.map Char.toLower)
  rw [← canonical, h] at first
  cases first

end Hexadecimal

end GeoDispatch
