import GeoDispatch.Demand.Heatmap
import GeoDispatch.Proofs.Number.Order

/-! # Surge by whole numbers

The surge of a cell is read off a quotient of doubles, which is rounded.  But the thresholds 3, 2
and 1.5 are exact, and a quotient of numbers of 32 bits that is not equal to a threshold is
further away from it than rounding can move it.  So the quotient is above a threshold exactly when
a comparison of whole numbers says so (`Double.lt_ofNat_div_iff`), and the surge is one of four
steps (`SurgeStep.ofCounts`), which rise with the requests and fall with the drivers, from no
drivers on.  The record of a cell shows that surge, and a colour that tells the steps apart
(`HeatCell.TellsSurge`), though it reads the colour off the surge by thresholds of its own.
-/

namespace GeoDispatch

/-! ## Quotients and thresholds -/

namespace Double

open Float.Model Float.Model.UnpackedFloat

theorem toBits_ofNat_zero_div {b : Nat} (hb : 0 < b) (fits : b < 2 ^ 53) :
    (Float.ofNat 0 / Float.ofNat b).toBits.toNat = 0 := by
  have zero : (Float.ofNat 0).toModel.unpack = .zero .positive := rfl
  change (UnpackedFloat.pack .binary64 (.div .binary64 (Float.ofNat 0).toModel.unpack
    (Float.ofNat b).toModel.unpack)).toNat = 0
  rw [zero, unpack_ofNat hb fits]
  rfl

/-- Two multiples of a number are equal or at least that number apart. -/
theorem add_le_of_dvd_of_lt {g x y : Nat} (hx : g ∣ x) (hy : g ∣ y) (h : x < y) : x + g ≤ y := by
  have := Nat.le_of_dvd (Nat.sub_pos_of_lt h) (Nat.dvd_sub hy hx)
  omega

section

variable {a b m n s t : Nat} (hb : 0 < b)
include hb

/-- A quotient that has 53 bits at a place before `s` is above every threshold at `s`. -/
theorem lt_of_place_lt (h : t < s) (lower : 2 ^ 52 ≤ a * 2 ^ t / b) (hn : n < 2 ^ 53) :
    n * b < a * 2 ^ s :=
  calc n * b < 2 ^ 53 * b := Nat.mul_lt_mul_of_pos_right hn hb
    _ = 2 * (2 ^ 52 * b) := by ring
    _ ≤ 2 * (a * 2 ^ t / b * b) := Nat.mul_le_mul_left 2 (Nat.mul_le_mul_right b lower)
    _ ≤ 2 * (a * 2 ^ t) := Nat.mul_le_mul_left 2 (Nat.div_mul_le_self _ _)
    _ = a * 2 ^ (t + 1) := by ring
    _ ≤ a * 2 ^ s := Nat.mul_le_mul_left a (Nat.pow_le_pow_right Nat.two_pos h)

/-- A quotient that has 53 bits at a place after `s` only is below every threshold at `s`. -/
theorem le_of_lt_place (h : s < t) (upper : a * 2 ^ t / b < 2 ^ 53) (hn : 2 ^ 52 ≤ n) :
    a * 2 ^ s ≤ n * b := by
  refine Nat.le_of_mul_le_mul_left ?_ Nat.two_pos
  calc 2 * (a * 2 ^ s) = a * 2 ^ (s + 1) := by ring
    _ ≤ a * 2 ^ t := Nat.mul_le_mul_left a (Nat.pow_le_pow_right Nat.two_pos h)
    _ ≤ 2 ^ 53 * b := Nat.le_of_lt ((Nat.div_lt_iff_lt_mul hb).mp upper)
    _ = 2 * (2 ^ 52 * b) := by ring
    _ ≤ 2 * (n * b) := Nat.mul_le_mul_left 2 (Nat.mul_le_mul_right b hn)

/-- At the place of the threshold, rounding up does not leave it and rounding down does not reach
it. -/
theorem lt_rounded_iff (above : a * 2 ^ s / b ≤ m) (below : m ≤ a * 2 ^ s / b + 1)
    (exact_of : b ∣ a * 2 ^ s → m = a * 2 ^ s / b)
    (gap : n * b < a * 2 ^ s → n * b + b ≤ a * 2 ^ s) : n < m ↔ n * b < a * 2 ^ s := by
  constructor
  · intro h
    refine Nat.lt_of_not_le fun hle => ?_
    have hquot : a * 2 ^ s / b ≤ n := Nat.div_le_of_le_mul (Nat.mul_comm b _ ▸ hle)
    have heq : a * 2 ^ s / b = n := by omega
    -- then the quotient is the threshold, and it is not rounded
    have whole : a * 2 ^ s = b * n := by
      have := Nat.div_mul_le_self (a * 2 ^ s) b
      rw [heq] at this
      rw [Nat.mul_comm b]
      omega
    have := exact_of ⟨n, whole⟩
    omega
  · intro h
    have : n + 1 ≤ a * 2 ^ s / b := by
      rw [Nat.le_div_iff_mul_le hb, Nat.add_mul, Nat.one_mul]
      exact gap h
    omega

end

/-- The bits of a quotient are above those of the threshold `c * 2 ^ e / 2 ^ s` exactly when the
quotient itself is above it, as long as the divisor is at most `2 ^ e` and `2 ^ s`. -/
theorem lt_toBits_ofNat_div_iff {a b c e s : Nat} (hb : 0 < b) (fitsA : a < 2 ^ 53)
    (fitsB : b < 2 ^ 53) (hs : s ≤ 1074) (lower : 2 ^ 52 ≤ c * 2 ^ e) (upper : c * 2 ^ e < 2 ^ 53)
    {j : Nat} (hje : j ≤ e) (hjs : j ≤ s) (small : b ≤ 2 ^ j) :
    (1074 - s) * 2 ^ 52 + c * 2 ^ e < (Float.ofNat a / Float.ofNat b).toBits.toNat ↔
      c * 2 ^ e * b < a * 2 ^ s := by
  rcases Nat.eq_zero_or_pos a with rfl | ha
  · rw [toBits_ofNat_zero_div hb fitsB]
    omega
  obtain ⟨t, m, ht, lowQ, highQ, above, below, exact_of, bits⟩ :=
    toBits_ofNat_div ha hb fitsA fitsB
  rw [bits]
  rcases Nat.lt_trichotomy t s with hlt | rfl | hgt
  · exact iff_of_true (by omega) (lt_of_place_lt hb hlt lowQ upper)
  · have gap (h : c * 2 ^ e * b < a * 2 ^ t) : c * 2 ^ e * b + b ≤ a * 2 ^ t := by
      refine (Nat.add_le_add_left small _).trans (add_le_of_dvd_of_lt ?_ ?_ h)
      · exact ((Nat.pow_dvd_pow 2 hje).mul_left c).mul_right b
      · exact (Nat.pow_dvd_pow 2 hjs).mul_left a
    rw [Nat.add_lt_add_iff_left]
    exact lt_rounded_iff hb above below exact_of gap
  · exact iff_of_false (by omega) (Nat.not_lt.mpr (le_of_lt_place hb hgt highQ lower))

/-- A quotient of small numbers is above a threshold with few bits exactly when it is so without
rounding. -/
theorem lt_ofNat_div_iff {x : Float} {a b c e s : Nat}
    (threshold : x.toBits.toNat = (1074 - s) * 2 ^ 52 + c * 2 ^ e) (hs : s ≤ 1074)
    (lower : 2 ^ 52 ≤ c * 2 ^ e) (upper : c * 2 ^ e < 2 ^ 53) {j : Nat} (hje : j ≤ e) (hjs : j ≤ s)
    (hb : 0 < b) (fitsA : a < 2 ^ 53) (fitsB : b < 2 ^ 53) (small : b ≤ 2 ^ j) :
    x < Float.ofNat a / Float.ofNat b ↔ c * 2 ^ e * b < a * 2 ^ s := by
  have finite : (Float.ofNat a / Float.ofNat b).toBits.toNat < 2047 * 2 ^ 52 := by
    rcases Nat.eq_zero_or_pos a with rfl | ha
    · rw [toBits_ofNat_zero_div hb fitsB]
      decide
    · obtain ⟨t, m, -, -, highQ, -, below, -, bits⟩ := toBits_ofNat_div ha hb fitsA fitsB
      omega
  rw [← lt_toBits_ofNat_div_iff hb fitsA fitsB hs lower upper hje hjs small, ← threshold]
  exact lt_iff_toBits_lt (by omega) finite

end Double

/-! ## Steps of the surge -/

/-- The four steps of the surge. -/
inductive SurgeStep where
  | base | slight | strong | full
deriving DecidableEq

namespace SurgeStep

/-- The number of a step. -/
def rank : SurgeStep → Nat
  | base => 0
  | slight => 1
  | strong => 2
  | full => 3

/-- The surge of a step. -/
def level : SurgeStep → Float
  | base => baseSurge
  | slight => 1.25
  | strong => 1.5
  | full => 2

/-- The colour of a step. -/
def color : SurgeStep → SurgeColor
  | base => .green
  | slight => .yellow
  | strong => .orange
  | full => .red

/-- The step of a cell, by comparisons of whole numbers. -/
def ofCounts (drivers requests : Nat) : SurgeStep :=
  if 3 * drivers < requests then full
  else if 2 * drivers < requests then strong
  else if 3 * drivers < 2 * requests then slight
  else base

theorem level_le_level {a b : SurgeStep} (h : a.rank ≤ b.rank) : a.level ≤ b.level := by
  revert h
  cases a <;> cases b <;> decide

theorem level_injective : Function.Injective level := by
  intro a b
  cases a <;> cases b <;> decide

theorem color_injective : Function.Injective color := by
  intro a b
  cases a <;> cases b <;> decide

/-- The colours of the steps tell their surges apart. -/
theorem color_eq_iff (a b : SurgeStep) : a.color = b.color ↔ a.level = b.level :=
  color_injective.eq_iff.trans level_injective.eq_iff.symm

theorem color_ne_gray (a : SurgeStep) : a.color ≠ .gray := by
  cases a <;> decide

theorem color_ne_blue (a : SurgeStep) : a.color ≠ .blue := by
  cases a <;> decide

/-- More requests and fewer drivers never lower the step. -/
theorem rank_ofCounts_le {drivers drivers' requests requests' : Nat} (fewer : drivers' ≤ drivers)
    (more : requests ≤ requests') :
    (ofCounts drivers requests).rank ≤ (ofCounts drivers' requests').rank := by
  unfold ofCounts
  split_ifs <;> simp only [rank] <;> omega

/-- The surge of a step shows the colour of the step, unless the cell is gray. -/
theorem ofSurge_level (a : SurgeStep) (drivers requests : Nat) :
    SurgeColor.ofSurge a.level drivers requests =
      if drivers = 0 ∧ requests = 0 then .gray else a.color := by
  cases a <;> rfl

end SurgeStep

section

variable {drivers requests : Nat} (hd : drivers < 2 ^ 32) (hr : requests < 2 ^ 32)
include hd hr

/-- The quotient of two counts and a threshold `c * 2 ^ e / 2 ^ s`. -/
theorem lt_ratio_iff {x : Float} (c e s : Nat) (pos : 0 < drivers)
    (threshold : x.toBits.toNat = (1074 - s) * 2 ^ 52 + c * 2 ^ e)
    (fits : 51 ≤ e ∧ 51 ≤ s ∧ s ≤ 1074 ∧ 2 ^ 52 ≤ c * 2 ^ e ∧ c * 2 ^ e < 2 ^ 53) :
    x < Float.ofNat requests / Float.ofNat drivers ↔
      c * 2 ^ e * drivers < requests * 2 ^ s := by
  obtain ⟨he, hs, small, lower, upper⟩ := fits
  exact Double.lt_ofNat_div_iff threshold small lower upper he hs pos (by omega) (by omega)
    (by omega)

/-- The surge is that of the step by whole numbers. -/
theorem surgeLevel_eq_level :
    surgeLevel drivers requests = (SurgeStep.ofCounts drivers requests).level := by
  rw [surgeLevel]
  rcases Nat.eq_zero_or_pos drivers with rfl | pos
  · rcases Nat.eq_zero_or_pos requests with rfl | some
    · rfl
    · have full : SurgeStep.ofCounts 0 requests = .full := if_pos (by omega)
      rw [full, if_pos rfl, if_pos some]
      rfl
  · have three : 3 < Float.ofNat requests / Float.ofNat drivers ↔ 3 * drivers < requests :=
      (lt_ratio_iff hd hr 3 51 51 pos (by decide) (by decide)).trans (by omega)
    have two : 2 < Float.ofNat requests / Float.ofNat drivers ↔ 2 * drivers < requests :=
      (lt_ratio_iff hd hr 1 52 51 pos (by decide) (by decide)).trans (by omega)
    have half : 1.5 < Float.ofNat requests / Float.ofNat drivers ↔ 3 * drivers < 2 * requests :=
      (lt_ratio_iff hd hr 3 51 52 pos (by decide) (by decide)).trans (by omega)
    rw [if_neg (by omega), SurgeStep.ofCounts]
    simp only [three, two, half, apply_ite SurgeStep.level]
    rfl

end

/-- Every surge is that of a step, for counts of any size. -/
theorem exists_surgeLevel_eq_level (drivers requests : Nat) :
    ∃ a : SurgeStep, surgeLevel drivers requests = a.level := by
  unfold surgeLevel
  dsimp only
  split_ifs
  · exact ⟨.full, rfl⟩
  · exact ⟨.base, rfl⟩
  · exact ⟨.full, rfl⟩
  · exact ⟨.strong, rfl⟩
  · exact ⟨.slight, rfl⟩
  · exact ⟨.base, rfl⟩

/-! ## Records -/

namespace HeatCell

/-- What the record of a cell tells of its drivers and requests: how many there are, the surge that
follows from that, and a colour, which is gray when there are neither and else that of the surge. -/
structure TellsSurge (h : HeatCell) (drivers requests : Nat) : Prop where
  drivers_eq : h.drivers = drivers
  requests_eq : h.requests = requests
  surge_eq : h.surge = surgeLevel drivers requests
  gray : h.color = .gray ↔ drivers = 0 ∧ requests = 0
  not_blue : h.color ≠ .blue
  red : ¬(drivers = 0 ∧ requests = 0) → (h.color = .red ↔ surgeLevel drivers requests = 2)
  orange : ¬(drivers = 0 ∧ requests = 0) → (h.color = .orange ↔ surgeLevel drivers requests = 1.5)
  yellow : ¬(drivers = 0 ∧ requests = 0) → (h.color = .yellow ↔ surgeLevel drivers requests = 1.25)
  green : ¬(drivers = 0 ∧ requests = 0) → (h.color = .green ↔ surgeLevel drivers requests = 1)

/-- The record that is computed from counts tells their surge. -/
theorem tellsSurge_ofCounts (t : Tiling Cell) (s : HeatmapSettings) (c : Cell)
    (drivers requests : Nat) : (ofCounts t s c drivers requests).TellsSurge drivers requests := by
  obtain ⟨a, level⟩ := exists_surgeLevel_eq_level drivers requests
  have color : (ofCounts t s c drivers requests).color =
      if drivers = 0 ∧ requests = 0 then .gray else a.color := by
    rw [← SurgeStep.ofSurge_level, ← level, ofCounts]
  by_cases empty : drivers = 0 ∧ requests = 0
  · rw [if_pos empty] at color
    exact
      { drivers_eq := rfl
        requests_eq := rfl
        surge_eq := rfl
        gray := iff_of_true color empty
        not_blue := by rw [color]; decide
        red := fun occupied => absurd empty occupied
        orange := fun occupied => absurd empty occupied
        yellow := fun occupied => absurd empty occupied
        green := fun occupied => absurd empty occupied }
  · rw [if_neg empty] at color
    have step (b : SurgeStep) : (ofCounts t s c drivers requests).color = b.color ↔
        surgeLevel drivers requests = b.level := by
      rw [color, level]
      exact a.color_eq_iff b
    exact
      { drivers_eq := rfl
        requests_eq := rfl
        surge_eq := rfl
        gray := iff_of_false (by rw [color]; exact a.color_ne_gray) empty
        not_blue := by rw [color]; exact a.color_ne_blue
        red := fun _ => step .full
        orange := fun _ => step .strong
        yellow := fun _ => step .slight
        green := fun _ => step .base }

/-- The counts leave no choice of the colour. -/
theorem TellsSurge.color_eq {h : HeatCell} {drivers requests : Nat}
    (tells : h.TellsSurge drivers requests) :
    h.color = SurgeColor.ofSurge (surgeLevel drivers requests) drivers requests := by
  obtain ⟨a, level⟩ := exists_surgeLevel_eq_level drivers requests
  rw [level, SurgeStep.ofSurge_level]
  by_cases empty : drivers = 0 ∧ requests = 0
  · rw [if_pos empty]
    exact tells.gray.mpr empty
  · rw [if_neg empty]
    cases a with
    | base => exact (tells.green empty).mpr level
    | slight => exact (tells.yellow empty).mpr level
    | strong => exact (tells.orange empty).mpr level
    | full => exact (tells.red empty).mpr level

end HeatCell

/-- **The surge of a cell follows its counts.**  The quotient of the counts as doubles gives what
the whole numbers say without rounding.  The surge never falls when there are more requests and
never rises when there are more drivers, from no drivers on.  The record that is computed from the
counts shows them and this surge, and its colour tells it. -/
theorem surge_follows_counts (drivers requests : UInt32) :
    surgeLevel drivers.toNat requests.toNat =
        (if drivers.toNat = 0 then if 0 < requests.toNat then 2 else 1
        else if 3 * drivers.toNat < requests.toNat then 2
        else if 2 * drivers.toNat < requests.toNat then 1.5
        else if 3 * drivers.toNat < 2 * requests.toNat then 1.25
        else 1) ∧
      (∀ more : UInt32, requests ≤ more →
        surgeLevel drivers.toNat requests.toNat ≤ surgeLevel drivers.toNat more.toNat) ∧
      (∀ more : UInt32, drivers ≤ more →
        surgeLevel more.toNat requests.toNat ≤ surgeLevel drivers.toNat requests.toNat) ∧
      ∀ (t : Tiling Cell) (s : HeatmapSettings) (c : Cell),
        (HeatCell.ofCounts t s c drivers.toNat requests.toNat).TellsSurge drivers.toNat
          requests.toNat := by
  have hd : drivers.toNat < 2 ^ 32 := drivers.toNat_lt
  have hr : requests.toNat < 2 ^ 32 := requests.toNat_lt
  have surge := surgeLevel_eq_level hd hr
  refine ⟨?_, fun more hle => ?_, fun more hle => ?_, fun t s c => ?_⟩
  · rw [surge, SurgeStep.ofCounts]
    by_cases none : drivers.toNat = 0
    · rw [if_pos none, none]
      by_cases some : 0 < requests.toNat
      · rw [if_pos some, if_pos (by omega)]
        rfl
      · rw [if_neg some, if_neg (by omega), if_neg (by omega), if_neg (by omega)]
        rfl
    · simp only [if_neg none, apply_ite SurgeStep.level]
      rfl
  · rw [surge, surgeLevel_eq_level hd more.toNat_lt]
    have hle : requests.toNat ≤ more.toNat := UInt32.le_iff_toNat_le.mp hle
    exact SurgeStep.level_le_level (SurgeStep.rank_ofCounts_le le_rfl hle)
  · rw [surge, surgeLevel_eq_level more.toNat_lt hr]
    have hle : drivers.toNat ≤ more.toNat := UInt32.le_iff_toNat_le.mp hle
    exact SurgeStep.level_le_level (SurgeStep.rank_ofCounts_le hle le_rfl)
  · exact HeatCell.tellsSurge_ofCounts t s c _ _

/-- With two drivers the seventh request raises the surge from 1.5 to 2, and the record of the cell
turns from orange to red. -/
theorem six_then_seven_requests_to_two_drivers :
    let h (requests : Nat) :=
      HeatCell.ofCounts (.hexagonal .neighborhood) {} (.locate .neighborhood ⟨0, 0⟩) 2 requests
    (6 : UInt32) ≤ 7 ∧ surgeLevel 2 6 = 1.5 ∧ surgeLevel 2 7 = 2 ∧
      surgeLevel 2 6 ≤ surgeLevel 2 7 ∧ (h 6).color = .orange ∧ (h 7).color = .red := by
  intro h
  obtain ⟨six, rises, -, tells⟩ := surge_follows_counts 2 6
  obtain ⟨seven, -, -, tells'⟩ := surge_follows_counts 2 7
  have orange : (h 6).color = .orange := ((tells _ _ _).orange (by decide)).mpr six
  have red : (h 7).color = .red := ((tells' _ _ _).red (by decide)).mpr seven
  exact ⟨by decide, six, seven, rises 7 (by decide), orange, red⟩

end GeoDispatch
