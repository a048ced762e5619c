import GeoDispatch.Proofs.Geohash.Cover
import Mathlib.Data.Finset.Prod

/-!
# The shape of the cover of a circle

There is one hash of a given length in each row and column (`Geohash.exists_of_place`), so the
hashes at most `L` rows and columns away from a hash fill a block: of the `2 * L + 1` rows
around its own those between the poles (`rowsNear`), and in each of them `2 * L + 1` columns,
which are different because even the coarsest hashes have eight columns (`columnsNear`).  The
cover of a circle is such a block in increasing order, however far outside the world its centre
may lie and whether or not its radius is defined (`cover_is_block`).
-/

namespace GeoDispatch

/-! ## Rows cut off at the poles, columns around the world -/

/-- The rows at most so many rows away from a row, without those beyond the poles. -/
def rowsNear (row rows : Nat) (layers : ℤ) : Finset Nat :=
  {r ∈ Finset.range rows | row - layers ≤ r ∧ r ≤ row + layers}

theorem mem_rowsNear {row rows r : Nat} {layers : ℤ} :
    r ∈ rowsNear row rows layers ↔ r < rows ∧ |(r : ℤ) - row| ≤ layers := by
  rw [rowsNear, Finset.mem_filter, Finset.mem_range, abs_le]
  refine and_congr_right' ?_
  constructor <;> rintro ⟨hlow, hhigh⟩ <;> constructor <;> linarith

/-- The columns at most so many columns away from a column, around the world. -/
def columnsNear (column columns : Nat) (layers : ℤ) : Finset ℤ :=
  (Finset.range (2 * layers + 1).toNat).image fun i : Nat =>
    ((column : ℤ) + (i - layers)) % columns

theorem mem_columnsNear {column columns : Nat} {layers c : ℤ} :
    c ∈ columnsNear column columns layers ↔
      ∃ δ : ℤ, |δ| ≤ layers ∧ c = (column + δ) % columns := by
  simp only [columnsNear, Finset.mem_image, Finset.mem_range, abs_le]
  constructor
  · rintro ⟨i, hi, rfl⟩
    exact ⟨i - layers, by omega, rfl⟩
  · rintro ⟨δ, hδ, rfl⟩
    refine ⟨(δ + layers).toNat, by omega, ?_⟩
    rw [Int.toNat_of_nonneg (by omega), add_sub_cancel_right]

/-- No column is met twice as long as the columns near a column are not all columns. -/
theorem card_columnsNear {column columns : Nat} {layers : ℤ} (pos : 0 ≤ layers)
    (enough : 2 * layers < columns) :
    ((columnsNear column columns layers).card : ℤ) = 2 * layers + 1 := by
  have inj : Set.InjOn (fun i : Nat => ((column : ℤ) + (i - layers)) % columns)
      (Finset.range (2 * layers + 1).toNat : Finset Nat) := by
    intro i hi j hj heq
    rw [Finset.mem_coe, Finset.mem_range] at hi hj
    have hdvd : (columns : ℤ) ∣ i - j := by
      have := Int.dvd_of_emod_eq_zero (Int.emod_eq_emod_iff_emod_sub_eq_zero.mp heq)
      rwa [add_sub_add_left_eq_sub, sub_sub_sub_cancel_right] at this
    have hzero : (i : ℤ) - j = 0 :=
      Int.eq_zero_of_abs_lt_dvd hdvd (abs_lt.mpr ⟨by omega, by omega⟩)
    omega
  rw [columnsNear, Finset.card_image_of_injOn inj, Finset.card_range,
    Int.toNat_of_nonneg (by omega)]

namespace Geohash

/-! ## A hash for each row and column -/

/-- **There is a hash in each row and column.** -/
theorem exists_of_place {h : Geohash} (adm : h.IsAdmissible) (wanted : Axis → Nat)
    (hwanted : ∀ a, wanted a < h.count a) :
    ∃ k : Geohash, k.length = h.length ∧ ∀ a, k.place a = wanted a := by
  -- the middle of the wanted box lies half a size above its lower end
  let q (a : Axis) : ℚ := -a.reach + 2 * a.reach * ((wanted a + 1 / 2) / h.count a)
  let p : Point ℚ := ⟨q .lat, q .lng⟩
  have hlen : (encode p h.length).length = h.length := (length_encode p h.length).trans adm.symm
  refine ⟨encode p h.length, hlen, fun a => ?_⟩
  have hreach := reach_pos a
  have hcount : (0 : ℚ) < h.count a := by exact_mod_cast h.count_pos a
  have hlt : (wanted a : ℚ) + 1 ≤ h.count a := by exact_mod_cast hwanted a
  have hlow : 0 ≤ ((wanted a : ℚ) + 1 / 2) / h.count a := by positivity
  have hhigh : ((wanted a : ℚ) + 1 / 2) / h.count a ≤ 1 := (div_le_one hcount).mpr (by linarith)
  have hq : p.clamped.along a = q a := by
    have halong : p.along a = q a := by cases a <;> rfl
    rw [Point.along_clamped, halong, min_eq_left, max_eq_right]
    · simp only [q]
      nlinarith
    · simp only [q]
      nlinarith
  have hx : (q a + a.reach) / (2 * a.reach) * h.count a = (wanted a : ℤ) + 1 / 2 := by
    simp only [q]
    field_simp
    push_cast
    ring
  have hfloor : ⌊((wanted a : ℤ) : ℚ) + 1 / 2⌋ = wanted a := by
    rw [Int.floor_intCast_add]
    norm_num
  have hplace : ((encode p h.length).place a : ℤ) = wanted a := by
    rw [place_encode, count_eq_of_length_eq hlen, hq, hx, hfloor]
    have := hwanted a
    omega
  exact_mod_cast hplace

/-- Any hash with a digit has at least eight columns. -/
theorem eight_le_count_lng {h : Geohash} (hlen : 1 ≤ h.length) : 8 ≤ h.count .lng := by
  rw [count_lng]
  exact Nat.pow_le_pow_right (show 0 < 2 by decide) (show 3 ≤ (5 * h.length + 1) / 2 by omega)

theorem IsAdmissible.one_le_length {h : Geohash} (adm : h.IsAdmissible) : 1 ≤ h.length := by
  rw [IsAdmissible, clampPrecision, minPrecision] at adm
  omega

/-- The text of a hash with an admissible number of digits is read back as the hash. -/
theorem IsAdmissible.parse_text {h : Geohash} (adm : h.IsAdmissible) : parse h.text = .ok h := by
  have htext := isHashText_encode (bounds ℚ h).center h.length
  rw [encode_center_bounds adm] at htext
  rw [(parse_eq_ok htext).1, digitsIn_text]

/-! ## The block around a hash -/

/-- The hashes around a hash are those in the rows and columns near its own. -/
theorem isAround_iff {h k : Geohash} {layers : ℤ} :
    h.IsAround layers k ↔
      k.length = h.length ∧ k.place .lat ∈ rowsNear (h.place .lat) (h.count .lat) layers ∧
        (k.place .lng : ℤ) ∈ columnsNear (h.place .lng) (h.count .lng) layers := by
  rw [mem_rowsNear, mem_columnsNear]
  constructor
  · rintro ⟨hlen, hrows, hcolumns⟩
    exact ⟨hlen, ⟨count_eq_of_length_eq hlen .lat ▸ k.place_lt_count .lat, hrows⟩, hcolumns⟩
  · rintro ⟨hlen, ⟨-, hrows⟩, hcolumns⟩
    exact ⟨hlen, hrows, hcolumns⟩

/-- Some hash around a hash lies in each row and column near it. -/
theorem exists_isAround {h : Geohash} (adm : h.IsAdmissible) {layers c : ℤ} {r : Nat}
    (hr : r ∈ rowsNear (h.place .lat) (h.count .lat) layers)
    (hc : c ∈ columnsNear (h.place .lng) (h.count .lng) layers) :
    ∃ k, h.IsAround layers k ∧ k.place .lat = r ∧ (k.place .lng : ℤ) = c := by
  have hpos : (0 : ℤ) < h.count .lng := by exact_mod_cast h.count_pos .lng
  obtain ⟨hc₀, hclt⟩ : 0 ≤ c ∧ c < h.count .lng := by
    obtain ⟨δ, -, rfl⟩ := mem_columnsNear.mp hc
    exact ⟨Int.emod_nonneg _ hpos.ne', Int.emod_lt_of_pos _ hpos⟩
  obtain ⟨k, hlen, hplace⟩ := exists_of_place adm
    (fun a => if a = .lat then r else c.toNat) fun a => by
      cases a with
      | lat => exact (mem_rowsNear.mp hr).1
      | lng => rw [if_neg (by decide)]; omega
  have hlat : k.place .lat = r := (hplace .lat).trans (if_pos rfl)
  have hlng : (k.place .lng : ℤ) = c := by
    rw [hplace, if_neg (by decide), Int.toNat_of_nonneg hc₀]
  refine ⟨k, isAround_iff.mpr ⟨hlen, ?_, ?_⟩, hlat, hlng⟩
  · rwa [hlat]
  · rwa [hlng]

/-- A list of all hashes around a hash, each once, has as many entries as there are rows and
columns near it. -/
theorem length_of_mem_iff_isAround {h : Geohash} (adm : h.IsAdmissible) {layers : ℤ}
    {hs : List Geohash} (nodup : hs.Nodup) (hmem : ∀ k, k ∈ hs ↔ h.IsAround layers k) :
    hs.length = (rowsNear (h.place .lat) (h.count .lat) layers).card *
      (columnsNear (h.place .lng) (h.count .lng) layers).card := by
  rw [← List.toFinset_card_of_nodup nodup, ← Finset.card_product]
  refine Finset.card_bij (fun k _ => (k.place .lat, (k.place .lng : ℤ))) ?_ ?_ ?_
  · intro k hk
    rw [List.mem_toFinset, hmem, isAround_iff] at hk
    exact Finset.mem_product.mpr hk.2
  · intro k hk m hm heq
    rw [List.mem_toFinset, hmem] at hk hm
    obtain ⟨hlat, hlng⟩ := Prod.mk.inj heq
    refine eq_of_place_eq (adm.of_length_eq hk.length_eq)
      (hk.length_eq.trans hm.length_eq.symm) fun a => ?_
    cases a with
    | lat => exact hlat
    | lng => exact_mod_cast hlng
  · rintro ⟨r, c⟩ hrc
    obtain ⟨hr, hc⟩ := Finset.mem_product.mp hrc
    obtain ⟨k, around, hlat, hlng⟩ := exists_isAround adm hr hc
    exact ⟨k, List.mem_toFinset.mpr ((hmem k).mpr around), Prod.ext hlat hlng⟩

/-! ## Covers of circles -/

theorem layers_bounds {α : Type} [Scalar α] (radius : α) :
    1 ≤ layers radius ∧ layers radius ≤ 2 := by
  rw [layers]
  split <;> decide

/-- **The cover of a circle is a block of hashes in increasing order.**  It holds exactly the
hashes of the precision of the radius whose rows and columns are at most one or two away from
those of the hash of the centre, so `2 * L + 1` in each row that the poles leave.  The texts of
the hash of the centre and of its neighbours are hashes, so none of them is missing for being
malformed. -/
theorem cover_is_block {α : Type} [Scalar α] (center : Point α) (radius : α) :
    let h := encode center (precisionForRadius radius)
    let L := layers radius
    ((coverCircle center radius).map text).Pairwise (· < ·) ∧
      (∀ k, k ∈ coverCircle center radius ↔
        k.length = precisionForRadius radius ∧ |(k.place .lat : ℤ) - h.place .lat| ≤ L ∧
          ∃ δ : ℤ, |δ| ≤ L ∧ (k.place .lng : ℤ) = (h.place .lng + δ) % h.count .lng) ∧
      ((coverCircle center radius).length : ℤ) =
        (2 * L + 1) * (rowsNear (h.place .lat) (h.count .lat) L).card ∧
      ∀ m ∈ h.block, parse m.text = .ok m := by
  intro h L
  have adm : h.IsAdmissible := isAdmissible_encode center _
  have hlen : h.length = precisionForRadius radius :=
    (length_encode center _).trans (clampPrecision_precisionForRadius radius)
  have sorted : ((coverCircle center radius).map text).Pairwise (· < ·) := pairwise_sorted _
  have nodup : (coverCircle center radius).Nodup :=
    (List.pairwise_map.mp sorted).imp fun hlt heq => hlt.ne (congrArg text heq)
  obtain ⟨hL₁, hL₂⟩ := layers_bounds radius
  refine ⟨sorted, fun k => ?_, ?_, fun m hm => ?_⟩
  · rw [mem_coverCircle_iff]
    exact ⟨fun hk => ⟨hk.length_eq.trans hlen, hk.rows, hk.columns⟩,
      fun ⟨hk, hrows, hcolumns⟩ => ⟨hk.trans hlen.symm, hrows, hcolumns⟩⟩
  · have columns := eight_le_count_lng adm.one_le_length
    rw [length_of_mem_iff_isAround adm nodup (mem_coverCircle_iff center radius), Nat.cast_mul,
      card_columnsNear (by omega) (by omega), mul_comm]
  · exact (adm.of_length_eq (isAround_of_mem_block hm).length_eq).parse_text

end Geohash

end GeoDispatch
