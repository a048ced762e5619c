import GeoDispatch.Proofs.Demand.Surge
import GeoDispatch.Proofs.Hex.Spelling
import Mathlib.Data.List.Nodup
import Mathlib.Data.Set.List
import Mathlib.Logic.Function.Basic

/-! # A heatmap is a map from cells to counts

What calls to a heatmap mean is a plain map from cells to counts: an update sets the counts of
the cell that its text spells, a clearing takes all counts away, and every other call leaves the
map alone (`HeatCall.carry`).  The heatmap itself keeps whole records under texts.  What a record
shows is all determined by the cell and its counts (`HeatCell.Describes`).  The heatmap represents
the map when the record under the text of a cell is the one computed from the cell's counts, and
no record stands under anything but the text of a cell (`Heatmap.Represents`).

One step preserves this (`Heatmap.Represents.apply`), since the text of a cell tells it apart from
all others, in whatever spelling the update came.  So after any calls the heatmap answers from the
last counts of every cell and from nothing else (`Heatmap.answers_from_last_counts`).
-/

namespace GeoDispatch

/-- The numbers of drivers and of requests in a cell. -/
structure Counts where
  drivers : Nat
  requests : Nat

/-- A call to a heatmap: an update of the cell with an address, a request for the cells of a
circle, or a clearing. -/
inductive HeatCall where
  | update (address : String) (n : Counts)
  | around (center : Point Float) (km : Float)
  | clear

namespace HeatCall

/-- The counts of all cells after a call, from those before it, on a grid of resolution `r`. -/
def carry (r : Resolution) (counts : Cell → Option Counts) : HeatCall → Cell → Option Counts
  | update address n =>
    match Cell.parse address with
    | .ok c => if c.resolution = r then Function.update counts c (some n) else counts
    | .error _ => counts
  | around _ _ => counts
  | clear => fun _ => none

variable {r : Resolution} {address : String}

theorem carry_update_of_cell {c : Cell} (parsed : Cell.parse address = .ok c)
    (own : c.resolution = r) (counts : Cell → Option Counts) (n : Counts) :
    carry r counts (update address n) = Function.update counts c (some n) := by
  unfold carry
  dsimp only
  rw [parsed]
  exact if_pos own

theorem carry_update_of_not_cell
    (passed : ∀ c, Cell.parse address = .ok c → c.resolution ≠ r)
    (counts : Cell → Option Counts) (n : Counts) : carry r counts (update address n) = counts := by
  unfold carry
  dsimp only
  cases parsed : Cell.parse address with
  | error e => rfl
  | ok c => exact if_neg (passed c parsed)

end HeatCall

/-- What a record shows of a cell with some counts: the text and the centre of the cell, the counts
with their surge and its colour, and scores, which are the counts in relation to those of a full
cell, and 1 for more. -/
structure HeatCell.Describes (h : HeatCell) (t : Tiling Cell) (s : HeatmapSettings) (c : Cell)
    (n : Counts) : Prop extends h.TellsSurge n.drivers n.requests where
  id_eq : h.id = c.text
  center_eq : h.center = t.center c
  demand_eq : h.demand = Scalar.minNum (Float.ofNat n.requests / s.demandNormalization) 1
  supply_eq : h.supply = Scalar.minNum (Float.ofNat n.drivers / s.supplyNormalization) 1

namespace Heatmap

/-- The heatmap after a call; a request that is refused leaves it alone. -/
def apply (m : Heatmap) : HeatCall → Heatmap
  | .update address n => (m.update address n.drivers n.requests).1
  | .around center km =>
    match m.around center km with
    | .ok (_, m') => m'
    | .error _ => m
  | .clear => m.clear

/-- The heatmap after calls. -/
def after (m : Heatmap) (calls : List HeatCall) : Heatmap := calls.foldl apply m

/-! ## Records -/

section

variable (t : Tiling Cell) (s : HeatmapSettings)

/-- The record that is computed from the counts of a cell. -/
def record (c : Cell) (n : Counts) : HeatCell := .ofCounts t s c n.drivers n.requests

/-- The record of a cell under its text. -/
def entry (e : Cell × Counts) : String × HeatCell := (e.1.text, record t s e.1 e.2)

theorem describes_record (c : Cell) (n : Counts) : (record t s c n).Describes t s c n where
  toTellsSurge := HeatCell.tellsSurge_ofCounts t s c n.drivers n.requests
  id_eq := rfl
  center_eq := rfl
  demand_eq := rfl
  supply_eq := rfl

/-- What is shown of a cell with some counts is the record that is computed from them. -/
theorem describes_iff {h : HeatCell} {c : Cell} {n : Counts} :
    h.Describes t s c n ↔ h = record t s c n := by
  constructor
  · intro d
    calc h = ⟨h.id, h.center, h.drivers, h.requests, h.demand, h.supply, h.surge, h.color⟩ := rfl
      _ = record t s c n := by
        rw [d.id_eq, d.center_eq, d.drivers_eq, d.requests_eq, d.demand_eq, d.supply_eq,
          d.surge_eq, d.color_eq]
        rfl
  · rintro rfl
    exact describes_record t s c n

theorem record_injective (c : Cell) : Function.Injective (record t s c) := by
  rintro ⟨drivers, requests⟩ ⟨drivers', requests'⟩ same
  obtain rfl : drivers = drivers' := congrArg HeatCell.drivers same
  obtain rfl : requests = requests' := congrArg HeatCell.requests same
  rfl

theorem entry_injective : Function.Injective (entry t s) := by
  rintro ⟨c, n⟩ ⟨c', n'⟩ same
  obtain rfl : c = c' := Cell.text_injective (congrArg Prod.fst same)
  obtain rfl : n = n' := record_injective t s c (congrArg Prod.snd same)
  rfl

end

/-! ## The invariant -/

/-- A heatmap over a grid represents counts: under the text of each cell stands the record of its
counts, and nothing stands under any other text. -/
structure Represents (g : Grid Cell) (s : HeatmapSettings) (counts : Cell → Option Counts)
    (m : Heatmap) : Prop where
  resolution_eq : m.grid.resolution = g.resolution
  tiling_eq : m.grid.tiling = g.tiling
  settings_eq : m.settings = s
  getElem?_text : ∀ c : Cell, m.records[c.text]? = (counts c).map (record g.tiling s c)
  exists_text_eq : ∀ key ∈ m.records, ∃ c : Cell, c.text = key
  foreign : ∀ c : Cell, c.resolution ≠ g.resolution → counts c = none

variable {g : Grid Cell} {s : HeatmapSettings} {counts : Cell → Option Counts} {m : Heatmap}

theorem represents_ofGrid (g : Grid Cell) (s : HeatmapSettings) :
    (ofGrid g s).Represents g s fun _ => none where
  resolution_eq := rfl
  tiling_eq := rfl
  settings_eq := rfl
  getElem?_text _ := Std.HashMap.getElem?_empty
  exists_text_eq _ hmem := absurd hmem Std.HashMap.not_mem_empty
  foreign _ _ := rfl

/-- An update whose text is no cell of the grid's resolution is passed over. -/
theorem update_of_not_cell {address : String}
    (passed : ∀ c, Cell.parse address = .ok c → c.resolution ≠ m.grid.resolution)
    (drivers requests : Nat) : (m.update address drivers requests).1 = m := by
  unfold update
  cases parsed : Cell.parse address with
  | error e => rfl
  | ok c =>
    dsimp only
    rw [if_pos (passed c parsed)]

/-- An update that names a cell of the grid's resolution puts the new record under its text. -/
theorem update_of_cell {address : String} {c : Cell} (parsed : Cell.parse address = .ok c)
    (own : c.resolution = m.grid.resolution) (n : Counts) :
    (m.update address n.drivers n.requests).1 =
      { m with records := m.records.insert c.text (record m.grid.tiling m.settings c n) } := by
  unfold update
  rw [parsed]
  dsimp only
  rw [if_neg (not_not.mpr own)]
  rfl

/-- A request changes nothing but the cache of the grid. -/
theorem apply_around (m : Heatmap) (center : Point Float) (km : Float) :
    ∃ cache, m.apply (.around center km) = { m with grid := { m.grid with cache } } := by
  unfold apply around Grid.cover
  dsimp only
  cases m.grid.cellOf center with
  | error e => exact ⟨_, rfl⟩
  | ok c => exact ⟨_, rfl⟩

namespace Represents

theorem insert (h : m.Represents g s counts) {c : Cell} (own : c.resolution = g.resolution)
    (n : Counts) :
    { m with records := m.records.insert c.text (record m.grid.tiling m.settings c n) }.Represents
      g s (Function.update counts c (some n)) where
  resolution_eq := h.resolution_eq
  tiling_eq := h.tiling_eq
  settings_eq := h.settings_eq
  getElem?_text d := by
    rw [Std.HashMap.getElem?_insert]
    by_cases same : c = d
    · subst same
      rw [if_pos (beq_self_eq_true _), Function.update_self, Option.map_some, h.tiling_eq,
        h.settings_eq]
    · -- the other cells keep their records, because their texts differ
      have apart : (c.text == d.text) = false :=
        beq_eq_false_iff_ne.mpr fun he => same (Cell.text_injective he)
      rw [apart, if_neg Bool.false_ne_true, Function.update_of_ne (Ne.symm same),
        h.getElem?_text]
  exists_text_eq key hmem := by
    rcases Std.HashMap.mem_insert.mp hmem with same | old
    · exact ⟨c, beq_iff_eq.mp same⟩
    · exact h.exists_text_eq key old
  foreign d other := by
    have apart : d ≠ c := fun he => other (he ▸ own)
    rw [Function.update_of_ne apart, h.foreign d other]

/-- **The step of the invariant.**  A call changes the heatmap as it changes the counts. -/
theorem apply (h : m.Represents g s counts) (call : HeatCall) :
    (m.apply call).Represents g s (call.carry g.resolution counts) := by
  cases call with
  | update address n =>
    change (m.update address n.drivers n.requests).1.Represents g s _
    by_cases named : ∃ c, Cell.parse address = .ok c ∧ c.resolution = g.resolution
    · obtain ⟨c, parsed, own⟩ := named
      rw [HeatCall.carry_update_of_cell parsed own,
        update_of_cell parsed (own.trans h.resolution_eq.symm)]
      exact h.insert own n
    · have passed : ∀ c, Cell.parse address = .ok c → c.resolution ≠ g.resolution :=
        fun c parsed own => named ⟨c, parsed, own⟩
      rw [HeatCall.carry_update_of_not_cell passed,
        update_of_not_cell (h.resolution_eq.symm ▸ passed)]
      exact h
  | around center km =>
    obtain ⟨cache, he⟩ := m.apply_around center km
    rw [he]
    exact { h with }
  | clear => exact { represents_ofGrid g s with
      resolution_eq := h.resolution_eq
      tiling_eq := h.tiling_eq
      settings_eq := h.settings_eq }

theorem after (h : m.Represents g s counts) (calls : List HeatCall) :
    (m.after calls).Represents g s (calls.foldl (HeatCall.carry g.resolution) counts) := by
  induction calls generalizing m counts with
  | nil => exact h
  | cons call calls ih => exact ih (h.apply call)

/-! ## What a heatmap answers -/

theorem get?_eq (h : m.Represents g s counts) (address : String) :
    m.get? address =
      match Cell.parse address with
      | .ok c => (counts c).map (record g.tiling s c)
      | .error _ => none := by
  unfold get?
  cases Cell.parse address with
  | error e => rfl
  | ok c => exact h.getElem?_text c

/-- The entries of a heatmap are those of its counts, one for each cell that has some. -/
theorem exists_toList_eq (h : m.Represents g s counts) :
    ∃ recorded : List (Cell × Counts),
      m.records.toList = recorded.map (entry g.tiling s) ∧
      (recorded.map Prod.fst).Nodup ∧
      ∀ c n, (c, n) ∈ recorded ↔ counts c = some n := by
  have entries : m.records.toList ∈ Set.range (List.map (entry g.tiling s)) := by
    rw [Set.range_list_map]
    rintro ⟨key, shown⟩ hmem
    have found := Std.HashMap.mem_toList_iff_getElem?_eq_some.mp hmem
    have hkey : key ∈ m.records := by
      rw [Std.HashMap.mem_iff_isSome_getElem?, found]
      rfl
    obtain ⟨c, rfl⟩ := h.exists_text_eq key hkey
    rw [h.getElem?_text] at found
    obtain ⟨n, -, rfl⟩ := Option.map_eq_some_iff.mp found
    exact ⟨(c, n), rfl⟩
  obtain ⟨recorded, toList_eq⟩ := entries
  refine ⟨recorded, toList_eq.symm, ?_, fun c n => ?_⟩
  · have keys : (recorded.map Prod.fst).map Cell.text = m.records.keys := by
      rw [← Std.HashMap.map_fst_toList_eq_keys, ← toList_eq, List.map_map, List.map_map]
      rfl
    exact List.Nodup.of_map _ (keys ▸ Std.HashMap.nodup_keys)
  · calc (c, n) ∈ recorded
        ↔ entry g.tiling s (c, n) ∈ recorded.map (entry g.tiling s) :=
          (List.mem_map_of_injective (entry_injective _ _)).symm
      _ ↔ m.records[c.text]? = some (record g.tiling s c n) := by
          rw [toList_eq]
          exact Std.HashMap.mem_toList_iff_getElem?_eq_some
      _ ↔ (counts c).map (record g.tiling s c) = (some n).map (record g.tiling s c) := by
          rw [h.getElem?_text, Option.map_some]
      _ ↔ counts c = some n :=
          (Option.map_injective (record_injective _ _ c)).eq_iff

/-- What is found under a text is described by the counts of the cell that the text spells. -/
theorem get?_eq_some_iff (h : m.Represents g s counts) {address : String} {found : HeatCell} :
    m.get? address = some found ↔ ∃ c n, Cell.parse address = .ok c ∧ counts c = some n ∧
      found.Describes g.tiling s c n := by
  rw [h.get?_eq]
  cases Cell.parse address with
  | error e => simp
  | ok c =>
    rw [Option.map_eq_some_iff]
    constructor
    · rintro ⟨n, hn, rfl⟩
      exact ⟨c, n, rfl, hn, describes_record g.tiling s c n⟩
    · rintro ⟨c', n, same, hn, describes⟩
      cases same
      exact ⟨n, hn, ((describes_iff _ _).mp describes).symm⟩

end Represents

/-- **A heatmap answers from the last counts of each cell.**  Counts of a cell describe exactly one
record.  After any updates, requests and clearings of a heatmap over a grid with nothing recorded, a
text that spells a cell, such as the text of the cell behind zeros or in capitals, finds the record
that is described by the counts which the cell got last since the last clearing, and nothing if it
got none.  Nothing is found under a text that spells no cell, or one of another resolution, and an
update with such a text changes nothing.  The recorded cells are exactly those with counts, each
listed once. -/
theorem answers_from_last_counts (g : Grid Cell) (s : HeatmapSettings) (calls : List HeatCall) :
    let m := (ofGrid g s).after calls
    let counts := calls.foldl (HeatCall.carry g.resolution) fun _ => none
    (∀ c n, ∃! h : HeatCell, h.Describes g.tiling s c n) ∧
    (∀ address h, m.get? address = some h ↔ ∃ c n, Cell.parse address = .ok c ∧
      counts c = some n ∧ h.Describes g.tiling s c n) ∧
    (∀ c address, c.SpelledBy address → Cell.parse address = .ok c ∧
      ∀ h, m.get? address = some h ↔ ∃ n, counts c = some n ∧ h.Describes g.tiling s c n) ∧
    (∀ (c : Cell) (zeros : Nat), zeros + c.text.length ≤ 16 →
      let padded := String.ofList (List.replicate zeros '0') ++ c.text
      c.SpelledBy padded ∧ c.SpelledBy padded.toUpper) ∧
    (∀ c, c.resolution ≠ g.resolution → counts c = none) ∧
    (∀ address, (∀ c, Cell.parse address = .ok c → c.resolution ≠ g.resolution) →
      m.get? address = none ∧ ∀ drivers requests, (m.update address drivers requests).1 = m) ∧
    ∃ recorded : List (Cell × Counts),
      (recorded.map Prod.fst).Nodup ∧
      (∀ c n, (c, n) ∈ recorded ↔ counts c = some n) ∧
      m.size = recorded.length ∧
      List.Forall₂ (fun e h => h.Describes g.tiling s e.1 e.2) recorded m.cells := by
  intro m counts
  have h : m.Represents g s counts := (represents_ofGrid g s).after calls
  obtain ⟨recorded, entries, nodup, hmem⟩ := h.exists_toList_eq
  refine ⟨fun c n => ?_, fun address found => h.get?_eq_some_iff, fun c address spelled => ?_,
    fun c zeros short => ?_, h.foreign, fun address passed => ⟨?_, ?_⟩,
    recorded, nodup, hmem, ?_, ?_⟩
  · exact ⟨record g.tiling s c n, describes_record _ _ c n, fun _ => (describes_iff _ _).mp⟩
  · have parsed := Cell.parse_of_spelledBy spelled
    refine ⟨parsed, fun found => ?_⟩
    rw [h.get?_eq_some_iff, parsed]
    simp only [Except.ok.injEq, exists_and_left, exists_eq_left']
  · have padded := c.spelledBy_text.zeros short
    exact ⟨padded, padded.toUpper⟩
  · refine Option.eq_none_iff_forall_ne_some.mpr fun found hfound => ?_
    obtain ⟨c, n, parsed, hn, -⟩ := h.get?_eq_some_iff.mp hfound
    rw [h.foreign c (passed c parsed)] at hn
    cases hn
  · exact update_of_not_cell (h.resolution_eq.symm ▸ passed)
  · rw [size, ← Std.HashMap.length_toList, entries, List.length_map]
  · rw [cells, entries, List.map_map, List.forall₂_map_right_iff]
    exact List.forall₂_same.mpr fun e _ => describes_record _ _ e.1 e.2

open Direction in
/-- The counts of an update in capitals behind a zero take the place of those before; two updates
whose texts spell no cell or a cell of another resolution do not. -/
theorem update_in_capitals_is_found :
    let c : Cell := ⟨⟨4, List.replicate 8 center, by decide⟩, .neighborhood, rfl⟩
    let t := Tiling.hexagonal .neighborhood
    let calls : List HeatCall := [.update "8808000001fffff" ⟨1, 4⟩,
      .update "08808000001FFFFF" ⟨2, 7⟩, .update "8808" ⟨0, 9⟩, .update "89080000003ffff" ⟨0, 9⟩]
    c.SpelledBy "8808000001FFFFF" ∧
      ∃ h, ((ofGrid (.ofSettings {} t) {}).after calls).get? "8808000001FFFFF" = some h ∧
        h.Describes t {} c ⟨2, 7⟩ ∧ h.id = "8808000001fffff" ∧ h.surge = 2 ∧ h.color = .red := by
  intro c t calls
  have capitals : c.SpelledBy "8808000001FFFFF" := ⟨by decide, by decide, by decide +kernel⟩
  have padded : Cell.parse "08808000001FFFFF" = .ok c :=
    Cell.parse_of_spelledBy ⟨by decide, by decide, by decide +kernel⟩
  have malformed : ∀ d, Cell.parse "8808" = .ok d → d.resolution ≠ .neighborhood := by
    have refused : (Cell.parse "8808").toOption = none := by decide +kernel
    intro d parsed
    rw [parsed] at refused
    cases refused
  have foreign : ∀ d, Cell.parse "89080000003ffff" = .ok d → d.resolution ≠ .neighborhood := by
    have block : (Cell.parse "89080000003ffff").toOption.map Cell.resolution = some .block := by
      decide +kernel
    intro d parsed own
    rw [parsed, Except.toOption, Option.map_some, own] at block
    cases block
  have last : calls.foldl (HeatCall.carry .neighborhood) (fun _ => none) c = some ⟨2, 7⟩ := by
    simp only [calls, List.foldl_cons, List.foldl_nil]
    rw [HeatCall.carry_update_of_not_cell foreign, HeatCall.carry_update_of_not_cell malformed,
      HeatCall.carry_update_of_cell padded rfl, Function.update_self]
  obtain ⟨unique, -, spelled, -⟩ := answers_from_last_counts (.ofSettings {} t) {} calls
  obtain ⟨h, describes, -⟩ := unique c ⟨2, 7⟩
  have surge : surgeLevel 2 7 = 2 := by decide +kernel
  refine ⟨capitals, h, ?_, describes, ?_, ?_, ?_⟩
  · exact ((spelled c _ capitals).2 h).mpr ⟨_, last, describes⟩
  · rw [describes.id_eq]
    decide +kernel
  · exact describes.surge_eq.trans surge
  · exact (describes.red (by decide)).mpr surge

end Heatmap

end GeoDispatch
