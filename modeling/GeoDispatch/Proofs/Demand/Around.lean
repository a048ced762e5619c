import GeoDispatch.Proofs.Demand.Counts
import GeoDispatch.Proofs.Grid.Cache
import GeoDispatch.Proofs.Hex.Disk

/-! # What a heatmap shows around a point

A request covers a circle by cells, through the cache of the grid, and shows one entry for each of
them.  Three things meet in it: the cache, which holds nothing but disks of the tiling whatever was
asked before (`Heatmap.faithful_after`); the text of a covered cell; and the text under which an
update recorded the cell, in whatever spelling the update came.  Both texts are the canonical one,
so a covered cell shows its record if it has one and an empty entry if not
(`Heatmap.Represents.shown_eq_get?`).

The entries are therefore those of the cover, in its order, and they depend on the updates and
clearings alone (`Heatmap.around_shows_each_covered_cell`).
-/

namespace GeoDispatch

namespace HeatCall

/-- Whether a call only asks. -/
def isRequest : HeatCall → Bool
  | around _ _ => true
  | _ => false

/-- Requests have no part in the counts. -/
theorem foldl_carry_filter (r : Resolution) (calls : List HeatCall)
    (counts : Cell → Option Counts) :
    (calls.filter (!·.isRequest)).foldl (carry r) counts = calls.foldl (carry r) counts := by
  rw [List.foldl_filter]
  congr 1
  funext counts call
  cases call <;> rfl

end HeatCall

namespace Heatmap

/-! ## The cache -/

/-- An update leaves the grid alone. -/
theorem grid_update (m : Heatmap) (address : String) (drivers requests : Nat) :
    (m.update address drivers requests).1.grid = m.grid := by
  unfold update
  split
  · rfl
  · split <;> rfl

theorem faithful_apply {m : Heatmap} (h : m.grid.Faithful) (call : HeatCall) :
    (m.apply call).grid.Faithful := by
  cases call with
  | update address n =>
    change (m.update address n.drivers n.requests).1.grid.Faithful
    rwa [grid_update]
  | around center km =>
    unfold apply around Grid.cover
    dsimp only
    cases m.grid.cellOf center with
    | error e => exact h
    | ok c => exact Grid.faithful_disk h c _
  | clear => exact h

theorem faithful_after {m : Heatmap} (h : m.grid.Faithful) (calls : List HeatCall) :
    (m.after calls).grid.Faithful := by
  induction calls generalizing m with
  | nil => exact h
  | cons call calls ih => exact ih (faithful_apply h call)

/-! ## The entries -/

section

variable {g : Grid Cell} {s : HeatmapSettings} {counts : Cell → Option Counts} {m : Heatmap}

theorem get?_text (m : Heatmap) (c : Cell) : m.get? c.text = m.records[c.text]? := by
  rw [get?, c.parse_text]

/-- A cell shows the record of its counts, or nothing but its place. -/
theorem Represents.shown_eq (h : m.Represents g s counts) (c : Cell) :
    m.shown c = ((counts c).map (record g.tiling s c)).getD (.blank g.tiling c) := by
  rw [shown, h.getElem?_text, h.tiling_eq]

theorem Represents.shown_eq_get? (h : m.Represents g s counts) (c : Cell) :
    m.shown c = (m.get? c.text).getD (.blank g.tiling c) := by
  rw [shown, get?_text, h.tiling_eq]

theorem Represents.id_shown (h : m.Represents g s counts) (c : Cell) :
    (m.shown c).id = c.text := by
  rw [h.shown_eq]
  cases counts c <;> rfl

theorem Represents.center_shown (h : m.Represents g s counts) (c : Cell) :
    (m.shown c).center = g.tiling.center c := by
  rw [h.shown_eq]
  cases counts c <;> rfl

/-- A request around a point without a cell is refused. -/
theorem Represents.around_of_error (h : m.Represents g s counts) {center : Point Float}
    {e : GeoError} (out : g.tiling.cellOf center = .error e) (km : Float) :
    m.around center km = .error e := by
  rw [around, Grid.cover, Grid.cellOf, h.tiling_eq, out]
  rfl

/-- The entries around a point are those of the disk of the tiling around its cell. -/
theorem Represents.around_of_ok (h : m.Represents g s counts) (faithful : m.grid.Faithful)
    {center : Point Float} {o : Cell} (inside : g.tiling.cellOf center = .ok o) (km : Float) :
    ∃ m', m.around center km =
      .ok ((g.tiling.disk o (ringsForRadius km g.resolution)).map m.shown, m') := by
  have cells := Grid.disk_fst faithful o (ringsForRadius km g.resolution)
  rw [h.tiling_eq] at cells
  rw [around, Grid.cover, Grid.cellOf, h.tiling_eq, inside, h.resolution_eq, ← cells]
  exact ⟨_, rfl⟩

/-- Heatmaps of the same counts show the same around every point. -/
theorem Represents.around_congr {g' : Grid Cell} {m' : Heatmap} (h : m.Represents g s counts)
    (h' : m'.Represents g' s counts) (tiling_eq : g'.tiling = g.tiling)
    (resolution_eq : g'.resolution = g.resolution) (faithful : m.grid.Faithful)
    (faithful' : m'.grid.Faithful) (center : Point Float) (km : Float) :
    (m'.around center km).map Prod.fst = (m.around center km).map Prod.fst := by
  have shown_eq : m'.shown = m.shown := by
    funext c
    rw [h.shown_eq, h'.shown_eq, tiling_eq]
  cases place : g.tiling.cellOf center with
  | error e => rw [h.around_of_error place, h'.around_of_error (tiling_eq ▸ place)]
  | ok o =>
    obtain ⟨_, answer⟩ := h.around_of_ok faithful place km
    obtain ⟨_, answer'⟩ := h'.around_of_ok faithful' (tiling_eq ▸ place) km
    rw [answer, answer', tiling_eq, resolution_eq, shown_eq]
    rfl

end

/-- **A heatmap shows each covered cell once.**  After any updates, requests and clearings, a
request around a point is refused exactly when the point is out of range.  Otherwise it shows one
entry for every cell of the cover, in its order, under the text and with the centre of the cell:
the record that is found under this text, which is the one of the counts that the cell got last
since the last clearing, or an empty gray entry if there are none.  So no two entries are about
one cell, no recorded cell of the cover is left out, and none outside it is shown.  Earlier
requests and the capacity of the cache make no difference. -/
theorem around_shows_each_covered_cell {t : Tiling Cell}
    (located : ∀ p, p.isValid → (t.locate? p).isSome) (distinct : ∀ c k, (t.disk c k).Nodup)
    (gs : GridSettings) (s : HeatmapSettings) (calls : List HeatCall) (center : Point Float)
    (km : Float) :
    let m := (ofGrid (.ofSettings gs t) s).after calls
    let counts := calls.foldl (HeatCall.carry gs.resolution) fun _ => none
    (center.isValid = false →
      m.around center km = .error (.invalidCoordinates center.lat center.lng)) ∧
    (center.isValid = true → ∃ cells shown m',
      t.cover gs.resolution center km = .ok cells ∧
      m.around center km = .ok (shown, m') ∧
      shown = cells.map (fun c => (m.get? c.text).getD
        { id := c.text, center := t.center c, drivers := 0, requests := 0, demand := 0
          supply := 0, surge := 1, color := .gray }) ∧
      shown.map HeatCell.id = cells.map Cell.text ∧
      shown.map HeatCell.center = cells.map t.center ∧
      (shown.map HeatCell.id).Nodup ∧
      (∀ c ∈ cells, ∀ n, counts c = some n →
        .ofCounts t s c n.drivers n.requests ∈ shown) ∧
      ∀ h ∈ shown, ∃ c ∈ cells, h.id = c.text) ∧
    (∀ c, m.get? c.text = (counts c).map fun n => .ofCounts t s c n.drivers n.requests) ∧
    ∀ (gs' : GridSettings) (calls' : List HeatCall), gs'.resolution = gs.resolution →
      calls'.filter (!·.isRequest) = calls.filter (!·.isRequest) →
      let m' := (ofGrid (.ofSettings gs' t) s).after calls'
      (m'.around center km).map Prod.fst = (m.around center km).map Prod.fst := by
  intro m counts
  have represents (gs : GridSettings) (calls : List HeatCall) :=
    (represents_ofGrid (.ofSettings gs t) s).after calls
  have faithful (gs : GridSettings) (calls : List HeatCall) :
      ((ofGrid (.ofSettings gs t) s).after calls).grid.Faithful :=
    faithful_after (Grid.faithful_ofSettings gs t) calls
  have h : m.Represents (.ofSettings gs t) s counts := represents gs calls
  refine ⟨fun invalid => ?_, fun valid => ?_, fun c => ?_, fun gs' calls' same writes => ?_⟩
  · exact h.around_of_error (t.cellOf_of_not_valid invalid) km
  · obtain ⟨o, inside⟩ := Tiling.exists_cellOf_of_valid located valid
    obtain ⟨m', answer⟩ := h.around_of_ok (faithful gs calls) inside km
    have cover : t.cover gs.resolution center km =
        .ok (t.disk o (ringsForRadius km gs.resolution)) := by
      rw [Tiling.cover, inside]
      rfl
    have ids (cells : List Cell) : (cells.map m.shown).map HeatCell.id = cells.map Cell.text := by
      rw [List.map_map]
      exact List.map_congr_left fun c _ => h.id_shown c
    refine ⟨_, _, m', cover, answer, ?_, ids _, ?_, ?_, fun c hc n hn => ?_, fun e he => ?_⟩
    · exact List.map_congr_left fun c _ => h.shown_eq_get? c
    · rw [List.map_map]
      exact List.map_congr_left fun c _ => h.center_shown c
    · rw [ids]
      exact (distinct o _).map Cell.text_injective
    · refine List.mem_map.mpr ⟨c, hc, ?_⟩
      rw [h.shown_eq, hn]
      rfl
    · obtain ⟨c, hc, rfl⟩ := List.mem_map.mp he
      exact ⟨c, hc, h.id_shown c⟩
  · rw [get?_text, h.getElem?_text]
    rfl
  · have h' := represents gs' calls'
    have same_counts : calls'.foldl (HeatCall.carry gs'.resolution) (fun _ => none) = counts := by
      rw [same, ← HeatCall.foldl_carry_filter, writes, HeatCall.foldl_carry_filter]
    rw [← same_counts] at h
    exact h.around_congr h' rfl same (faithful gs calls) (faithful gs' calls') center km

/-- Around a point a heatmap over the hexagonal grid shows the record of the cell of the point,
and it refuses a latitude beyond the pole. -/
theorem record_is_shown_around_its_cell :
    let t := Tiling.hexagonal .neighborhood
    let c := Cell.locate .neighborhood ⟨0, 0⟩
    let m := (ofGrid (.ofSettings {} t) {}).after
      [.around ⟨0, 0⟩ 1, .update c.text ⟨1, 4⟩, .around ⟨0, 0⟩ 1]
    ∃ shown m', m.around ⟨0, 0⟩ 5 = .ok (shown, m') ∧ (shown.map HeatCell.id).Nodup ∧
      .ofCounts t {} c 1 4 ∈ shown ∧ m.around ⟨91, 0⟩ 5 = .error (.invalidCoordinates 91 0) := by
  intro t c m
  have located : ∀ p, p.isValid → (t.locate? p).isSome := fun _ _ => rfl
  have inside : t.cellOf ⟨0, 0⟩ = .ok c := by
    rw [Tiling.cellOf, if_pos (by decide)]
    rfl
  have answers (center : Point Float) := around_shows_each_covered_cell located Cell.nodup_disk
    {} {} [.around ⟨0, 0⟩ 1, .update c.text ⟨1, 4⟩, .around ⟨0, 0⟩ 1] center 5
  obtain ⟨cells, shown, m', cover, answer, -, -, -, nodup, recorded, -⟩ :=
    (answers ⟨0, 0⟩).2.1 (by decide)
  rw [Tiling.cover, inside] at cover
  obtain rfl := Except.ok.inj cover
  refine ⟨shown, m', answer, nodup, ?_, (answers ⟨91, 0⟩).1 (by decide)⟩
  refine recorded c (Cell.mem_disk_self c _) ⟨1, 4⟩ ?_
  have own : c.resolution = .neighborhood := rfl
  change HeatCall.carry .neighborhood (fun _ => none) (.update c.text ⟨1, 4⟩) c = _
  rw [HeatCall.carry_update_of_cell c.parse_text own, Function.update_self]

end Heatmap

end GeoDispatch
