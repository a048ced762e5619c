import Std.Data.HashMap
import GeoDispatch.Demand.Surge
import GeoDispatch.Grid.HexGrid
import GeoDispatch.Journal
import GeoDispatch.Sphere.Documents

/-!
# Heatmaps

A heatmap records how many drivers and requests there are in cells of one resolution, under
the text of the cell.  All else that it shows of a cell follows from these two counts; a cell
that nobody recorded is shown empty.
-/

namespace GeoDispatch

open Json

/-- What a heatmap shows of a cell. -/
structure HeatCell where
  id : String
  center : Point Float
  drivers : Nat
  requests : Nat
  demand : Float
  supply : Float
  surge : Float
  color : SurgeColor

namespace HeatCell

/-- A cell with some drivers and requests. -/
def ofCounts (t : Tiling Cell) (s : HeatmapSettings) (c : Cell) (drivers requests : Nat) :
    HeatCell :=
  let surge := surgeLevel drivers requests
  { id := c.text
    center := t.center c
    drivers := drivers
    requests := requests
    demand := demandScore requests s
    supply := supplyScore drivers s
    surge := surge
    color := SurgeColor.ofSurge surge drivers requests }

/-- A cell that nobody recorded. -/
def blank (t : Tiling Cell) (c : Cell) : HeatCell where
  id := c.text
  center := t.center c
  drivers := 0
  requests := 0
  demand := 0
  supply := 0
  surge := baseSurge
  color := .gray

/-- Whether a map has something to show in a cell. -/
def isShown (h : HeatCell) : Bool := h.color != .gray || h.drivers != 0

/-- Cells by identifier. -/
def sort (hs : List HeatCell) : List HeatCell := hs.mergeSort fun a b => a.id ≤ b.id

end HeatCell

/-- The recorded cells of a grid. -/
structure Heatmap where
  grid : Grid Cell
  settings : HeatmapSettings
  /-- What was recorded, by the text of the cell. -/
  records : Std.HashMap String HeatCell

namespace Heatmap

/-- A heatmap over a grid with nothing recorded. -/
def ofGrid (g : Grid Cell) (s : HeatmapSettings) : Heatmap := ⟨g, s, ∅⟩

/-- Records the counts of the cell with an address.  An address that is no cell, or a cell
of another resolution, is passed over. -/
def update (m : Heatmap) (address : String) (drivers requests : Nat) :
    Heatmap × List (Record Cell) :=
  match Cell.parse address with
  | .error e => (m, [.heatIgnored e])
  | .ok c =>
    if c.resolution ≠ m.grid.resolution then
      (m, [.heatForeign c c.resolution m.grid.resolution])
    else
      let h := HeatCell.ofCounts m.grid.tiling m.settings c drivers requests
      ({ m with records := m.records.insert h.id h },
        [.heatUpdated c drivers requests h.surge])

/-- What was recorded of the cell with an address, in any of its spellings. -/
def get? (m : Heatmap) (address : String) : Option HeatCell :=
  match Cell.parse address with
  | .ok c => m.records[c.text]?
  | .error _ => none

/-- What is shown of a cell. -/
def shown (m : Heatmap) (c : Cell) : HeatCell :=
  m.records[c.text]?.getD (HeatCell.blank m.grid.tiling c)

/-- What is shown of the cells that cover a circle, and the heatmap after the request. -/
def around (m : Heatmap) (center : Point Float) (km : Float) :
    Except GeoError (List HeatCell × Heatmap) :=
  (m.grid.cover center km).map fun (cells, grid) => (cells.map m.shown, { m with grid })

/-- All recorded cells, in no particular order. -/
def cells (m : Heatmap) : List HeatCell := m.records.toList.map Prod.snd

/-- The number of recorded cells. -/
def size (m : Heatmap) : Nat := m.records.size

/-- Whether nothing is recorded. -/
def isEmpty (m : Heatmap) : Bool := m.records.isEmpty

/-- Forgets what was recorded. -/
def clear (m : Heatmap) : Heatmap := { m with records := ∅ }

end Heatmap

instance : Codec HeatCell where
  encode h := .ofMembers
    [("cell_id", .ofString h.id), ("center", Codec.encode h.center),
      ("driver_count", .ofNat h.drivers), ("request_count", .ofNat h.requests),
      ("demand_score", Codec.encode h.demand), ("supply_score", Codec.encode h.supply),
      ("surge_level", Codec.encode h.surge), ("color", Codec.encode h.color)]
  decode? v := do
    match ← Decoder.fields
      ["cell_id", "center", "driver_count", "request_count", "demand_score",
        "supply_score", "surge_level", "color"] v with
    | [id, center, drivers, requests, demand, supply, surge, color] =>
      return { id := ← Codec.field? String id
               center := ← Codec.field? (Point Float) center
               drivers := ← drivers.bind (Decoder.natural 32)
               requests := ← requests.bind (Decoder.natural 32)
               demand := ← Codec.field? Float demand
               supply := ← Codec.field? Float supply
               surge := ← Codec.field? Float surge
               color := ← Codec.field? SurgeColor color }
    | _ => none

end GeoDispatch
