import GeoDispatch.Grid.DiskCache
import GeoDispatch.Grid.Tiling
import GeoDispatch.Hex.Neighbor
import GeoDispatch.Hex.Outline
import GeoDispatch.Hex.Path
import GeoDispatch.Settings
import GeoDispatch.Sphere.GreatCircle

/-!
# Grids

A grid is a tiling at one resolution with a cache of disks; asking for a disk changes the
cache and nothing else.  `Tiling.hexagonal` is the tiling by the cells of a resolution.
-/

namespace GeoDispatch

namespace Cell

/-- The cell of a resolution that holds a point in range. -/
def locate (r : Resolution) (p : Point Float) : Cell :=
  ⟨Address.locate r.level p, r, Address.level_locate r.level p⟩

/-- The centre of a cell. -/
def center (c : Cell) : Point Float := c.address.center

/-- The outline of a cell, counterclockwise. -/
def outline (c : Cell) : List (Point Float) := c.address.outline

/-- The distance in kilometres between the centres of two cells. -/
def centerDistance (c d : Cell) : Float := c.center.distance d.center

/-- The bearing from the centre of one cell to that of another. -/
def centerBearing (c d : Cell) : Float := c.center.bearing d.center

end Cell

/-- The tiling of the sphere by the cells of a resolution. -/
def Tiling.hexagonal (r : Resolution) : Tiling Cell where
  locate? p := some (Cell.locate r p)
  center := Cell.center
  disk := Cell.disk
  steps? c d := (c.steps? d).bind fun n => if n < 1 <<< 32 then some n.toUInt32 else none

/-- The most rings of a cover or of a search. -/
def maxRings : Nat := 10

/-- The number of rings whose width adds up to a radius in kilometres, at least one and at
most ten; one for an undefined radius. -/
def ringsForRadius (km : Float) (r : Resolution) : Nat :=
  let needed := (km / r.edgeLength).ceil
  if needed.isNaN || needed < 1 then 1
  else if Float.ofNat maxRings < needed then maxRings
  else needed.toUInt64.toNat

/-- The cells that cover a circle: a disk of at most ten rings around the cell of the
centre. -/
def Tiling.cover {C : Type} (t : Tiling C) (r : Resolution) (center : Point Float) (km : Float) :
    Except GeoError (List C) :=
  (t.cellOf center).map fun c => t.disk c (ringsForRadius km r)

/-- A tiling at one resolution with a cache of disks. -/
structure Grid (C : Type) where
  resolution : Resolution
  tiling : Tiling C
  cache : DiskCache C

namespace Grid

variable {C : Type} [DecidableEq C]

/-- A grid with the given settings and nothing in its cache. -/
def ofSettings (s : GridSettings) (t : Tiling C) : Grid C :=
  ⟨s.resolution, t, .empty C s.cacheCapacity⟩

/-- The cell of a point. -/
def cellOf (g : Grid C) (p : Point Float) : Except GeoError C := g.tiling.cellOf p

/-- The disk around a cell, and the grid after the request. -/
def disk (g : Grid C) (c : C) (k : Nat) : List C × Grid C :=
  let (cells, cache) := g.cache.fetch g.tiling.disk c k
  (cells, { g with cache })

/-- The cells that cover a circle, and the grid after the request. -/
def cover (g : Grid C) (center : Point Float) (km : Float) :
    Except GeoError (List C × Grid C) :=
  (g.cellOf center).map fun c => g.disk c (ringsForRadius km g.resolution)

/-- A line about the resolution and the cache of a grid. -/
def summary (g : Grid C) : String :=
  let cache :=
    if g.cache.capacity = 0 then "None"
    else
      "Some(GridDiskCache \x7b len: " ++ toString g.cache.size ++ ", cap: " ++
        toString g.cache.capacity ++ " \x7d)"
  "HexGrid \x7b resolution: " ++ g.resolution.label ++ ", disk_cache: " ++ cache ++ " \x7d"

end Grid

/-- The grid of hexagons with the given settings. -/
def Grid.hexagonal (s : GridSettings) : Grid Cell :=
  .ofSettings s (.hexagonal s.resolution)

end GeoDispatch
