import GeoDispatch.Hex.Documents

/-!
# Settings

The settings of the grid, of the heatmap and of the matcher, with the values used in
production as defaults.
-/

namespace GeoDispatch

open Json

/-- Settings of a grid. -/
structure GridSettings where
  /-- The resolution at which points are put into cells. -/
  resolution : Resolution := .neighborhood
  /-- The number of disks kept; zero keeps none. -/
  cacheCapacity : Nat := 1000
deriving DecidableEq

/-- Settings of a heatmap. -/
structure HeatmapSettings where
  /-- The number of requests at which the demand of a cell is full. -/
  demandNormalization : Float := 50
  /-- The number of drivers at which the supply of a cell is full. -/
  supplyNormalization : Float := 20

/-- Settings of a matcher. -/
structure MatcherSettings where
  /-- The radius, in steps, of the disk searched around a pickup. -/
  rings : Nat := 2
  /-- The speed in kilometres per hour at which a driver is thought to come. -/
  speed : Float := 40

instance : Codec GridSettings where
  encode s := .ofMembers
    [("resolution", Codec.encode s.resolution),
      ("disk_cache_capacity", .ofNat s.cacheCapacity)]
  decode? v := do
    match ← Decoder.fields ["resolution", "disk_cache_capacity"] v with
    | [resolution, capacity] =>
      return ⟨← Codec.field? Resolution resolution, ← capacity.bind (Decoder.natural 64)⟩
    | _ => none

instance : Codec HeatmapSettings where
  encode s := .ofMembers
    [("demand_normalization", Codec.encode s.demandNormalization),
      ("supply_normalization", Codec.encode s.supplyNormalization)]
  decode? v := do
    match ← Decoder.fields ["demand_normalization", "supply_normalization"] v with
    | [demand, supply] => return ⟨← Codec.field? Float demand, ← Codec.field? Float supply⟩
    | _ => none

instance : Codec MatcherSettings where
  encode s := .ofMembers
    [("k_rings", .ofNat s.rings), ("avg_speed_kmh", Codec.encode s.speed)]
  decode? v := do
    match ← Decoder.fields ["k_rings", "avg_speed_kmh"] v with
    | [rings, speed] => return ⟨← rings.bind (Decoder.natural 32), ← Codec.field? Float speed⟩
    | _ => none

end GeoDispatch
