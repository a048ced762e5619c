import GeoDispatch.Number.Report
import GeoDispatch.Sphere.Nearest
import GeoDispatch.Geohash.Cover
import GeoDispatch.Zone.Fence
import GeoDispatch.Demand.Heatmap
import GeoDispatch.Matching.Batch
import GeoDispatch.Samples
import GeoDispatch.Proofs.Matching.Batch
import GeoDispatch.Proofs.Fleet.History
import GeoDispatch.Proofs.Geohash.Cover
import GeoDispatch.Proofs.Sphere.Nearest
import GeoDispatch.Proofs.Grid.Recency
import GeoDispatch.Proofs.Zone.Crossing
import GeoDispatch.Proofs.Hex.Index
import GeoDispatch.Proofs.Hex.Spelling
import GeoDispatch.Proofs.Matching.Widening
import GeoDispatch.Proofs.Demand.Counts
import GeoDispatch.Proofs.Fleet.Nearby
import GeoDispatch.Proofs.Demand.Around
import GeoDispatch.Proofs.Json.Lexing
import GeoDispatch.Proofs.Json.RoundTrip
import GeoDispatch.Proofs.Number.Canonical
import GeoDispatch.Proofs.Hex.Parsing
import GeoDispatch.Proofs.Json.Numeral
import GeoDispatch.Proofs.Json.Value
import GeoDispatch.Proofs.Zone.GeoJson
import GeoDispatch.Proofs.Zone.Listing
import GeoDispatch.Proofs.Zone.Hull
import GeoDispatch.Proofs.Json.Fields
import GeoDispatch.Proofs.Zone.Convex
import GeoDispatch.Proofs.Zone.Documents
import GeoDispatch.Proofs.Geohash.Block
import GeoDispatch.Proofs.Geohash.Samples
import GeoDispatch.Proofs.Geohash.Nesting
import GeoDispatch.Proofs.Hex.Path
import GeoDispatch.Proofs.Hex.Rings
import GeoDispatch.Proofs.Zone.Collection
import GeoDispatch.Proofs.Number.Order
import GeoDispatch.Proofs.Demand.Surge
import GeoDispatch.Proofs.Sequence.Sorted
import GeoDispatch.Proofs.Sphere.Selection
import GeoDispatch.Proofs.Fleet.Replay
import GeoDispatch.Proofs.Zone.Area
import GeoDispatch.Proofs.Sphere.Destination
import GeoDispatch.Proofs.Sphere.Midpoint
