import GeoDispatch.Grid.HexGrid
import GeoDispatch.Zone.Polygon

/-!
# Sample data

A well-known place and a simple polygon, for examples and checks.
-/

namespace GeoDispatch

/-- The centre of San Francisco. -/
def sanFrancisco : Point Float := ⟨37.7749, -122.4194⟩

/-- The cell of a resolution that holds the centre of San Francisco. -/
def sanFranciscoCell (r : Resolution) : Cell := Cell.locate r sanFrancisco

/-- A square of ten degrees north and east of the origin. -/
def sampleSquare : Polygon Float := ⟨[⟨0, 0⟩, ⟨0, 10⟩, ⟨10, 10⟩, ⟨10, 0⟩]⟩

end GeoDispatch
