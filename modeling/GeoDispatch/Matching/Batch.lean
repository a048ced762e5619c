import GeoDispatch.Fleet.DriverIndex
import GeoDispatch.Matching.Greedy

/-!
# Matching a batch of requests

Every request is paired with the drivers near its pickup, in the order of the requests and
then of the drivers, and the candidates are assigned greedily.  A driver who is fewer steps
away scores higher.
-/

namespace GeoDispatch

/-- Candidates, with the index and the journal after the search for them. -/
structure Offers (C : Type) [BEq C] [Hashable C] where
  candidates : List Candidate
  index : DriverIndex C
  records : List (Record C)

/-- Matches, with the index and the journal after them. -/
structure Matches (C : Type) [BEq C] [Hashable C] where
  results : List Match
  index : DriverIndex C
  records : List (Record C)

namespace MatcherSettings

variable {C : Type} [DecidableEq C] [Hashable C]

/-- The score of a driver who is some steps away. -/
def score (steps : Nat) : Score := .ofFloat (1 / (1 + Float.ofNat steps))

/-- The seconds that a driver needs for a distance in kilometres, at least one. -/
def eta (s : MatcherSettings) (km : Float) : Nat :=
  if km ≤ 0 || s.speed ≤ 0 then 1
  else (Scalar.maxNum (km / s.speed * 3600) 1).toUInt64.toNat

/-- The candidate for a request of a driver in a cell, if the steps to that cell are
known. -/
def candidate? (s : MatcherSettings) (t : Tiling C) (r : RideRequest) (pickup : C)
    (driver : String × C) : Option Candidate :=
  (t.steps? pickup driver.2).map fun steps =>
    { driver := driver.1
      request := r.id
      score := score steps.toNat
      steps := steps.toNat
      eta := s.eta ((t.center pickup).distance (t.center driver.2)) }

/-- The candidates for one request; none for a pickup out of range. -/
def offersFor (s : MatcherSettings) (x : DriverIndex C) (r : RideRequest) : Offers C :=
  match x.grid.cellOf r.pickup with
  | .error e => ⟨[], x, [.requestSkipped r.id e]⟩
  | .ok c =>
    let near := x.search r.pickup s.rings
    ⟨near.found.filterMap (s.candidate? x.grid.tiling r c), near.index, near.records⟩

/-- The candidates for all requests, in their order. -/
def offers (s : MatcherSettings) (x : DriverIndex C) : List RideRequest → Offers C
  | [] => ⟨[], x, []⟩
  | r :: rs =>
    let first := s.offersFor x r
    let rest := s.offers first.index rs
    ⟨first.candidates ++ rest.candidates, rest.index, first.records ++ rest.records⟩

/-- The matches of a batch of requests. -/
def matchRequests (s : MatcherSettings) (x : DriverIndex C) (rs : List RideRequest) :
    Matches C :=
  let found := s.offers x rs
  let accepted := Candidate.assign found.candidates
  let dropped := (Candidate.turnedDown found.candidates).map fun c =>
    Record.requestDropped c.request c.driver
  { results := accepted.map Candidate.toMatch
    index := found.index
    records := found.records ++ dropped ++
      [.batchMatched accepted.length rs.length found.candidates.length] }

end MatcherSettings

end GeoDispatch
