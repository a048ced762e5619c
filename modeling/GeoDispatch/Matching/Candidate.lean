import GeoDispatch.Matching.Score
import GeoDispatch.Sphere.Documents

/-!
# Requests, candidates and results

A rider's request has a pickup.  A candidate pairs a request with a driver who could take
it, and a match is a pair that was chosen.
-/

namespace GeoDispatch

open Json

/-- A rider who waits for a driver. -/
structure RideRequest where
  id : String
  pickup : Point Float

/-- A driver who could take a request. -/
structure Candidate where
  driver : String
  request : String
  /-- Higher is better. -/
  score : Score
  /-- The steps from the cell of the pickup to the cell of the driver. -/
  steps : Nat
  /-- The seconds that the driver needs to come. -/
  eta : Nat
deriving DecidableEq

/-- A driver who takes a request. -/
structure Match where
  request : String
  driver : String
  score : Score

/-- The pair of a candidate. -/
def Candidate.toMatch (c : Candidate) : Match := ⟨c.request, c.driver, c.score⟩

instance : Codec RideRequest where
  encode r := .ofMembers [("request_id", .ofString r.id), ("pickup", Codec.encode r.pickup)]
  decode? v := do
    match ← Decoder.fields ["request_id", "pickup"] v with
    | [id, pickup] =>
      return ⟨← Codec.field? String id, ← Codec.field? (Point Float) pickup⟩
    | _ => none

instance : Codec Candidate where
  encode c := .ofMembers
    [("driver_id", .ofString c.driver), ("request_id", .ofString c.request),
      ("score", Codec.encode c.score), ("grid_distance", .ofNat c.steps),
      ("eta_secs", .ofNat c.eta)]
  decode? v := do
    match ← Decoder.fields ["driver_id", "request_id", "score", "grid_distance", "eta_secs"] v with
    | [driver, request, score, steps, eta] =>
      return { driver := ← Codec.field? String driver
               request := ← Codec.field? String request
               score := ← Codec.field? Score score
               steps := ← steps.bind (Decoder.natural 32)
               eta := ← eta.bind (Decoder.natural 64) }
    | _ => none

instance : Codec Match where
  encode m := .ofMembers
    [("request_id", .ofString m.request), ("driver_id", .ofString m.driver),
      ("score", Codec.encode m.score)]
  decode? v := do
    match ← Decoder.fields ["request_id", "driver_id", "score"] v with
    | [request, driver, score] =>
      return ⟨← Codec.field? String request, ← Codec.field? String driver,
        ← Codec.field? Score score⟩
    | _ => none

end GeoDispatch
