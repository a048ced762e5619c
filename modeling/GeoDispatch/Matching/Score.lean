import GeoDispatch.Json.Codec
import GeoDispatch.Number.Binary

/-!
# Scores

A score is held as the 64 bits of a double, since ranking tells apart what arithmetic does
not: the two zeros, and undefined values of different sign.  `Score.le` is a linear order,
in which scores rank equal only if they are the same.
-/

namespace GeoDispatch

open Json

/-- A score, given by the bits of a double. -/
structure Score where
  bits : UInt64
deriving DecidableEq

namespace Score

/-- The score of a double. -/
def ofFloat (x : Float) : Score := ⟨x.toBits⟩

/-- The double of a score. -/
def toFloat (s : Score) : Float := .ofBits s.bits

/-- The place of a score in the total order of doubles. -/
def rank (s : Score) : Int := totalKey s.bits

/-- Scores by rank. -/
def le (s t : Score) : Bool := s.rank ≤ t.rank

theorem rank_inj {s t : Score} : s.rank = t.rank ↔ s = t := by
  cases s; cases t; simp [rank, totalKey_inj]

end Score

instance : Codec Score :=
  ⟨fun s => Codec.encode s.toFloat, fun v => (Codec.decode? v).map Score.ofFloat⟩

end GeoDispatch
