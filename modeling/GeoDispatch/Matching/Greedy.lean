import GeoDispatch.Matching.Candidate

/-!
# Greedy assignment

Candidates are taken by falling score.  The first candidate of a request decides it: the
request gets the driver if that driver is still free and is dropped otherwise; it never
falls back on a later candidate.
-/

namespace GeoDispatch

/-- How a request was decided. -/
inductive Verdict where
  /-- It gets the driver of its first candidate. -/
  | accepted (c : Candidate)
  /-- The driver of its first candidate was taken. -/
  | dropped (c : Candidate)

namespace Verdict

/-- The candidate, if it was accepted. -/
def accepted? : Verdict → Option Candidate
  | accepted c => some c
  | dropped _ => none

/-- The candidate, if it was dropped. -/
def dropped? : Verdict → Option Candidate
  | accepted _ => none
  | dropped c => some c

end Verdict

namespace Candidate

/-- The candidates by falling score, those of equal score in their order. -/
def ranked (cs : List Candidate) : List Candidate :=
  cs.mergeSort fun a b => b.score.le a.score

/-- Decides the requests of some candidates in their order, when some requests are decided
and some drivers taken. -/
def judge (decided taken : List String) : List Candidate → List Verdict
  | [] => []
  | c :: cs =>
    if decided.contains c.request then judge decided taken cs
    else if taken.contains c.driver then .dropped c :: judge (c.request :: decided) taken cs
    else .accepted c :: judge (c.request :: decided) (c.driver :: taken) cs

/-- The verdict on every request that has a candidate. -/
def verdicts (cs : List Candidate) : List Verdict := judge [] [] (ranked cs)

/-- The accepted candidates, by falling score. -/
def assign (cs : List Candidate) : List Candidate := (verdicts cs).filterMap Verdict.accepted?

/-- The candidates whose requests were dropped. -/
def turnedDown (cs : List Candidate) : List Candidate :=
  (verdicts cs).filterMap Verdict.dropped?

end Candidate

end GeoDispatch
