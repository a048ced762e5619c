import GeoDispatch.Matching.Greedy
import GeoDispatch.Proofs.Matching.Firsts
import GeoDispatch.Proofs.Sequence.Sorted

/-! # Who gets which driver

The greedy pass goes once through the candidates by falling score.  Its outcome has a
description without the pass.  Among the candidates of a request the best one, the
earliest of equals, *decides* the request (`Lineup.Decides`); among the deciding
candidates of a driver the best one, again the earliest of equals, *wins* the driver
(`Lineup.Wins`).  The assignment is the list of the winners, best first, and the deciding
candidates that do not win are the ones turned down
(`Candidate.winners_are_assigned`).

Equal candidates may occur several times in a list, so that a candidate does not say where
it stands.  A `Lineup` therefore gives every candidate a name.
-/

namespace GeoDispatch

open Candidate

/-! ## The order of the pass -/

theorem Score.le_iff {s t : Score} : s.le t ↔ s.rank ≤ t.rank := by
  simp [Score.le]

theorem Score.le_trans (r s t : Score) (h : r.le s) (h' : s.le t) : r.le t := by
  rw [le_iff] at h h' ⊢
  omega

theorem Score.le_total (s t : Score) : s.le t || t.le s := by
  rw [Bool.or_eq_true, le_iff, le_iff]
  omega

/-! ## The pass remembers requests and drivers -/

namespace Candidate

/-- The pass accepts the first deciding candidate of each driver and drops the others, where a
candidate decides when it is the first of its request. -/
theorem judge_eq (decided taken : List String) (cs : List Candidate) :
    (judge decided taken cs).filterMap Verdict.accepted? =
        firstsBy driver taken (firstsBy request decided cs) ∧
      (judge decided taken cs).filterMap Verdict.dropped? =
        repeatsBy driver taken (firstsBy request decided cs) := by
  induction cs generalizing decided taken with
  | nil => exact ⟨rfl, rfl⟩
  | cons c cs ih =>
    simp only [judge, firstsBy, List.contains_iff_mem]
    by_cases known : c.request ∈ decided
    · rw [if_pos known, if_pos known]
      exact ih decided taken
    · rw [if_neg known, if_neg known, firstsBy, repeatsBy]
      by_cases busy : c.driver ∈ taken
      · obtain ⟨haccepted, hdropped⟩ := ih (c.request :: decided) taken
        rw [if_pos busy, if_pos busy, if_pos busy, ← haccepted, ← hdropped]
        exact ⟨rfl, rfl⟩
      · obtain ⟨haccepted, hdropped⟩ := ih (c.request :: decided) (c.driver :: taken)
        rw [if_neg busy, if_neg busy, if_neg busy, ← haccepted, ← hdropped]
        exact ⟨rfl, rfl⟩

theorem assign_eq (cs : List Candidate) :
    assign cs = firstsBy driver [] (firstsBy request [] (ranked cs)) :=
  (judge_eq [] [] (ranked cs)).1

theorem turnedDown_eq (cs : List Candidate) :
    turnedDown cs = repeatsBy driver [] (firstsBy request [] (ranked cs)) :=
  (judge_eq [] [] (ranked cs)).2

end Candidate

/-! ## Candidates under names -/

/-- Candidates in a row, each under a name, with the order of the names. -/
structure Lineup (κ : Type) where
  names : List κ
  candidate : κ → Candidate
  Before : κ → κ → Prop
  asymm : ∀ a b, Before a b → ¬ Before b a
  sorted : names.Pairwise Before

namespace Lineup

variable {κ : Type} (line : Lineup κ)

/-- A list of candidates, named by their positions. -/
def ofList (cs : List Candidate) : Lineup (Fin cs.length) where
  names := List.finRange cs.length
  candidate := cs.get
  Before := (· < ·)
  asymm := fun _ _ h h' => Nat.lt_asymm h h'
  sorted := List.pairwise_lt_finRange _

/-- The candidates in their row. -/
def candidates : List Candidate := line.names.map line.candidate

/-- One candidate is better than another: its score is higher, or the scores are the same
and it is earlier. -/
def Outranks (a b : κ) : Prop :=
  (line.candidate b).score.rank < (line.candidate a).score.rank ∨
    (line.candidate a).score = (line.candidate b).score ∧ line.Before a b

/-- A candidate is the best one of its request. -/
def Decides (a : κ) : Prop :=
  a ∈ line.names ∧ ∀ b ∈ line.names, (line.candidate b).request = (line.candidate a).request →
    b = a ∨ line.Outranks a b

/-- A candidate is the best one of its driver, among those that decide their requests. -/
def Wins (a : κ) : Prop :=
  line.Decides a ∧ ∀ b, line.Decides b → (line.candidate b).driver = (line.candidate a).driver →
    b = a ∨ line.Outranks a b

/-- The names, best candidate first. -/
def ranking : List κ :=
  line.names.mergeSort fun a b => (line.candidate b).score.le (line.candidate a).score

/-- The names of the candidates that decide their requests. -/
def deciding : List κ := firstsBy (fun a => (line.candidate a).request) [] line.ranking

/-- The names of the accepted candidates. -/
def accepted : List κ := firstsBy (fun a => (line.candidate a).driver) [] line.deciding

/-- The names of the candidates turned down. -/
def dropped : List κ := repeatsBy (fun a => (line.candidate a).driver) [] line.deciding

variable {line}

@[simp] theorem candidates_ofList (cs : List Candidate) : (ofList cs).candidates = cs :=
  List.map_get_finRange cs

theorem outranks_asymm (a b : κ) (h : line.Outranks a b) : ¬ line.Outranks b a := by
  rintro (h' | ⟨same', h'⟩) <;> rcases h with h | ⟨same, h⟩
  · omega
  · rw [same] at h'
    omega
  · rw [same'] at h
    omega
  · exact line.asymm a b h h'

theorem pairwise_ranking : line.ranking.Pairwise line.Outranks := by
  refine (pairwise_mergeSort_stable ?_ ?_ line.sorted).imp ?_
  · exact fun a b c h h' => Score.le_trans _ _ _ h' h
  · exact fun a b => Score.le_total _ _
  · rintro a b ⟨hle, tie⟩
    rw [Score.le_iff] at hle
    rcases Int.lt_or_eq_of_le hle with hlt | heq
    · exact .inl hlt
    · exact .inr ⟨(Score.rank_inj.mp heq).symm, tie (Score.le_iff.mpr (Int.le_of_eq heq.symm))⟩

theorem mem_ranking {a : κ} : a ∈ line.ranking ↔ a ∈ line.names :=
  List.mem_mergeSort

theorem pairwise_deciding : line.deciding.Pairwise line.Outranks :=
  pairwise_ranking.sublist (firstsBy_sublist _ _)

theorem pairwise_accepted : line.accepted.Pairwise line.Outranks :=
  pairwise_deciding.sublist (firstsBy_sublist _ _)

theorem mem_deciding {a : κ} : a ∈ line.deciding ↔ line.Decides a := by
  rw [deciding, mem_firstsBy outranks_asymm pairwise_ranking, mem_ranking, Decides]
  simp only [List.not_mem_nil, not_false_eq_true, true_and, mem_ranking]

theorem mem_accepted {a : κ} : a ∈ line.accepted ↔ line.Wins a := by
  rw [accepted, mem_firstsBy outranks_asymm pairwise_deciding, mem_deciding, Wins]
  simp only [List.not_mem_nil, not_false_eq_true, true_and, mem_deciding]

theorem nodup_deciding : line.deciding.Nodup := by
  refine pairwise_deciding.imp ?_
  rintro a b h rfl
  exact outranks_asymm a a h h

theorem existsUnique_decides {r : String}
    (hr : r ∈ line.names.map fun a => (line.candidate a).request) :
    ∃! a, line.Decides a ∧ (line.candidate a).request = r := by
  have perm : line.ranking.Perm line.names := List.mergeSort_perm ..
  have unique := existsUnique_mem_firstsBy ((perm.map _).mem_iff.mpr hr) List.not_mem_nil
  simpa only [← mem_deciding, deciding] using unique

/-- Of the deciding candidates of a driver one is accepted. -/
theorem existsUnique_accepted {a : κ} (ha : line.Decides a) :
    ∃! b, b ∈ line.accepted ∧ (line.candidate b).driver = (line.candidate a).driver :=
  existsUnique_mem_firstsBy (List.mem_map_of_mem (mem_deciding.mpr ha)) List.not_mem_nil

theorem mem_dropped {a : κ} : a ∈ line.dropped ↔ line.Decides a ∧ ¬ line.Wins a := by
  rw [dropped, mem_repeatsBy nodup_deciding, mem_deciding, ← mem_accepted, accepted]

theorem ranked_candidates : ranked line.candidates = line.ranking.map line.candidate := by
  rw [ranked, candidates, ranking]
  refine (List.map_mergeSort ?_).symm
  intro a _ b _
  rfl

theorem assign_candidates : assign line.candidates = line.accepted.map line.candidate := by
  rw [assign_eq, ranked_candidates, firstsBy_map, firstsBy_map, accepted, deciding]

theorem turnedDown_candidates :
    turnedDown line.candidates = line.dropped.map line.candidate := by
  rw [turnedDown_eq, ranked_candidates, firstsBy_map, repeatsBy_map, dropped, deciding]

end Lineup

namespace Candidate

variable {cs : List Candidate}

theorem assign_append_turnedDown_perm (cs : List Candidate) :
    (assign cs ++ turnedDown cs).Perm (firstsBy request [] (ranked cs)) := by
  rw [assign_eq, turnedDown_eq]
  exact firstsBy_append_repeatsBy_perm ..

theorem nodup_drivers_assign (cs : List Candidate) : ((assign cs).map driver).Nodup := by
  rw [assign_eq]
  exact nodup_map_firstsBy ..

theorem nodup_requests (cs : List Candidate) :
    ((assign cs ++ turnedDown cs).map request).Nodup := by
  rw [((assign_append_turnedDown_perm cs).map request).nodup_iff]
  exact nodup_map_firstsBy ..

theorem mem_requests {r : String} :
    r ∈ (assign cs ++ turnedDown cs).map request ↔ r ∈ cs.map request := by
  rw [((assign_append_turnedDown_perm cs).map request).mem_iff, mem_map_firstsBy, ranked,
    ((List.mergeSort_perm ..).map request).mem_iff]
  simp only [List.not_mem_nil, not_false_eq_true, and_true]

/-- **The greedy pass serves the winners.**  For the candidates `cs`, taken by position: every
request of the list has exactly one candidate that decides it, the one of greatest score
and least position; of the deciding candidates of a driver exactly one is accepted, again
the one of greatest score and least position, and the others are dropped; the assignment
lists the accepted candidates by falling score, those of equal score by position.  So no
driver and no request is served twice, and the requests accepted and dropped are the
requests of the list, each once. -/
theorem winners_are_assigned (cs : List Candidate) :
    ∃ accepted dropped : List (Fin cs.length),
      assign cs = accepted.map cs.get ∧ turnedDown cs = dropped.map cs.get ∧
      accepted.Pairwise (Lineup.ofList cs).Outranks ∧
      (∀ i, i ∈ accepted ↔ (Lineup.ofList cs).Wins i) ∧
      (∀ i, i ∈ dropped ↔ (Lineup.ofList cs).Decides i ∧ ¬ (Lineup.ofList cs).Wins i) ∧
      (∀ r ∈ cs.map request, ∃! i, (Lineup.ofList cs).Decides i ∧ cs[i].request = r) ∧
      (∀ i, (Lineup.ofList cs).Decides i →
        ∃! j, j ∈ accepted ∧ cs[j].driver = cs[i].driver) ∧
      ((assign cs).map driver).Nodup ∧
      ((assign cs ++ turnedDown cs).map request).Nodup ∧
      (∀ r, r ∈ (assign cs ++ turnedDown cs).map request ↔ r ∈ cs.map request) := by
  have hassign := (Lineup.ofList cs).assign_candidates
  have hdropped := (Lineup.ofList cs).turnedDown_candidates
  rw [Lineup.candidates_ofList] at hassign hdropped
  refine ⟨_, _, hassign, hdropped, Lineup.pairwise_accepted, fun i => Lineup.mem_accepted,
    fun i => Lineup.mem_dropped, ?_, ?_, nodup_drivers_assign cs, nodup_requests cs,
    fun r => mem_requests⟩
  · intro r hr
    rw [← Lineup.candidates_ofList cs, Lineup.candidates, List.map_map] at hr
    exact Lineup.existsUnique_decides hr
  · intro i hi
    exact Lineup.existsUnique_accepted hi

end Candidate
end GeoDispatch
