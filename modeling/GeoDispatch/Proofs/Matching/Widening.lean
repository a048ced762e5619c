import GeoDispatch.Proofs.Matching.Batch

/-! # Wider searches

Searching farther from the pickups adds candidates to a batch, and the matches that were made
without them stay.  The new candidates stand anywhere between the old ones, request by request
and driver by driver; but where a disk holds just the cells at most so many steps away
(`Tiling.Graded`), every new candidate is more steps away than any old one, so the pass comes to
it when all old ones are judged (`MatcherSettings.wider_search_extends_matches`).

The pass runs through the candidates as `MatcherSettings.ranking` lists them.  Nothing is asked
of a tiling but that it is graded: a disk may list a cell twice, and then its drivers are
candidates twice, which changes nothing, since the pass skips what it has seen.
-/

namespace GeoDispatch

/-- Where the steps from one cell to another are known, the disks around the one hold the other
from that radius on. -/
def Tiling.Graded {C : Type} (t : Tiling C) : Prop :=
  ∀ o c n, t.steps? o c = some n → ∀ k, c ∈ t.disk o k ↔ n.toNat ≤ k

/-! ## Lists in order up to repetitions -/

section

variable {κ : Type} [BEq κ] [LawfulBEq κ] {R : κ → κ → Prop}

theorem pairwise_eraseDups {ks : List κ} (sorted : ks.Pairwise fun a b => a = b ∨ R a b) :
    ks.eraseDups.Pairwise R :=
  (sorted.sublist (eraseDups_sublist ks)).imp₂ (fun _ _ near ne => near.resolve_left ne)
    (nodup_eraseDups ks)

/-- Entries of one list that precede all its other entries are a prefix of it. -/
theorem eraseDups_isPrefix (asymm : ∀ a b, R a b → ¬ R b a) {ks ks' : List κ}
    (sorted : ks.Pairwise fun a b => a = b ∨ R a b)
    (sorted' : ks'.Pairwise fun a b => a = b ∨ R a b) {p : κ → Bool}
    (mem : ∀ a, a ∈ ks ↔ a ∈ ks' ∧ p a)
    (ahead : ∀ a ∈ ks', ∀ b ∈ ks', p a → p b = false → R a b) :
    ks.eraseDups <+: ks'.eraseDups := by
  refine ⟨ks'.eraseDups.filter (!p ·), ?_⟩
  have parts : (ks.eraseDups ++ ks'.eraseDups.filter (!p ·)).Pairwise R := by
    refine List.pairwise_append.mpr ⟨pairwise_eraseDups sorted,
      (pairwise_eraseDups sorted').filter _, fun a ha b hb => ?_⟩
    obtain ⟨ha', hpa⟩ := (mem a).mp (List.mem_eraseDups.mp ha)
    obtain ⟨hb', hpb⟩ := List.mem_filter.mp hb
    exact ahead a ha' b (List.mem_eraseDups.mp hb') hpa (Bool.not_eq_true' _ ▸ hpb)
  have nodup : (ks.eraseDups ++ ks'.eraseDups.filter (!p ·)).Nodup := by
    refine parts.imp ?_
    rintro a b hab rfl
    exact asymm a a hab hab
  refine List.Perm.eq_of_pairwise (fun a b _ _ hab hba => absurd hba (asymm a b hab)) parts
    (pairwise_eraseDups sorted') ?_
  refine (List.perm_ext_iff_of_nodup nodup (nodup_eraseDups ks')).mpr fun a => ?_
  rw [List.mem_append, List.mem_filter, List.mem_eraseDups, List.mem_eraseDups, mem]
  cases p a <;> simp

end

namespace MatcherSettings

variable {C : Type} [DecidableEq C] [Hashable C] {s : MatcherSettings} {t : Tiling C}
  {x : DriverIndex C} {r : RideRequest} {rs : List RideRequest}

/-! ## The order of the pass -/

/-- In the pass, fewer steps go first, then the position of the request, then the driver. -/
def GoesFirst {n : Nat} (a b : Fin n × Candidate) : Prop :=
  a.2.steps < b.2.steps ∨
    a.2.steps = b.2.steps ∧ (a.1 < b.1 ∨ a.1 = b.1 ∧ a.2.driver < b.2.driver)

theorem goesFirst_asymm {n : Nat} (a b : Fin n × Candidate) (h : GoesFirst a b) :
    ¬ GoesFirst b a := by
  rintro (h' | ⟨same', h'⟩) <;> rcases h with h | ⟨same, h⟩
  · omega
  · omega
  · omega
  · rcases h with h | ⟨here, h⟩ <;> rcases h' with h' | ⟨here', h'⟩
    · exact Nat.lt_asymm h h'
    · exact absurd (congrArg Fin.val here') (Nat.ne_of_gt h)
    · exact absurd (congrArg Fin.val here) (Nat.ne_of_gt h')
    · exact lt_asymm h h'

/-- The candidates of a batch as the pass goes through them. -/
def ranking (s : MatcherSettings) (x : DriverIndex C) (rs : List RideRequest) :
    List (Fin rs.length × Candidate) :=
  (s.named x rs).mergeSort fun a b => b.2.score.le a.2.score

theorem mem_ranking {i : Fin rs.length} {c : Candidate} :
    (i, c) ∈ s.ranking x rs ↔ c ∈ (s.offersFor x (rs.get i)).candidates :=
  List.mem_mergeSort.trans mem_named

theorem offersFor_sorted (h : x.Sound t) :
    (s.offersFor x r).candidates.Pairwise fun c c' => c = c' ∨ c.driver < c'.driver := by
  cases place : t.cellOf r.pickup with
  | error e =>
    rw [candidates_offersFor_of_error h place]
    exact .nil
  | ok o =>
    rw [candidates_offersFor_of_ok h place, List.pairwise_filterMap]
    refine (h.found_sorted s.rings).imp ?_
    rintro near near' (rfl | hlt) c hc c' hc'
    · exact .inl (Option.some.inj (hc.symm.trans hc'))
    · rw [(candidate?_eq_some hc).1, (candidate?_eq_some hc').1]
      exact .inr hlt

theorem named_sorted (h : x.Sound t) : (s.named x rs).Pairwise fun a b =>
    a = b ∨ a.1 < b.1 ∨ a.1 = b.1 ∧ a.2.driver < b.2.driver := by
  refine List.pairwise_flatMap.mpr ⟨fun i _ => ?_, ?_⟩
  · refine List.pairwise_map.mpr ((offersFor_sorted h).imp ?_)
    rintro c c' (rfl | hlt)
    · exact .inl rfl
    · exact .inr (.inr ⟨rfl, hlt⟩)
  · refine (List.pairwise_lt_finRange rs.length).imp ?_
    rintro i j hlt a ha b hb
    obtain ⟨c, -, rfl⟩ := List.mem_map.mp ha
    obtain ⟨c', -, rfl⟩ := List.mem_map.mp hb
    exact .inr (.inl hlt)

theorem ranking_sorted (h : x.Sound t) :
    (s.ranking x rs).Pairwise fun a b => a = b ∨ GoesFirst a b := by
  refine (pairwise_mergeSort_stable ?_ ?_ (named_sorted h)).imp_of_mem ?_
  · exact fun a b c hab hbc => Score.le_trans _ _ _ hbc hab
  · exact fun a b => Score.le_total _ _
  · rintro ⟨i, c⟩ ⟨j, c'⟩ hmem hmem' ⟨hle, tie⟩
    obtain ⟨hscore, hsteps⟩ := score_of_mem_offersFor h (mem_ranking.mp hmem)
    obtain ⟨hscore', hsteps'⟩ := score_of_mem_offersFor h (mem_ranking.mp hmem')
    rw [Score.le_iff, hscore, hscore'] at hle
    rw [Score.le_iff, hscore, hscore'] at tie
    rcases Nat.lt_trichotomy c.steps c'.steps with hlt | same | hlt
    · exact .inr (.inl hlt)
    · refine (tie (Int.le_of_eq (by rw [same]))).imp_right fun before => .inr ⟨same, before⟩
    · exact absurd hle (Int.not_le.mpr ((rank_score_lt_iff hsteps' hsteps).mpr hlt))

/-- The matches are the first entry of each driver among the first entries of each request. -/
theorem results_eq (h : x.Sound t) :
    (s.matchRequests x rs).results =
      (firstsBy (fun a => a.2.driver) []
        (firstsBy (fun a => a.2.request) [] (s.ranking x rs))).map fun a => a.2.toMatch := by
  have ranked : Candidate.ranked (s.offers x rs).candidates =
      (s.ranking x rs).map Prod.snd := by
    rw [← map_snd_named h, Candidate.ranked, ranking]
    refine (List.map_mergeSort ?_).symm
    intro a _ b _
    rfl
  change (Candidate.assign (s.offers x rs).candidates).map Candidate.toMatch = _
  rw [Candidate.assign_eq, ranked, firstsBy_map, firstsBy_map, List.map_map]
  rfl

/-! ## What a wider search adds -/

/-- In a graded tiling, the candidates of a request are the drivers at most so many steps away. -/
theorem mem_offersFor_of_graded (graded : t.Graded) (h : x.Sound t) {c : Candidate} :
    c ∈ (s.offersFor x r).candidates ↔ c.steps ≤ min s.rings maxRings ∧
      ∃ o near, t.cellOf r.pickup = .ok o ∧ x.cellOf? near.1 = some near.2 ∧
        s.candidate? t r o near = some c := by
  have within {o : C} {near : String × C} (hc : s.candidate? t r o near = some c) (k : Nat) :
      near.2 ∈ t.disk o k ↔ c.steps ≤ k := by
    obtain ⟨n, hn, hsteps⟩ := Option.map_eq_some_iff.mp (candidate?_eq_some hc).2.2.2.2
    rw [← hsteps]
    exact graded o near.2 n hn k
  rw [mem_offersFor h]
  constructor
  · rintro ⟨o, ⟨d, cell⟩, inside, hnear, hc⟩
    obtain ⟨o', inside', hcell, hdisk⟩ := h.mem_found.mp hnear
    obtain rfl : o = o' := Except.ok.inj (inside.symm.trans inside')
    exact ⟨(within hc _).mp hdisk, o, (d, cell), inside, hcell, hc⟩
  · rintro ⟨hsteps, o, ⟨d, cell⟩, inside, hcell, hc⟩
    have hdisk := (within hc _).mpr hsteps
    exact ⟨o, (d, cell), inside, h.mem_found.mpr ⟨o, inside, hcell, hdisk⟩, hc⟩

/-- A narrower search has the candidates of a wider one that are not too far away. -/
theorem mem_ranking_of_wider (graded : t.Graded) (h : x.Sound t) {k k' : Nat} (wider : k ≤ k')
    (a : Fin rs.length × Candidate) :
    a ∈ ranking { s with rings := k } x rs ↔
      a ∈ ranking { s with rings := k' } x rs ∧ decide (a.2.steps ≤ min k maxRings) := by
  obtain ⟨i, c⟩ := a
  rw [mem_ranking, mem_ranking, mem_offersFor_of_graded graded h,
    mem_offersFor_of_graded graded h, decide_eq_true_iff]
  constructor
  · rintro ⟨hsteps, found⟩
    exact ⟨⟨hsteps.trans (min_le_min_right maxRings wider), found⟩, hsteps⟩
  · rintro ⟨⟨-, found⟩, hsteps⟩
    exact ⟨hsteps, found⟩

/-- **A wider search unmatches nobody.**  In every reachable state of the index over a graded
tiling, for any requests, also with repeated identifiers, and any speed, the results of a batch
are a prefix of its results with a wider search; searches wider than the widest one are cut to
it. -/
theorem wider_search_extends_matches (graded : t.Graded) (reachable : DriverIndex.Reachable t x)
    (s : MatcherSettings) {k k' : Nat} (wider : k ≤ k') (rs : List RideRequest) :
    (matchRequests { s with rings := k } x rs).results <+:
      (matchRequests { s with rings := k' } x rs).results := by
  have h := reachable.sound
  have ranking_prefix : (ranking { s with rings := k } x rs).eraseDups <+:
      (ranking { s with rings := k' } x rs).eraseDups := by
    refine eraseDups_isPrefix goesFirst_asymm (ranking_sorted h) (ranking_sorted h)
      (mem_ranking_of_wider graded h wider) fun a _ b _ near far => .inl ?_
    rw [decide_eq_true_iff] at near
    rw [decide_eq_false_iff_not] at far
    omega
  rw [results_eq h, results_eq h, ← firstsBy_eraseDups [] (ranking _ x rs),
    ← firstsBy_eraseDups [] (ranking { s with rings := k' } x rs)]
  exact (firstsBy_isPrefix (firstsBy_isPrefix ranking_prefix)).map _

end MatcherSettings

/-! ## A flat map -/

instance : Hashable Coord := ⟨fun x => mixHash (hash x.a) (hash x.b)⟩

/-- The tiling of a flat map by hexagons around the points with whole coordinates, as the grid
looks far from its pentagons. -/
def Tiling.flat : Tiling Coord where
  locate? p := some ⟨p.lat.round.toInt64.toInt, p.lng.round.toInt64.toInt⟩
  center c := ⟨.ofInt c.a, .ofInt c.b⟩
  disk c k :=
    let offsets : List Int := (List.range (2 * k + 1)).map fun n : Nat => (n : Int) - k
    (offsets.flatMap fun a => offsets.map fun b => c + ⟨a, b⟩).filter fun d => (d - c).length ≤ k
  steps? c d :=
    if (d - c).length < 1 <<< 32 then some (d - c).length.toUInt32 else none

theorem Tiling.mem_disk_flat {o c : Coord} {k : Nat} :
    c ∈ flat.disk o k ↔ (c - o).length ≤ k := by
  have offset {n : Int} : n ∈ (List.range (2 * k + 1)).map (fun n : Nat => (n : Int) - k) ↔
      -k ≤ n ∧ n ≤ k := by
    rw [List.mem_map]
    constructor
    · rintro ⟨m, hm, rfl⟩
      rw [List.mem_range] at hm
      omega
    · rintro ⟨lower, upper⟩
      exact ⟨(n + k).toNat, List.mem_range.mpr (by omega), by omega⟩
  rw [flat, List.mem_filter, decide_eq_true_iff]
  refine and_iff_right_of_imp fun near => ?_
  have bound (x : Coord) (h : x.length ≤ k) : (-k ≤ x.a ∧ x.a ≤ k) ∧ -k ≤ x.b ∧ x.b ≤ k := by
    simp only [Coord.length, Coord.i, Coord.j, Coord.k, Coord.floor] at h
    omega
  obtain ⟨ha, hb⟩ := bound _ near
  refine List.mem_flatMap.mpr ⟨(c - o).a, offset.mpr ha, List.mem_map.mpr ⟨(c - o).b,
    offset.mpr hb, ?_⟩⟩
  change Coord.mk (o.a + (c.a - o.a)) (o.b + (c.b - o.b)) = c
  rw [add_sub_cancel, add_sub_cancel]

theorem Tiling.graded_flat : flat.Graded := by
  intro o c n hn k
  obtain ⟨small, hlength⟩ := Option.ite_none_right_eq_some.mp hn
  obtain rfl := Option.some.inj hlength
  rw [mem_disk_flat, Nat.toUInt32_eq, UInt32.toNat_ofNat_of_lt' small]

/-- Two drivers stand one step apart, one of them at the first of two requests; the second
request is one step from the other. -/
theorem MatcherSettings.one_ring_extends_no_rings :
    let a := ((DriverIndex.ofGrid (.ofSettings {} .flat)).apply (.update "a" ⟨0, 0⟩)).1
    let both := (a.apply (.update "b" ⟨0, 1⟩)).1
    let requests : List RideRequest := [⟨"r1", ⟨0, 0⟩⟩, ⟨"r2", ⟨0, 2⟩⟩]
    0 ≤ 1 ∧ (matchRequests { rings := 0 } both requests).results <+:
      (matchRequests { rings := 1 } both requests).results := by
  intro a both requests
  have reachable : DriverIndex.Reachable Tiling.flat both :=
    .apply (.update "b" ⟨0, 1⟩) (.apply (.update "a" ⟨0, 0⟩) (.start {}))
  exact ⟨Nat.zero_le 1,
    wider_search_extends_matches Tiling.graded_flat reachable {} (Nat.zero_le 1) requests⟩

end GeoDispatch
